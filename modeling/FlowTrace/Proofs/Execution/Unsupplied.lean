import FlowTrace.Proofs.Execution.Literals
import FlowTrace.Proofs.Graph.Wiring

/-!
# Inputs that nothing supplies

Validation warns about an input that has neither a connection nor a literal, and says what it will
read.  It takes any connection into the input for one, while execution follows only those from data
outputs.  Still the warnings hold: an input with a warning reads what the warning says, and where
the connections are sound, every other input is fed or has a literal.

* `Node.Needs` — the inputs that something has to supply;
* `Graph.Unsupplied` and `Graph.mem_warnings_iff` — those that nothing supplies, and that the
  warnings are about these;
* `Graph.Unsupplied.input_eq` — they read the zero of their kind;
* `Graph.isFed_of_enters` — a sound connection into a data input feeds it;
* `Graph.unresolved_warnings_hold` — both directions.
-/

namespace FlowTrace

/-! ## Inputs of the catalog -/

namespace Node

variable {node : Node} {input : Handle}

/-- A data input that something has to supply: an array access without an array reads the working
array, so that input is not among them. -/
structure Needs (node : Node) (input : Handle) : Prop where
  mem : input ∈ node.kind.inputs
  data : input.kind.isExecution = false
  other : ¬ (node.kind = .arrayAccess ∧ input.id = "array")

/-- An input is found under its name. -/
theorem inputKind_of_mem (hmem : input ∈ node.kind.inputs) :
    node.inputKind input.id = input.kind := by
  have hall : ∀ kind : NodeKind, ∀ other ∈ kind.inputs,
      kind.template.input? other.id = some other := by
    intro kind
    cases kind <;> decide
  simp [inputKind, input?, hall node.kind input hmem]

/-- No data input has the name of the execution input. -/
theorem Needs.id_ne_execIn (h : node.Needs input) : input.id ≠ execIn := by
  have hall : ∀ kind : NodeKind, ∀ other ∈ kind.inputs,
      other.kind.isExecution = false → other.id ≠ execIn := by
    intro kind
    cases kind <;> decide
  exact hall node.kind input h.mem h.data

end Node

/-! ## Warnings -/

namespace Graph

variable {graph : Graph} {node : Node} {input : Handle}

/-- An input that needs to be supplied but has no connection, and no literal other than null. -/
structure Unsupplied (graph : Graph) (node : Node) (input : Handle) : Prop
    extends node.Needs input where
  unconnected : ∀ connection ∈ graph.connections, connection.enters node.id input.id = false
  bare : ∀ literal, node.data.get? input.id = some literal → literal = .null

/-- The check for unresolved inputs finds those that are unsupplied. -/
theorem unsupplied_iff :
    graph.Unsupplied node input ↔
      input ∈ node.kind.inputs ∧ graph.isUnresolved node input = true := by
  have hconnections : (graph.incoming node.id input.id).isEmpty = true ↔
      ∀ connection ∈ graph.connections, connection.enters node.id input.id = false := by
    simp [incoming, List.filter_eq_nil_iff]
  have hliteral : (node.data.get? input.id).any (!·.isNull) = false ↔
      ∀ literal, node.data.get? input.id = some literal → literal = .null := by
    cases node.data.get? input.id with
    | none => simp
    | some literal => cases literal <;> simp [Json.isNull]
  constructor
  · rintro ⟨⟨hmem, hdata, hother⟩, hfree, hbare⟩
    refine ⟨hmem, ?_⟩
    simp only [isUnresolved, hdata, hconnections.2 hfree, hliteral.2 hbare]
    simpa [not_and_or, -not_and] using hother
  · rintro ⟨hmem, hunresolved⟩
    simp only [isUnresolved, Bool.and_eq_true, Bool.not_eq_true'] at hunresolved
    obtain ⟨⟨⟨hdata, hother⟩, hfree⟩, hbare⟩ := hunresolved
    exact ⟨⟨hmem, hdata, by simpa using hother⟩, hconnections.1 hfree, hliteral.1 hbare⟩

/-- Validation warns about the inputs that nothing supplies, and about no others. -/
theorem mem_warnings_iff {id : NodeId} :
    .unresolved id input ∈ graph.validate.warnings ↔
      ∃ node ∈ graph.nodes, node.id = id ∧ graph.Unsupplied node input := by
  have hother : .unresolved id input ∉ graph.unreachableWarnings := by
    unfold unreachableWarnings
    split <;> simp
  simp only [validate, List.mem_append, hother, false_or, unresolvedWarnings, List.mem_flatMap,
    List.mem_map, List.mem_filter, ← unsupplied_iff, Warning.unresolved.injEq]
  constructor
  · rintro ⟨node, hnode, other, hunsupplied, hid, rfl⟩
    exact ⟨node, hnode, hid, hunsupplied⟩
  · rintro ⟨node, hnode, hid, hunsupplied⟩
    exact ⟨node, hnode, input, hunsupplied, hid, rfl⟩

/-- An input that nothing supplies reads the zero of its kind, in every context. -/
theorem Unsupplied.input_eq (h : graph.Unsupplied node input) (context : Context) :
    graph.index.input context node input.id = .zero input.kind := by
  -- Execution follows some of the connections into an input, and here there is none at all.
  have hfed : graph.index.isFed node input.id = false := by
    have hnone : graph.connections.find? (fun c =>
        c.enters node.id input.id && graph.carriesData c.toEndpoints) = none := by
      rw [List.find?_eq_none]
      intro connection hmem
      simp [h.unconnected connection hmem]
    rw [Index.isFed, index_source?, hnone]
    rfl
  have hliteral : context.inputLiteral? node input.id = none := by
    unfold Context.inputLiteral?
    cases hget : node.data.get? input.id with
    | none => rfl
    | some literal =>
        cases h.bare literal hget
        rfl
  rw [Index.input, Node.readOrZero, Index.input?_of_unfed hfed, hliteral,
    Node.inputKind_of_mem h.mem]
  rfl

/-! ## Inputs without a warning -/

/-- Where the connections are sound, one into a data input comes from a data output. -/
theorem Fits.carriesData {ends : Endpoints} (h : graph.Fits ends)
    (hname : ends.targetHandle ≠ execIn) : graph.carriesData ends = true := by
  rcases h.handles with ⟨source, target, output, entry, hsource, -, houtput, -, -⟩
  have horders : graph.ordersExecution ends = false := by
    rw [Bool.eq_false_iff]
    intro horders
    rcases h.enters_execIn horders with ⟨-, -, hentry, -⟩
    exact hname hentry
  simp only [ordersExecution, hsource, Option.any_some, Node.isExecutionOutput, houtput] at horders
  simp [Graph.carriesData, hsource, Node.isDataOutput, houtput, horders]

/-- An input that a data output is connected to is fed. -/
theorem isFed_of_enters {connection : Connection} {handle : String}
    (hmem : connection ∈ graph.connections) (henters : connection.enters node.id handle = true)
    (hcarries : graph.carriesData connection.toEndpoints = true) :
    graph.index.isFed node handle = true := by
  rw [Index.isFed, index_source?, Option.isSome_map, List.find?_isSome]
  exact ⟨connection, hmem, by simp [henters, hcarries]⟩

/-- An input that is fed reads a value in every context. -/
theorem isSome_input?_of_isFed {handle : String} (hfed : graph.index.isFed node handle = true)
    (context : Context) : (graph.index.input? context node handle).isSome = true := by
  rcases Option.isSome_iff_exists.1 hfed with ⟨⟨id, output⟩, hsource⟩
  -- A connection counts only if the node that it starts at is known.
  rcases exists_connection_of_source? hsource with ⟨-, -, producer, -, -, -, -, hproducer, -⟩
  rw [Index.input?, Index.inputAfter?_of_fed context [] hsource
    ((graph.index_node? id).trans hproducer), if_neg List.not_mem_nil]
  rfl

/-- Where the connections are sound, an input that needs to be supplied and has no warning is fed or
has a literal. -/
theorem fed_or_literal (hfaults : graph.connectionFaults = []) (hneeds : node.Needs input)
    (hsupplied : ¬ graph.Unsupplied node input) :
    graph.index.isFed node input.id = true ∨
      ∃ literal, node.data.get? input.id = some literal ∧ literal ≠ .null := by
  -- Otherwise validation would have warned.
  by_contra hneither
  rw [not_or] at hneither
  refine hsupplied ⟨hneeds, ?_, ?_⟩
  · intro connection hmem
    rw [Bool.eq_false_iff]
    intro henters
    -- The node that the connection was checked against may be another one with the same id, but
    -- the name alone shows that no execution comes in.
    have hname : connection.targetHandle ≠ execIn := by
      have hsame : connection.target = node.id ∧ connection.targetHandle = input.id := by
        simpa [Connection.enters] using henters
      rw [hsame.2]
      exact hneeds.id_ne_execIn
    have hfits := (connectionFaults_eq_nil_iff.1 hfaults).1 connection hmem
    exact hneither.1 (isFed_of_enters hmem henters (hfits.carriesData hname))
  · intro literal hget
    by_contra hliteral
    exact hneither.2 ⟨literal, hget, hliteral⟩

/-- The warnings about inputs hold.  Each is about an input of a node that reads, in every context,
the zero of its kind, and its wording ends with the text of that value.  In a graph without faulty
connections every other input that needs to be supplied is fed, and then it reads a value in every
context, or it has a literal that is not null. -/
theorem unresolved_warnings_hold (graph : Graph) :
    (∀ id input, .unresolved id input ∈ graph.validate.warnings ↔
      ∃ node ∈ graph.nodes, node.id = id ∧ graph.Unsupplied node input) ∧
    (∀ node input, graph.Unsupplied node input → ∀ context,
      graph.index.input context node input.id = .zero input.kind ∧
      (Warning.unresolved node.id input).message =
        s!"Input '{input.id}' has no connection and no literal; it will read as " ++
          (graph.index.input context node input.id).display) ∧
    (graph.connectionFaults = [] → ∀ node ∈ graph.nodes, ∀ input, node.Needs input →
      ¬ graph.Unsupplied node input →
      (graph.index.isFed node input.id = true ∧
        ∀ context, (graph.index.input? context node input.id).isSome = true) ∨
      ∃ literal, node.data.get? input.id = some literal ∧ literal ≠ .null) := by
  refine ⟨fun id input => mem_warnings_iff, ?_, ?_⟩
  · intro node input hunsupplied context
    have hread := hunsupplied.input_eq context
    exact ⟨hread, by rw [hread]; rfl⟩
  · intro hfaults node _ input hneeds hsupplied
    rcases fed_or_literal hfaults hneeds hsupplied with hfed | hliteral
    · exact Or.inl ⟨hfed, isSome_input?_of_isFed hfed⟩
    · exact Or.inr hliteral

/-- A counter is narrated, and then something that nothing supplies. -/
def narratedCount : Graph where
  nodes :=
    [Node.new "begin" .start, Node.new "count" .counterIncrement,
      Node.new "note" .updateDescription, Node.new "hint" .updateDescription,
      Node.new "finish" .finish]
  connections :=
    [⟨⟨"begin", execOut, "count", execIn⟩, "1"⟩, ⟨⟨"count", execOut, "note", execIn⟩, "2"⟩,
      ⟨⟨"note", execOut, "hint", execIn⟩, "3"⟩, ⟨⟨"hint", execOut, "finish", execIn⟩, "4"⟩,
      ⟨⟨"count", "value", "note", "value"⟩, "5"⟩]

/-- Of two new nodes of one kind, validation warns about the one that is not connected; it reads the
zero that the warning names, and the other one reads the counter. -/
theorem unresolved_warnings_hold_narratedCount :
    narratedCount.validate = ⟨[], [.unresolved "hint" (.input "value" .any)]⟩ ∧
      (Warning.unresolved "hint" (.input "value" .any)).message =
        "Input 'value' has no connection and no literal; it will read as 0" ∧
      (∀ context, narratedCount.index.input context (Node.new "hint" .updateDescription) "value" =
        .number 0.0) ∧
      ∀ context, (narratedCount.index.input? context (Node.new "note" .updateDescription)
        "value").isSome = true := by
  have hreport : narratedCount.validate = ⟨[], [.unresolved "hint" (.input "value" .any)]⟩ := by
    decide +kernel
  obtain ⟨hwarned, hreads, hrest⟩ := unresolved_warnings_hold narratedCount
  refine ⟨hreport, by decide +kernel, ?_, ?_⟩
  · intro context
    have hlisted : .unresolved "hint" (.input "value" .any) ∈ narratedCount.validate.warnings := by
      rw [hreport]
      exact List.mem_singleton.2 rfl
    obtain ⟨node, hnode, hid, hunsupplied⟩ := (hwarned _ _).1 hlisted
    have hnamed : ∀ other ∈ narratedCount.nodes, other.id = "hint" →
        other = Node.new "hint" .updateDescription := by
      decide +kernel
    cases hnamed node hnode hid
    exact (hreads _ _ hunsupplied context).1
  · have hneeds : (Node.new "note" .updateDescription).Needs (.input "value" .any) :=
      ⟨by decide +kernel, rfl, by decide⟩
    have hsupplied : ¬ narratedCount.Unsupplied (Node.new "note" .updateDescription)
        (.input "value" .any) := by
      intro hunsupplied
      exact absurd (unsupplied_iff.1 hunsupplied).2 (by decide +kernel)
    rcases hrest (by decide +kernel) _ (by simp [narratedCount]) _ hneeds hsupplied with
      ⟨-, hread⟩ | ⟨literal, hliteral, -⟩
    · exact hread
    · have hbare : (Node.new "note" .updateDescription).data.get? "value" = none := by
        decide +kernel
      cases hbare.symm.trans hliteral

end Graph
end FlowTrace
