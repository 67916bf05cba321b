import FlowTrace.Proofs.Execution.KeptReads
import FlowTrace.Proofs.Execution.Reading

/-!
# Performing a node and reading its output

A condition, a comparison and an array access say what they find in two ways: when one of them has
its turn, the step and the way on tell it, and whenever its output is read, the output tells it.  A
turn reads the operands at the beginning of a chain of reads, an output somewhere along one.  Where
the operands of no node lead back to it, that makes no difference, and the two agree.

* `Graph.Computes` and `Graph.Yields` — what the output of a node gives to whatever reads it;
* `Graph.computes_input?` — it is computed from the operands as a turn of the node reads them;
* `Context.output?_of_compare` — the comparison that an output makes;
* `Graph.turns_show_outputs` — conditions, comparisons and accesses.
-/

namespace FlowTrace

namespace Graph

variable {graph : Graph} {context : Context} {node : Node} {found : Option Value}

/-- What a node finds out for those who read its output, through whichever chain of producers it is
reached; nothing where only the zero of the output is left to them. -/
def Computes (graph : Graph) (context : Context) (node : Node) (found : Option Value) : Prop :=
  ∀ visited, (node.id :: visited).IsChain graph.Draws →
    context.output? node (graph.index.inputAfter? context (node.id :: visited) node) = found

/-- An output of a node has a value, through whichever chain of producers it is reached, and so has
every input that it feeds. -/
structure Yields (graph : Graph) (context : Context) (node : Node) (output : String)
    (value : Value) : Prop where
  given : ∀ visited, (node.id :: visited).IsChain graph.Draws →
    context.output node output (graph.index.inputAfter? context (node.id :: visited) node) = value
  fed : ∀ visited consumer handle, graph.Chain visited consumer handle →
    graph.index.source? consumer.id handle = some (node.id, output) →
    graph.index.inputAfter? context visited consumer handle = some value

/-- The operands along a chain read as they do at its beginning. -/
theorem computes_input? (hacyclic : graph.Acyclic) (hnode : graph.node? node.id = some node)
    (context : Context) :
    graph.Computes context node (context.output? node (graph.index.input? context node)) := by
  intro visited hdraws
  apply context.output?_congr_operands
  intro handle hoperand
  exact (Chain.passed hnode hdraws hoperand).inputAfter?_eq hacyclic context

theorem Computes.unique {other : Option Value} (h : graph.Computes context node found)
    (hother : graph.Computes context node other) : found = other :=
  (h [] (List.isChain_singleton _)).symm.trans (hother [] (List.isChain_singleton _))

/-- What a node finds out is read at its outputs; where it finds nothing, the zero of the output
is. -/
theorem Computes.yields (hacyclic : graph.Acyclic) (hnode : graph.node? node.id = some node)
    (h : graph.Computes context node found) (output : String) :
    graph.Yields context node output (found.getD (.zero (node.outputKind output))) := by
  have houtput : ∀ visited, (node.id :: visited).IsChain graph.Draws →
      context.output node output (graph.index.inputAfter? context (node.id :: visited) node) =
        found.getD (.zero (node.outputKind output)) := by
    intro visited hdraws
    rw [Context.output, h visited hdraws]
  refine ⟨houtput, ?_⟩
  intro visited consumer handle hchain hsource
  have hproducer : graph.index.node? node.id = some node := by simpa using hnode
  -- The guard stays out of the way, and the chain that arrives at the node is one of producers.
  rw [Index.inputAfter?_of_fed context visited hsource hproducer,
    if_neg (hchain.not_mem hacyclic hsource)]
  refine congrArg some (houtput visited ?_)
  cases hchain with
  | begun => exact List.isChain_singleton _
  | passed hconsumer hdraws hoperand =>
      exact List.isChain_cons_cons.2 ⟨draws_of_source? hconsumer hoperand hsource, hdraws⟩

end Graph

/-! ## What the nodes find -/

namespace Context

variable {context : Context} {node : Node}

theorem output?_of_condition (hkind : node.kind = .ifCondition) (read : String → Option Value) :
    context.output? node read =
      some (.bool ((node.comparator .equal).holds (node.readOrZero read "left")
        (node.readOrZero read "right"))) := by
  simp [output?, hkind]

/-- An index leads to the element at its position. -/
theorem bind_position? (context : Context) (index : Value) :
    ((context.position? index).bind fun i => context.array[i.val]?) =
      index.asIndex.bind fun i => context.array[i]? := by
  unfold position?
  cases index.asIndex with
  | none => rfl
  | some i => by_cases hlt : i < context.array.size <;> simp [hlt]

/-- The comparison that two indices lead to; none if one of them is out of bounds. -/
def comparison? (context : Context) (node : Node) (first second : Value) : Option Bool := do
  let a ← first.asIndex.bind fun i => context.array[i]?
  let b ← second.asIndex.bind fun j => context.array[j]?
  return (node.comparator .greater).holds (.number a) (.number b)

theorem output?_of_compare (hkind : node.kind = .arrayCompare) (read : String → Option Value) :
    context.output? node read =
      (context.comparison? node (node.readOrZero read "i") (node.readOrZero read "j")).map
        Value.bool := by
  simp only [output?, hkind, comparison?]
  generalize node.readOrZero read "i" = first
  generalize node.readOrZero read "j" = second
  -- The output finds both indices before it looks at the array.
  cases first.asIndex with
  | none => rfl
  | some i =>
      cases second.asIndex with
      | none => cases hi : context.array[i]? <;> simp [hi]
      | some j => cases hi : context.array[i]? <;> cases hj : context.array[j]? <;> simp [hi, hj]

theorem comparison?_eq_none_iff {first second : Value} :
    context.comparison? node first second = none ↔
      context.position? first = none ∨ context.position? second = none := by
  rw [comparison?, ← context.bind_position? first, ← context.bind_position? second]
  cases context.position? first <;> cases context.position? second <;> simp

end Context

theorem Node.zero_of_compare {node : Node} (hkind : node.kind = .arrayCompare) :
    Value.zero (node.outputKind "result") = .bool false := by
  simp only [outputKind, output?, hkind]
  decide

/-! ## What the turns say -/

namespace Index

variable (index : Index) (context : Context) {node : Node}

/-- A comparison reports its result, or that an index is out of bounds. -/
theorem facts_of_compare (hkind : node.kind = .arrayCompare) :
    let found := context.comparison? node (index.input context node "i")
      (index.input context node "j")
    let facts := (index.perform context node).draft.metadata
    facts.get? "result" = found.map Json.bool ∧
      (facts.get? "outOfBounds" = some (.bool true) ↔ found = none) := by
  simp only [perform, hkind, Context.performCompare, Context.comparison?,
    ← Context.bind_position?]
  cases context.position? (index.input context node "i") with
  | none => simp [Context.outOfBounds]
  | some i =>
      cases context.position? (index.input context node "j") with
      | none => simp [Context.outOfBounds]
      | some j => simp

/-- An access reports the element that it finds, or that its index is out of bounds. -/
theorem facts_of_access (hkind : node.kind = .arrayAccess) :
    let facts := (index.perform context node).draft.metadata
    facts.get? "value" = (index.accessed? context node).map Json.ofFloat ∧
      (facts.get? "outOfBounds" = some (.bool true) ↔ index.accessed? context node = none) := by
  have hfound : index.accessed? context node =
      ((index.input context node "index").asIndex.bind fun i =>
        (context.accessedArray (index.input? context node "array")).1[i]?.map fun x =>
          (i, x)).map Prod.snd := by
    simp only [accessed?, Context.element?, input, Option.map_bind, Function.comp_def,
      Option.map_map, Option.map_id', Option.bind_eq_bind]
  simp only [perform, hkind, Context.performAccess, hfound]
  split
  · next i x hpair => split <;> simp [hpair]
  · next hnone => simp [hnone]

end Index

/-! ## Turns and outputs -/

namespace Graph

variable {graph : Graph} {context : Context} {node : Node}

/-- A condition is left by the branch that its output tells. -/
theorem condition_shows_output (hacyclic : graph.Acyclic) (hnode : graph.node? node.id = some node)
    (hkind : node.kind = .ifCondition) :
    ∃ result : Bool,
      (graph.index.perform context node).exit = some (if result then "true" else "false") ∧
      (graph.index.perform context node).draft.metadata.get? "result" = some (.bool result) ∧
      graph.Yields context node "result" (.bool result) := by
  have hcomputes := computes_input? hacyclic hnode context
  rw [Context.output?_of_condition hkind] at hcomputes
  refine ⟨_, ?_, ?_, hcomputes.yields hacyclic hnode "result"⟩
  · simp only [Index.perform, hkind, Context.performCondition, Context.exit_effectVia]
    rfl
  · simp [Index.perform, hkind, Context.performCondition, Index.input]

/-- A comparison reports what its output tells, and the output tells `false` out of bounds. -/
theorem comparison_shows_output (hacyclic : graph.Acyclic)
    (hnode : graph.node? node.id = some node) (hkind : node.kind = .arrayCompare) :
    let facts := (graph.index.perform context node).draft.metadata
    let first := context.position? (graph.index.input context node "i")
    let second := context.position? (graph.index.input context node "j")
    (∀ i j, first = some i → second = some j →
      ∃ result : Bool, facts.get? "result" = some (.bool result) ∧
        graph.Yields context node "result" (.bool result)) ∧
    (facts.get? "outOfBounds" = some (.bool true) ↔ first = none ∨ second = none) ∧
    (facts.get? "outOfBounds" = some (.bool true) →
      graph.Yields context node "result" (.bool false)) := by
  intro facts first second
  obtain ⟨hresult, hbounds⟩ := graph.index.facts_of_compare context hkind
  have hcomputes := computes_input? hacyclic hnode context
  rw [Context.output?_of_compare hkind] at hcomputes
  have hyields := hcomputes.yields hacyclic hnode "result"
  refine ⟨?_, hbounds.trans Context.comparison?_eq_none_iff, ?_⟩
  · -- Two positions make a comparison, and turn and output make the same.
    intro i j hfirst hsecond
    have hin : context.comparison? node (graph.index.input context node "i")
        (graph.index.input context node "j") ≠ none := by
      rw [Ne, Context.comparison?_eq_none_iff]
      rintro (hnone | hnone)
      · cases hnone.symm.trans hfirst
      · cases hnone.symm.trans hsecond
    rcases Option.ne_none_iff_exists'.1 hin with ⟨result, hcomparison⟩
    rw [hcomparison] at hresult
    simp only [Index.input] at hcomparison
    rw [hcomparison] at hyields
    exact ⟨result, hresult, hyields⟩
  · -- Without a comparison the output falls back to its zero.
    intro hflagged
    have hnone := hbounds.1 hflagged
    simp only [Index.input] at hnone
    rw [hnone, Option.map_none, Option.getD_none, Node.zero_of_compare hkind] at hyields
    exact hyields

/-- An access that keeps nothing finds what its output tells, and the output tells zero out of
bounds. -/
theorem access_shows_output (hacyclic : graph.Acyclic) (hnode : graph.node? node.id = some node)
    (hkind : node.kind = .arrayAccess) (hfree : context.reads.get? node.id = none) :
    let effect := graph.index.perform context node
    (∀ x, effect.context.reads.get? node.id = some (.number x) ↔
      graph.Computes context node (some (.number x))) ∧
    (∀ x, effect.context.reads.get? node.id = some (.number x) →
      effect.draft.metadata.get? "value" = some (.ofFloat x) ∧
        graph.Yields context node "value" (.number x)) ∧
    (effect.draft.metadata.get? "outOfBounds" = some (.bool true) ↔
      graph.Computes context node none) ∧
    (effect.draft.metadata.get? "outOfBounds" = some (.bool true) →
      graph.Yields context node "value" (.number 0.0)) := by
  intro effect
  obtain ⟨hvalue, hbounds⟩ := graph.index.facts_of_access context hkind
  have hkept : effect.context.reads.get? node.id =
      (graph.index.accessed? context node).map Value.number := by
    rw [graph.index.get?_reads_of_access context hkind, if_pos rfl]
  have hcomputes := computes_input? hacyclic hnode context
  -- Without a kept element the output is computed like the turn itself does it.
  rw [Context.output?_of_not_kept hkind hfree] at hcomputes
  have hfound : context.element? node (graph.index.input? context node) =
      graph.index.accessed? context node := rfl
  rw [hfound] at hcomputes
  have hyields := hcomputes.yields hacyclic hnode "value"
  refine ⟨?_, ?_, ?_, ?_⟩
  · intro x
    rw [hkept]
    constructor
    · intro hsome
      exact hsome ▸ hcomputes
    · intro hother
      exact hcomputes.unique hother
  · intro x hsome
    rw [hkept] at hsome
    rcases Option.map_eq_some_iff.1 hsome with ⟨y, hy, ⟨⟩⟩
    rw [hy] at hvalue hyields
    exact ⟨hvalue, hyields⟩
  · rw [hbounds]
    constructor
    · intro hnone
      rw [hnone] at hcomputes
      exact hcomputes
    · intro hother
      exact Option.map_eq_none_iff.1 (hcomputes.unique hother)
  · intro hflagged
    rw [hbounds.1 hflagged, Option.map_none, Option.getD_none, Node.zero_of_access hkind] at hyields
    exact hyields

/-- In a graph without cycles of operands, what a node finds at its turn is what its output tells in
the same context.  A condition goes on by the branch that its output tells.  A comparison reports
what its output tells; out of bounds that is `false`.  An array access that keeps nothing finds an
element if and only if its output is computed from it; out of bounds that is zero. -/
theorem turns_show_outputs (graph : Graph) (hacyclic : graph.Acyclic) (context : Context)
    (node : Node) (hnode : graph.node? node.id = some node) :
    let effect := graph.index.perform context node
    let facts := effect.draft.metadata
    (node.kind = .ifCondition → ∃ result : Bool,
      effect.exit = some (if result then "true" else "false") ∧
      facts.get? "result" = some (.bool result) ∧
      graph.Yields context node "result" (.bool result)) ∧
    (node.kind = .arrayCompare →
      let first := context.position? (graph.index.input context node "i")
      let second := context.position? (graph.index.input context node "j")
      (∀ i j, first = some i → second = some j →
        ∃ result : Bool, facts.get? "result" = some (.bool result) ∧
          graph.Yields context node "result" (.bool result)) ∧
      (facts.get? "outOfBounds" = some (.bool true) ↔ first = none ∨ second = none) ∧
      (facts.get? "outOfBounds" = some (.bool true) →
        graph.Yields context node "result" (.bool false))) ∧
    (node.kind = .arrayAccess → context.reads.get? node.id = none →
      (∀ x, effect.context.reads.get? node.id = some (.number x) ↔
        graph.Computes context node (some (.number x))) ∧
      (∀ x, effect.context.reads.get? node.id = some (.number x) →
        facts.get? "value" = some (.ofFloat x) ∧
          graph.Yields context node "value" (.number x)) ∧
      (facts.get? "outOfBounds" = some (.bool true) ↔ graph.Computes context node none) ∧
      (facts.get? "outOfBounds" = some (.bool true) →
        graph.Yields context node "value" (.number 0.0))) :=
  ⟨condition_shows_output hacyclic hnode, comparison_shows_output hacyclic hnode,
    access_shows_output hacyclic hnode⟩

/-- With two elements the access finds the first, the comparison looks at the second twice, and the
condition takes its result on both sides.  With none, the access and the comparison are out of
bounds. -/
theorem turns_show_outputs_sharedReads :
    let check := Node.new "check" .ifCondition
    let compare := (Node.new "compare" .arrayCompare).withParameter "operator" (.string ">=")
    let read := Node.new "read" .arrayAccess
    sharedReads.Acyclic ∧
      (sharedReads.index.perform { array := #[1.0, 4.0] } check).exit = some "true" ∧
      sharedReads.Yields { array := #[1.0, 4.0] } check "result" (.bool true) ∧
      sharedReads.Yields { array := #[1.0, 4.0] } compare "result" (.bool true) ∧
      sharedReads.Yields { array := #[1.0, 4.0] } read "value" (.number 1.0) ∧
      sharedReads.Yields { array := #[] } compare "result" (.bool false) ∧
      sharedReads.Yields { array := #[] } read "value" (.number 0.0) := by
  intro check compare read
  have hacyclic : sharedReads.Acyclic :=
    acyclic_of_rank (fun id => sharedReads.nodes.findIdx (·.id = id)) (by decide +kernel)
  have hcheck : sharedReads.node? "check" = some check := by decide +kernel
  have hcompare : sharedReads.node? "compare" = some compare := by decide +kernel
  have hread : sharedReads.node? "read" = some read := by decide +kernel
  have hturns := turns_show_outputs sharedReads hacyclic
  have hexit : (sharedReads.index.perform { array := #[1.0, 4.0] } check).exit =
      some "true" := by
    decide +kernel
  have hresult : (sharedReads.index.perform { array := #[1.0, 4.0] } compare).draft.metadata.get?
      "result" = some (.bool true) := by
    decide +kernel
  refine ⟨hacyclic, hexit, ?_, ?_, ?_, ?_, ?_⟩
  · obtain ⟨result, hbranch, -, hyields⟩ := (hturns { array := #[1.0, 4.0] } check hcheck).1 rfl
    cases result with
    | true => exact hyields
    | false => exact absurd (hexit.symm.trans hbranch) (by decide)
  · have hall := ((hturns { array := #[1.0, 4.0] } compare hcompare).2.1 rfl).1
    obtain ⟨result, hfact, hyields⟩ := hall 1 1 (by decide +kernel) (by decide +kernel)
    cases hresult.symm.trans hfact
    exact hyields
  · exact (((hturns { array := #[1.0, 4.0] } read hread).2.2 rfl rfl).2.1 1.0
      (by decide +kernel)).2
  · exact ((hturns { array := #[] } compare hcompare).2.1 rfl).2.2 (by decide +kernel)
  · exact ((hturns { array := #[] } read hread).2.2 rfl rfl).2.2.2 (by decide +kernel)

end Graph
end FlowTrace
