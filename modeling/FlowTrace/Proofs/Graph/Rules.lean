import FlowTrace.Proofs.Graph.Wiring

/-!
# The rules for connections

Validation goes through the connections in their order and checks each against those in front of it,
sound or not; the first objection to a connection hides the others.  The rules behind it know no
order.  This file states them as such and shows that validation decides them.

* `HandleKind.Suits` and `Graph.Joins` — what a connection has to be by itself;
* `Graph.SameOutput` and `Graph.SameInput` — two connections that compete for an execution handle;
* `Graph.Regular` — the rules for all connections, wherever they stand;
* `Graph.Clash` — two connections break a rule together, whichever comes first;
* `Graph.connectionFaults_eq_nil_iff_regular` — the check of each connection against those in front
  of it finds nothing if and only if the rules hold.
-/

namespace FlowTrace

/-- No two items at different places of a list are related. -/
def NoTwo {α : Type} (related : α → α → Prop) (list : List α) : Prop :=
  ∀ (i j : Nat) (hi : i < list.length) (hj : j < list.length),
    i ≠ j → ¬ related list[i] list[j]

/-- For a symmetric relation it is enough to look at pairs in their order. -/
theorem noTwo_iff_pairwise {α : Type} {related : α → α → Prop} {list : List α}
    (hsymm : ∀ {a b : α}, related a b → related b a) :
    NoTwo related list ↔ list.Pairwise fun a b => ¬ related a b := by
  rw [List.pairwise_iff_getElem]
  -- The relation is symmetric, so the places may be taken in their order.
  constructor
  · intro h i j hi hj hlt
    exact h i j hi hj (Nat.ne_of_lt hlt)
  · intro h i j hi hj hne hrelated
    rcases Nat.lt_or_gt_of_ne hne with hlt | hgt
    · exact h i j hi hj hlt hrelated
    · exact h j i hj hi hgt (hsymm hrelated)

namespace HandleKind

/-- Execution leads to execution.  Data leads to data of the same kind, and one side that takes any
data is enough. -/
def Suits (source target : HandleKind) : Prop :=
  (source = execution ∧ target = execution) ∨
    (source ≠ execution ∧ target ≠ execution ∧ (source = target ∨ source = any ∨ target = any))

theorem compatible_iff_suits {source target : HandleKind} :
    source.compatible target = true ↔ source.Suits target := by
  cases source <;> cases target <;> simp [compatible, Suits]

end HandleKind

/-- Whether a handle is an input of the node by which execution enters it. -/
def Node.isExecutionInput (node : Node) (handle : String) : Bool :=
  (node.input? handle).any (·.kind.isExecution)

namespace Graph

variable {graph other : Graph} {a b ends : Endpoints} {list : List Endpoints}

/-! ## The rules -/

/-- A connection between two different nodes, from an output to an input that suits it. -/
structure Joins (graph : Graph) (ends : Endpoints) : Prop where
  distinct : ends.source ≠ ends.target
  handles : ∃ source target output input,
    graph.node? ends.source = some source ∧ graph.node? ends.target = some target ∧
      source.output? ends.sourceHandle = some output ∧
      target.input? ends.targetHandle = some input ∧ output.kind.Suits input.kind

def entersExecution (graph : Graph) (ends : Endpoints) : Bool :=
  (graph.node? ends.target).any (·.isExecutionInput ends.targetHandle)

def SameOutput (graph : Graph) (a b : Endpoints) : Prop :=
  graph.ordersExecution a = true ∧ a.source = b.source ∧ a.sourceHandle = b.sourceHandle

def SameInput (graph : Graph) (a b : Endpoints) : Prop :=
  graph.entersExecution a = true ∧ a.target = b.target ∧ a.targetHandle = b.targetHandle

/-- The rules for the connections of a graph. -/
structure Regular (graph : Graph) (list : List Endpoints) : Prop where
  joins : ∀ ends ∈ list, graph.Joins ends
  distinct : NoTwo (fun a b => a = b) list
  outputs : NoTwo graph.SameOutput list
  inputs : NoTwo graph.SameInput list

/-! ## Pairs that break a rule -/

def Clash (graph : Graph) (a b : Endpoints) : Prop :=
  a = b ∨ graph.SameOutput a b ∨ graph.SameInput a b

theorem SameOutput.symm (h : graph.SameOutput a b) : graph.SameOutput b a := by
  rcases h with ⟨horders, hsource, hhandle⟩
  refine ⟨?_, hsource.symm, hhandle.symm⟩
  simpa only [ordersExecution, hsource, hhandle] using horders

theorem SameInput.symm (h : graph.SameInput a b) : graph.SameInput b a := by
  rcases h with ⟨henters, htarget, hhandle⟩
  refine ⟨?_, htarget.symm, hhandle.symm⟩
  simpa only [entersExecution, htarget, hhandle] using henters

theorem Clash.symm (h : graph.Clash a b) : graph.Clash b a := by
  rcases h with hsame | houtput | hinput
  · exact Or.inl hsame.symm
  · exact Or.inr (Or.inl houtput.symm)
  · exact Or.inr (Or.inr hinput.symm)

/-- Regular connections join what suits, and no two of them clash. -/
theorem regular_iff :
    graph.Regular list ↔
      (∀ ends ∈ list, graph.Joins ends) ∧ list.Pairwise fun a b => ¬ graph.Clash a b := by
  have hsplit : (list.Pairwise fun a b => ¬ graph.Clash a b) ↔
      (list.Pairwise fun a b => ¬ a = b) ∧ (list.Pairwise fun a b => ¬ graph.SameOutput a b) ∧
        list.Pairwise fun a b => ¬ graph.SameInput a b := by
    simp only [Clash, not_or, List.pairwise_and_iff]
  rw [hsplit, ← noTwo_iff_pairwise Eq.symm, ← noTwo_iff_pairwise SameOutput.symm,
    ← noTwo_iff_pairwise SameInput.symm]
  constructor
  · intro h
    exact ⟨h.joins, h.distinct, h.outputs, h.inputs⟩
  · rintro ⟨hjoins, hdistinct, houtputs, hinputs⟩
    exact ⟨hjoins, hdistinct, houtputs, hinputs⟩

/-- The rules do not depend on the order of the connections. -/
theorem regular_perm {order : List Endpoints} (hperm : order.Perm list) :
    graph.Regular order ↔ graph.Regular list := by
  have hsymm : ∀ {a b : Endpoints}, ¬ graph.Clash a b → ¬ graph.Clash b a := by
    intro a b hapart hclash
    exact hapart hclash.symm
  rw [regular_iff, regular_iff, hperm.pairwise_iff hsymm]
  simp only [hperm.mem_iff]

theorem Regular.of_node? (h : graph.Regular list) (hnode : ∀ id, other.node? id = graph.node? id) :
    other.Regular list := by
  have horders : other.ordersExecution = graph.ordersExecution := by
    funext ends
    simp only [ordersExecution, hnode]
  have henters : other.entersExecution = graph.entersExecution := by
    funext ends
    simp only [entersExecution, hnode]
  refine ⟨?_, h.distinct, ?_, ?_⟩
  · intro ends hmem
    rcases h.joins ends hmem with ⟨hdistinct, hhandles⟩
    exact ⟨hdistinct, by simpa only [hnode] using hhandles⟩
  · simpa only [NoTwo, SameOutput, horders] using h.outputs
  · simpa only [NoTwo, SameInput, henters] using h.inputs

/-- The nodes are all that the rules ask of a graph. -/
theorem regular_of_nodes (hnodes : other.nodes = graph.nodes) :
    other.Regular list ↔ graph.Regular list := by
  have hnode : ∀ id, other.node? id = graph.node? id := by
    intro id
    rw [Graph.node?, Graph.node?, hnodes]
  constructor
  · intro h
    exact h.of_node? fun id => (hnode id).symm
  · intro h
    exact h.of_node? hnode

/-! ## What the check decides -/

theorem fits_iff_joins : graph.Fits ends ↔ graph.Joins ends := by
  constructor
  · rintro ⟨hdistinct, hhandles⟩
    exact ⟨hdistinct, by simpa only [HandleKind.compatible_iff_suits] using hhandles⟩
  · rintro ⟨hdistinct, hhandles⟩
    exact ⟨hdistinct, by simpa only [HandleKind.compatible_iff_suits] using hhandles⟩

/-- A connection that joins suitable handles starts at an execution output if and only if it leads
to an execution input. -/
theorem Fits.entersExecution (hfits : graph.Fits ends) :
    graph.entersExecution ends = graph.ordersExecution ends := by
  rcases hfits.handles with
    ⟨source, target, output, input, hsource, htarget, houtput, hinput, hcompatible⟩
  have hkinds : input.kind.isExecution = output.kind.isExecution := by
    revert hcompatible
    cases output.kind <;> cases input.kind <;> decide
  simp [Graph.entersExecution, ordersExecution, hsource, htarget, Node.isExecutionOutput,
    Node.isExecutionInput, houtput, hinput, hkinds]

/-- A connection in front leaves a fitting one room if and only if the two do not clash. -/
theorem apart_iff_not_clash {earlier : Connection} (hfits : graph.Fits ends) :
    graph.Apart earlier ends ↔ ¬ graph.Clash earlier.toEndpoints ends := by
  have henters := hfits.entersExecution
  constructor
  · rintro ⟨hne, hroom⟩ (hsame | houtput | hinput)
    · exact hne hsame
    · -- The check asks the later connection for its kind, the rule asks either.
      have hfree := (hroom houtput.symm.1).1
      simp [Connection.leaves, houtput.2.1, houtput.2.2] at hfree
    · have hfree := (hroom (henters ▸ hinput.symm.1)).2
      simp [Connection.enters, hinput.2.1, hinput.2.2] at hfree
  · intro hclash
    refine ⟨fun hsame => hclash (Or.inl hsame), ?_⟩
    intro horders
    constructor
    · rw [Bool.eq_false_iff]
      intro hleaves
      have hends : earlier.source = ends.source ∧ earlier.sourceHandle = ends.sourceHandle := by
        simpa [Connection.leaves] using hleaves
      have hsame : graph.SameOutput ends earlier.toEndpoints :=
        ⟨horders, hends.1.symm, hends.2.symm⟩
      exact hclash (Or.inr (Or.inl hsame.symm))
    · rw [Bool.eq_false_iff]
      intro henter
      have hends : earlier.target = ends.target ∧ earlier.targetHandle = ends.targetHandle := by
        simpa [Connection.enters] using henter
      have hsame : graph.SameInput ends earlier.toEndpoints :=
        ⟨henters.trans horders, hends.1.symm, hends.2.symm⟩
      exact hclash (Or.inr (Or.inr hsame.symm))

/-- There are no faulty connections if and only if the rules hold. -/
theorem connectionFaults_eq_nil_iff_regular :
    graph.connectionFaults = [] ↔
      graph.Regular (graph.connections.map Connection.toEndpoints) := by
  rw [connectionFaults_eq_nil_iff, regular_iff, List.pairwise_map]
  simp only [List.forall_mem_map, ← fits_iff_joins]
  apply and_congr_right
  intro hfits
  -- Where every connection fits, the check and the rules agree on each pair.
  apply List.Pairwise.iff_of_mem
  intro earlier later _ hmem
  exact apart_iff_not_clash (hfits later hmem)

/-- A graph is valid if and only if it has one start, an end and regular connections. -/
theorem isValid_iff_rules :
    graph.validate.isValid = true ↔
      graph.nodes.countP (·.kind = .start) = 1 ∧ (∃ node ∈ graph.nodes, node.kind = .finish) ∧
        graph.Regular (graph.connections.map Connection.toEndpoints) := by
  have hstart : (∃ start, graph.nodesOfKind .start = [start]) ↔
      graph.nodes.countP (·.kind = .start) = 1 := by
    rw [List.countP_eq_length_filter, List.length_eq_one_iff]
    rfl
  have hend : graph.nodesOfKind .finish ≠ [] ↔ ∃ node ∈ graph.nodes, node.kind = .finish := by
    simp [nodesOfKind, List.filter_eq_nil_iff]
  rw [isValid_validate_iff, hstart, hend, connectionFaults_eq_nil_iff_regular]

/-- Validation decides the rules of the data model, and so it does not matter to it in which order
the connections stand. -/
theorem validate_decides_rules (graph : Graph) :
    (graph.validate.isValid = true ↔
      graph.nodes.countP (·.kind = .start) = 1 ∧ (∃ node ∈ graph.nodes, node.kind = .finish) ∧
        graph.Regular (graph.connections.map Connection.toEndpoints)) ∧
    ∀ connections : List Connection, connections.Perm graph.connections →
      { graph with connections }.validate.isValid = graph.validate.isValid := by
  refine ⟨isValid_iff_rules, ?_⟩
  intro connections hperm
  -- The nodes are the same on both sides, so only the rules for connections need an argument.
  have hregular : { graph with connections }.Regular (connections.map Connection.toEndpoints) ↔
      graph.Regular (graph.connections.map Connection.toEndpoints) :=
    calc { graph with connections }.Regular (connections.map Connection.toEndpoints)
        ↔ graph.Regular (connections.map Connection.toEndpoints) := regular_of_nodes (by rfl)
      _ ↔ graph.Regular (graph.connections.map Connection.toEndpoints) :=
          regular_perm (hperm.map Connection.toEndpoints)
  rw [Bool.eq_iff_iff, isValid_iff_rules, isValid_iff_rules, hregular]

/-- An array access feeds both indices of a comparison, and the comparison both sides of a
condition.  Outputs of data may be shared in this way. -/
def sharedReads : Graph where
  nodes :=
    [Node.new "begin" .start, Node.new "read" .arrayAccess,
      (Node.new "compare" .arrayCompare).withParameter "operator" (.string ">="),
      Node.new "check" .ifCondition, Node.new "swap" .arraySwap, Node.new "finish" .finish]
  connections :=
    [⟨⟨"begin", execOut, "read", execIn⟩, "1"⟩, ⟨⟨"read", execOut, "compare", execIn⟩, "2"⟩,
      ⟨⟨"compare", execOut, "check", execIn⟩, "3"⟩, ⟨⟨"check", "true", "swap", execIn⟩, "4"⟩,
      ⟨⟨"swap", execOut, "finish", execIn⟩, "5"⟩, ⟨⟨"read", "value", "compare", "i"⟩, "6"⟩,
      ⟨⟨"read", "value", "compare", "j"⟩, "7"⟩, ⟨⟨"compare", "result", "check", "left"⟩, "8"⟩,
      ⟨⟨"compare", "result", "check", "right"⟩, "9"⟩]

/-- The connections of the shared reads may stand in reverse. -/
theorem validate_decides_rules_sharedReads :
    sharedReads.Regular (sharedReads.connections.map Connection.toEndpoints) ∧
      sharedReads.connections.reverse.Perm sharedReads.connections ∧
      { sharedReads with connections := sharedReads.connections.reverse }.validate.isValid =
        true := by
  have hvalid : sharedReads.validate.isValid = true := by decide +kernel
  have hperm := List.reverse_perm sharedReads.connections
  rcases validate_decides_rules sharedReads with ⟨hrules, horder⟩
  exact ⟨(hrules.1 hvalid).2.2, hperm, (horder _ hperm).trans hvalid⟩

end Graph
end FlowTrace
