import FlowTrace.Graph.Validation
import FlowTrace.Proofs.Graph.Lookup
import Mathlib.Data.List.Nodup
import Mathlib.Data.List.Pairwise

/-!
# The wiring of a valid graph

Validation looks at every connection together with those in front of it.  This file says what it
decides, and what that means for execution.

* `Graph.Fits` — a connection is sound by itself;
* `Graph.Apart` — a connection does not stand in the way of another one;
* `Graph.connectionFaults_eq_nil_iff` — a graph has no faulty connection if and only if all of them
  fit and are apart from those in front of them;
* `Graph.Wired` — the facts on which a run relies: execution connections lead to nodes of the graph,
  no two of them lead to one node, and none leads to the start node.
-/

namespace FlowTrace

namespace HandleKind

theorem isExecution_of_compatible {source target : HandleKind} :
    source.compatible target = true → source.isExecution = true → target.isExecution = true := by
  cases source <;> cases target <;> decide

end HandleKind

namespace Node

/-- Execution enters a node by one handle only, and a start node by none. -/
theorem execIn_of_isExecution {node : Node} {handle : String} {input : Handle} :
    node.input? handle = some input → input.kind.isExecution = true →
      handle = execIn ∧ node.kind ≠ .start := by
  intro hinput hexec
  have hname : input.id = handle := by
    simpa using List.find?_some hinput
  have hmem : input ∈ node.kind.inputs := List.mem_of_find?_eq_some hinput
  -- The catalog is finite, so its tables are looked through kind by kind.
  have hall : ∀ kind : NodeKind, ∀ other ∈ kind.inputs,
      other.kind.isExecution = true → other.id = execIn ∧ kind ≠ .start := by
    intro kind
    cases kind <;> decide
  rw [← hname]
  exact hall node.kind input hmem hexec

end Node

namespace Graph

/-! ## What is asked of a connection -/

/-- A connection that is sound by itself: it joins an output to an input of a compatible kind on
another node. -/
structure Fits (graph : Graph) (ends : Endpoints) : Prop where
  distinct : ends.source ≠ ends.target
  handles : ∃ source target output input,
    graph.node? ends.source = some source ∧ graph.node? ends.target = some target ∧
      source.output? ends.sourceHandle = some output ∧
      target.input? ends.targetHandle = some input ∧ output.kind.compatible input.kind = true

def ordersExecution (graph : Graph) (ends : Endpoints) : Bool :=
  (graph.node? ends.source).any (·.isExecutionOutput ends.sourceHandle)

/-- A connection in front that leaves another one room: it is not the same, and if the other orders
execution, it takes neither of its handles. -/
def Apart (graph : Graph) (earlier : Connection) (ends : Endpoints) : Prop :=
  earlier.toEndpoints ≠ ends ∧
    (graph.ordersExecution ends = true →
      earlier.leaves ends.source ends.sourceHandle = false ∧
        earlier.enters ends.target ends.targetHandle = false)

theorem handleRejection?_eq_none_iff {existing : List Connection} {ends : Endpoints}
    {output input : Handle} :
    handleRejection? existing ends output input = none ↔
      output.kind.compatible input.kind = true ∧
        (output.kind.isExecution = true → ∀ earlier ∈ existing,
          earlier.leaves ends.source ends.sourceHandle = false ∧
            earlier.enters ends.target ends.targetHandle = false) := by
  -- Both handles are free if and only if neither search among the earlier connections hits.
  have hfree : (∀ earlier ∈ existing, earlier.leaves ends.source ends.sourceHandle = false ∧
        earlier.enters ends.target ends.targetHandle = false) ↔
      existing.any (·.leaves ends.source ends.sourceHandle) = false ∧
        existing.any (·.enters ends.target ends.targetHandle) = false := by
    simp only [List.any_eq_false, Bool.not_eq_true]
    exact forall₂_and
  unfold handleRejection?
  rw [hfree]
  cases output.kind.compatible input.kind with
  | false =>
      simp
  | true =>
      cases output.kind.isExecution with
      | false =>
          simp
      | true =>
          cases existing.any (·.leaves ends.source ends.sourceHandle) <;>
            cases existing.any (·.enters ends.target ends.targetHandle) <;> simp

/-- Where both nodes and both handles are known, fitting is a matter of their kinds. -/
theorem fits_iff {graph : Graph} {ends : Endpoints} {source target : Node} {output input : Handle}
    (hsource : graph.node? ends.source = some source)
    (htarget : graph.node? ends.target = some target)
    (houtput : source.output? ends.sourceHandle = some output)
    (hinput : target.input? ends.targetHandle = some input) :
    graph.Fits ends ↔
      ends.source ≠ ends.target ∧ output.kind.compatible input.kind = true := by
  constructor
  · rintro ⟨hdistinct, _, _, _, _, hs, ht, ho, hi, hcompatible⟩
    cases hsource.symm.trans hs
    cases htarget.symm.trans ht
    cases houtput.symm.trans ho
    cases hinput.symm.trans hi
    exact ⟨hdistinct, hcompatible⟩
  · rintro ⟨hdistinct, hcompatible⟩
    exact ⟨hdistinct, source, target, output, input, hsource, htarget, houtput, hinput, hcompatible⟩

/-- A connection is allowed if and only if it fits and every one in front leaves it room. -/
theorem rejectionAmong?_eq_none_iff {graph : Graph} {existing : List Connection}
    {ends : Endpoints} :
    graph.rejectionAmong? existing ends = none ↔
      graph.Fits ends ∧ ∀ earlier ∈ existing, graph.Apart earlier ends := by
  unfold rejectionAmong?
  by_cases hself : ends.source = ends.target
  · simp only [hself, if_true]
    constructor
    · intro h
      cases h
    · intro h
      exact absurd hself h.1.distinct
  · by_cases hsame : existing.any (·.toEndpoints = ends) = true
    · rcases List.any_eq_true.1 hsame with ⟨earlier, hmem, heq⟩
      simp only [hself, hsame, if_true, if_false]
      constructor
      · intro h
        cases h
      · intro h
        exact absurd (of_decide_eq_true heq) (h.2 earlier hmem).1
    · have hdistinct : ∀ earlier ∈ existing, earlier.toEndpoints ≠ ends := by
        intro earlier hmem heq
        exact hsame (List.any_eq_true.2 ⟨earlier, hmem, decide_eq_true heq⟩)
      simp only [hself, hsame, Bool.false_eq_true, if_false]
      -- From here on the objections are those of the two ends, in the order of the check.
      cases hsource : graph.node? ends.source with
      | none =>
          simp only [reduceCtorEq, false_iff]
          rintro ⟨⟨-, source, target, output, input, hfound, -⟩, -⟩
          cases hsource.symm.trans hfound
      | some source =>
          cases htarget : graph.node? ends.target with
          | none =>
              simp only [reduceCtorEq, false_iff]
              rintro ⟨⟨-, _, target, output, input, -, hfound, -⟩, -⟩
              cases htarget.symm.trans hfound
          | some target =>
              cases houtput : source.output? ends.sourceHandle with
              | none =>
                  simp only [houtput, reduceCtorEq, false_iff]
                  rintro ⟨⟨-, _, _, output, input, hfound, -, hhandle, -⟩, -⟩
                  cases hsource.symm.trans hfound
                  cases houtput.symm.trans hhandle
              | some output =>
                  cases hinput : target.input? ends.targetHandle with
                  | none =>
                      simp only [houtput, hinput, reduceCtorEq, false_iff]
                      rintro ⟨⟨-, _, _, _, input, -, hfound, -, hhandle, -⟩, -⟩
                      cases htarget.symm.trans hfound
                      cases hinput.symm.trans hhandle
                  | some input =>
                      have hexec : graph.ordersExecution ends = output.kind.isExecution := by
                        simp [ordersExecution, hsource, Node.isExecutionOutput, houtput]
                      have hfits := fits_iff hsource htarget houtput hinput
                      simp only [houtput, hinput, handleRejection?_eq_none_iff, hfits, ← hexec]
                      constructor
                      · rintro ⟨hcompatible, hfree⟩
                        refine ⟨⟨hself, hcompatible⟩, ?_⟩
                        intro earlier hmem
                        exact ⟨hdistinct earlier hmem, fun horders => hfree horders earlier hmem⟩
                      · rintro ⟨⟨-, hcompatible⟩, hapart⟩
                        refine ⟨hcompatible, ?_⟩
                        intro horders earlier hmem
                        exact (hapart earlier hmem).2 horders

/-- A connection has no fault if and only if it fits and those in front leave it room. -/
theorem connectionFault?_eq_none_iff {graph : Graph} {existing : List Connection}
    {connection : Connection} :
    graph.connectionFault? existing connection = none ↔
      graph.Fits connection.toEndpoints ∧
        ∀ earlier ∈ existing, graph.Apart earlier connection.toEndpoints := by
  unfold connectionFault?
  by_cases hfound : ((graph.node? connection.source).isSome &&
      (graph.node? connection.target).isSome) = true
  · simpa [hfound] using rejectionAmong?_eq_none_iff
  · simp only [hfound, Bool.false_eq_true, if_false, reduceCtorEq, false_iff]
    rintro ⟨⟨-, _, _, _, _, hsource, htarget, -⟩, -⟩
    exact hfound (by simp [hsource, htarget])

/-- A list of connections has no faults if and only if each fits and leaves room for all behind it.
-/
theorem connectionFaultsAfter_eq_nil_iff {graph : Graph} {later : List Connection} :
    ∀ {earlier : List Connection},
      graph.connectionFaultsAfter earlier later = [] ↔
        (∀ connection ∈ later, graph.Fits connection.toEndpoints) ∧
          later.Pairwise (fun a b => graph.Apart a b.toEndpoints) ∧
          ∀ a ∈ earlier, ∀ b ∈ later, graph.Apart a b.toEndpoints := by
  induction later with
  | nil =>
      intro earlier
      simp [connectionFaultsAfter]
  | cons connection later ih =>
      intro earlier
      -- The connection is checked against those in front and then joins them for the rest.
      have hhead : (graph.connectionFault? earlier connection).toList = [] ↔
          graph.connectionFault? earlier connection = none := by
        cases graph.connectionFault? earlier connection <;> simp
      have hsplit : graph.connectionFaultsAfter earlier (connection :: later) = [] ↔
          graph.connectionFault? earlier connection = none ∧
            graph.connectionFaultsAfter (connection :: earlier) later = [] := by
        rw [← hhead]
        exact List.append_eq_nil_iff
      rw [hsplit, connectionFault?_eq_none_iff, ih]
      simp only [List.forall_mem_cons, List.pairwise_cons]
      constructor
      · rintro ⟨⟨hfits, hroom⟩, hrest, hpairs, hnew, hold⟩
        refine ⟨⟨hfits, hrest⟩, ⟨hnew, hpairs⟩, ?_⟩
        intro a ha
        exact ⟨hroom a ha, hold a ha⟩
      · rintro ⟨⟨hfits, hrest⟩, ⟨hnew, hpairs⟩, hold⟩
        exact ⟨⟨hfits, fun a ha => (hold a ha).1⟩, hrest, hpairs, hnew, fun a ha => (hold a ha).2⟩

/-- No connection of a graph is faulty if and only if all fit and each is apart from those in front
of it. -/
theorem connectionFaults_eq_nil_iff {graph : Graph} :
    graph.connectionFaults = [] ↔
      (∀ connection ∈ graph.connections, graph.Fits connection.toEndpoints) ∧
        graph.connections.Pairwise (fun a b => graph.Apart a b.toEndpoints) := by
  have h := @connectionFaultsAfter_eq_nil_iff graph graph.connections []
  simpa [connectionFaults] using h

theorem startFaults_eq_nil_iff {graph : Graph} :
    graph.startFaults = [] ↔ ∃ start, graph.nodesOfKind .start = [start] := by
  unfold startFaults
  cases graph.nodesOfKind .start with
  | nil =>
      simp
  | cons start others =>
      cases others <;> simp

/-- A graph is valid if and only if it has one start node, an end node and no faulty connection. -/
theorem isValid_validate_iff {graph : Graph} :
    graph.validate.isValid = true ↔
      (∃ start, graph.nodesOfKind .start = [start]) ∧ graph.nodesOfKind .finish ≠ [] ∧
        graph.connectionFaults = [] := by
  have hend : graph.endFaults = [] ↔ graph.nodesOfKind .finish ≠ [] := by
    unfold endFaults
    cases graph.nodesOfKind .finish <;> simp
  simp only [Report.isValid, validate, List.isEmpty_iff, List.append_eq_nil_iff,
    startFaults_eq_nil_iff, hend, and_assoc]

/-! ## What a run relies on -/

/-- The execution connections of a graph are wired like a tree around its start node. -/
structure Wired (graph : Graph) (start : Node) : Prop where
  starts : graph.nodesOfKind .start = [start]
  start_found : graph.node? start.id = some start
  target_found : ∀ {id next : NodeId} {handle : String},
    graph.index.next? id handle = some next → (graph.node? next).isSome = true
  source_unique : ∀ {id other next : NodeId} {handle name : String},
    graph.index.next? id handle = some next → graph.index.next? other name = some next →
      id = other ∧ handle = name
  start_first : ∀ {id : NodeId} {handle : String}, graph.index.next? id handle ≠ some start.id

/-- An execution connection enters its target by the one execution input. -/
theorem Fits.enters_execIn {graph : Graph} {ends : Endpoints} (hfits : graph.Fits ends) :
    graph.ordersExecution ends = true →
      ∃ target, graph.node? ends.target = some target ∧ ends.targetHandle = execIn ∧
        target.kind ≠ .start := by
  intro horders
  rcases hfits.handles with ⟨source, target, output, input, hsource, htarget, houtput, hinput,
    hcompatible⟩
  have hexec : output.kind.isExecution = true := by
    simpa [ordersExecution, hsource, Node.isExecutionOutput, houtput] using horders
  have hentry : ends.targetHandle = execIn ∧ target.kind ≠ .start :=
    Node.execIn_of_isExecution hinput (HandleKind.isExecution_of_compatible hcompatible hexec)
  exact ⟨target, htarget, hentry.1, hentry.2⟩

/-- Two connections order execution and lead to one input. -/
def SharedEntry (graph : Graph) (a b : Connection) : Prop :=
  graph.ordersExecution a.toEndpoints = true ∧ graph.ordersExecution b.toEndpoints = true ∧
    a.target = b.target ∧ a.targetHandle = b.targetHandle

/-- Two execution connections with one target are the same. -/
theorem eq_of_target_eq {graph : Graph} (hfaults : graph.connectionFaults = []) {a b : Connection}
    (ha : a ∈ graph.connections) (hb : b ∈ graph.connections)
    (haorders : graph.ordersExecution a.toEndpoints = true)
    (hborders : graph.ordersExecution b.toEndpoints = true) : a.target = b.target → a = b := by
  intro htarget
  rcases connectionFaults_eq_nil_iff.1 hfaults with ⟨hfits, hpairs⟩
  rcases (hfits a ha).enters_execIn haorders with ⟨-, -, haentry, -⟩
  rcases (hfits b hb).enters_execIn hborders with ⟨-, -, hbentry, -⟩
  -- Of two different connections the later one would find its input taken by the earlier one.
  have hclash : graph.connections.Pairwise fun c d => ¬ graph.SharedEntry c d := by
    refine hpairs.imp ?_
    rintro c d ⟨-, hroom⟩ ⟨-, hdorders, hsame, hhandle⟩
    have htaken := (hroom hdorders).2
    simp [Connection.enters, hsame, hhandle] at htaken
  -- The clash does not depend on which of the two comes first in the list.
  have : Std.Symm fun c d : Connection => ¬ graph.SharedEntry c d := by
    constructor
    rintro c d h ⟨hd, hc, hsame, hhandle⟩
    exact h ⟨hc, hd, hsame.symm, hhandle.symm⟩
  by_contra hne
  exact hclash.forall ha hb hne ⟨haorders, hborders, htarget, haentry.trans hbentry.symm⟩

/-- A node of a graph without repeated ids is found under its id. -/
theorem node?_of_mem {graph : Graph} (hids : (graph.nodes.map Node.id).Nodup) {node : Node} :
    node ∈ graph.nodes → graph.node? node.id = some node := by
  intro hmem
  rcases Option.isSome_iff_exists.1 (isSome_node?_of_mem hmem) with ⟨found, hfound⟩
  have hsame : found = node :=
    List.inj_on_of_nodup_map hids (mem_of_node? hfound) hmem (node?_id hfound)
  rw [hfound, hsame]

/-- Every move along an output follows a connection that orders execution. -/
theorem exists_ordering_of_next? {graph : Graph} {id next : NodeId} {handle : String}
    (hnext : graph.index.next? id handle = some next) :
    ∃ connection ∈ graph.connections, connection.source = id ∧
      connection.sourceHandle = handle ∧ connection.target = next ∧
      graph.ordersExecution connection.toEndpoints = true := by
  rcases exists_connection_of_next? hnext with
    ⟨connection, hconnection, node, rfl, rfl, htarget, hnode, hexec⟩
  exact ⟨connection, hconnection, rfl, rfl, htarget, by simp [ordersExecution, hnode, hexec]⟩

/-- The ends of the connections of a graph without faulty ones are nodes of the graph. -/
theorem isSome_of_end {graph : Graph} (hfaults : graph.connectionFaults = [])
    {connection : Connection} (hmem : connection ∈ graph.connections) {id : NodeId}
    (hend : id = connection.source ∨ id = connection.target) :
    (graph.node? id).isSome = true := by
  have hfits := (connectionFaults_eq_nil_iff.1 hfaults).1 connection hmem
  rcases hfits.handles with ⟨source, target, -, -, hsource, htarget, -⟩
  rcases hend with rfl | rfl
  · simp [hsource]
  · simp [htarget]

/-- A valid graph without repeated ids is wired like a tree. -/
theorem exists_wired {graph : Graph} (hids : (graph.nodes.map Node.id).Nodup)
    (hvalid : graph.validate.isValid = true) : ∃ start, graph.Wired start := by
  rcases isValid_validate_iff.1 hvalid with ⟨⟨start, hstart⟩, -, hfaults⟩
  have hfits := (connectionFaults_eq_nil_iff.1 hfaults).1
  have hmem : start ∈ graph.nodes ∧ start.kind = .start := by
    have hin : start ∈ graph.nodesOfKind .start := by simp [hstart]
    simpa [nodesOfKind] using hin
  have hfound := node?_of_mem hids hmem.1
  refine ⟨start, hstart, hfound, ?_, ?_, ?_⟩
  · intro id next handle hnext
    rcases exists_ordering_of_next? hnext with ⟨connection, hconnection, -, -, rfl, -⟩
    exact isSome_of_end hfaults hconnection (Or.inr rfl)
  · intro id other next handle name hnext hother
    rcases exists_ordering_of_next? hnext with ⟨a, ha, rfl, rfl, hatarget, haorders⟩
    rcases exists_ordering_of_next? hother with ⟨b, hb, rfl, rfl, hbtarget, hborders⟩
    have hsame : a = b :=
      eq_of_target_eq hfaults ha hb haorders hborders (hatarget.trans hbtarget.symm)
    subst hsame
    exact ⟨rfl, rfl⟩
  · intro id handle hnext
    rcases exists_ordering_of_next? hnext with ⟨connection, hconnection, -, -, htarget, horders⟩
    rcases (hfits connection hconnection).enters_execIn horders with ⟨target, hnode, -, hkind⟩
    rw [htarget, hfound] at hnode
    cases hnode
    exact hkind hmem.2

end Graph
end FlowTrace
