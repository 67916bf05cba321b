import FlowTrace.Proofs.Graph.Editing
import FlowTrace.Proofs.Graph.Rules

/-!
# Building a graph connection by connection

There are two ways to check connections: a stored graph is checked as a whole, and an editor checks
each connection when it is added.  Both decide the same rules, so a graph is free of faulty
connections if and only if it can be built up again from its nodes, in one order or in any other.

* `Graph.addAll` — connections added one after another, each of them checked on its own;
* `Graph.regular_concat_iff` — what the rules ask of one more connection;
* `Graph.addConnection_accepts_iff` — one call is accepted if and only if the rules go on to hold;
* `Graph.addAll_accepts_iff` — so is a whole series of calls.
-/

namespace FlowTrace

namespace Graph

variable {graph : Graph} {ends : Endpoints} {list : List Endpoints}

/-- Adds connections one after another, up to the first objection. -/
def addAll (graph : Graph) : List Endpoints → Except Rejection Graph
  | [] => .ok graph
  | ends :: later =>
      match graph.addConnection ends with
      | .ok (larger, _) => larger.addAll later
      | .error reason => .error reason

/-- The nodes of a graph without any connection; ids are numbered from a given number on. -/
def unconnected (graph : Graph) (counter : Nat) : Graph where
  nodes := graph.nodes
  counter

/-! ## One more connection -/

theorem regular_nil : graph.Regular [] := by
  apply regular_iff.2
  simp

/-- A connection at the end is regular if it fits and clashes with none in front. -/
theorem regular_concat_iff :
    graph.Regular (list ++ [ends]) ↔
      graph.Regular list ∧ graph.Fits ends ∧ ∀ earlier ∈ list, ¬ graph.Clash earlier ends := by
  rw [regular_iff, regular_iff, fits_iff_joins, List.pairwise_append]
  constructor
  · rintro ⟨hjoins, hpairs, -, hcross⟩
    refine ⟨⟨?_, hpairs⟩, hjoins ends (by simp), ?_⟩
    · intro other hmem
      exact hjoins other (List.mem_append_left _ hmem)
    · intro earlier hmem
      exact hcross earlier hmem ends (List.mem_singleton_self ends)
  · rintro ⟨⟨hjoins, hpairs⟩, hnew, hcross⟩
    refine ⟨?_, hpairs, List.pairwise_singleton _ _, ?_⟩
    · intro other hmem
      rcases List.mem_append.1 hmem with hold | hlast
      · exact hjoins other hold
      · cases List.mem_singleton.1 hlast
        exact hnew
    · intro earlier hmem later hlater
      cases List.mem_singleton.1 hlater
      exact hcross earlier hmem

theorem Regular.of_append {later : List Endpoints} (h : graph.Regular (list ++ later)) :
    graph.Regular list := by
  rcases regular_iff.1 h with ⟨hjoins, hpairs⟩
  apply regular_iff.2
  refine ⟨?_, (List.pairwise_append.1 hpairs).1⟩
  intro ends hmem
  exact hjoins ends (List.mem_append_left _ hmem)

/-! ## Calls -/

/-- In a graph that keeps the rules, the editor accepts a connection if and only if the rules hold
with it. -/
theorem addConnection_accepts_iff
    (hregular : graph.Regular (graph.connections.map Connection.toEndpoints)) :
    graph.rejection? ends = none ↔
      graph.Regular (graph.connections.map Connection.toEndpoints ++ [ends]) := by
  rw [rejection?, rejectionAmong?_eq_none_iff, regular_concat_iff, List.forall_mem_map]
  rw [and_iff_right hregular]
  apply and_congr_right
  intro hfits
  apply forall₂_congr
  intro earlier _
  exact apart_iff_not_clash hfits

theorem ends_withConnection (graph : Graph) (ends : Endpoints) :
    (graph.withConnection ends).connections.map Connection.toEndpoints =
      graph.connections.map Connection.toEndpoints ++ [ends] := by
  simp [withConnection]

/-- A series of calls that is accepted adds its connections in their order, and nothing else. -/
theorem ends_of_addAll (list : List Endpoints) :
    ∀ {graph built : Graph}, graph.addAll list = .ok built →
      built.nodes = graph.nodes ∧
        built.connections.map Connection.toEndpoints =
          graph.connections.map Connection.toEndpoints ++ list := by
  induction list with
  | nil =>
      intro graph built h
      cases h
      simp
  | cons ends later ih =>
      intro graph built h
      cases hfree : graph.rejection? ends with
      | some reason =>
          simp [addAll, addConnection_of_rejected hfree] at h
      | none =>
          rw [addAll, addConnection_of_free hfree] at h
          rcases ih h with ⟨hnodes, hends⟩
          refine ⟨hnodes, ?_⟩
          rw [hends, ends_withConnection, List.append_assoc, List.singleton_append]

/-- From a graph that keeps the rules, a series of calls is accepted throughout if and only if the
rules hold with all of its connections. -/
theorem addAll_accepts_iff (list : List Endpoints) :
    ∀ {graph : Graph}, graph.Regular (graph.connections.map Connection.toEndpoints) →
      ((∃ built, graph.addAll list = .ok built) ↔
        graph.Regular (graph.connections.map Connection.toEndpoints ++ list)) := by
  induction list with
  | nil =>
      intro graph hregular
      simpa [addAll] using hregular
  | cons ends later ih =>
      intro graph hregular
      have happend : graph.connections.map Connection.toEndpoints ++ ends :: later =
          graph.connections.map Connection.toEndpoints ++ [ends] ++ later := by
        simp
      rw [happend]
      have hstep : graph.rejection? ends = none ↔ _ := addConnection_accepts_iff hregular
      cases hfree : graph.rejection? ends with
      | some reason =>
          -- The first call is refused, and the rules already fail with its connection.
          simp only [addAll, addConnection_of_rejected hfree, reduceCtorEq, exists_false, false_iff]
          intro hall
          cases hfree.symm.trans (hstep.2 hall.of_append)
      | none =>
          -- The first call leaves a graph with the same nodes, from which the others go on.
          have hlarger : (graph.withConnection ends).Regular
              ((graph.withConnection ends).connections.map Connection.toEndpoints) := by
            rw [ends_withConnection]
            exact (regular_of_nodes (by rfl)).2 (hstep.1 hfree)
          have hrest := ih hlarger
          rw [ends_withConnection] at hrest
          simp only [addAll, addConnection_of_free hfree]
          rw [hrest]
          exact regular_of_nodes (by rfl)

/-- The connections that can be added one after another are the regular ones. -/
theorem addAll_unconnected_iff (graph : Graph) (counter : Nat) (list : List Endpoints) :
    (∃ built, (graph.unconnected counter).addAll list = .ok built) ↔ graph.Regular list := by
  rw [addAll_accepts_iff list regular_nil]
  -- The rules ask about nodes, and those are the ones of the graph.
  exact regular_of_nodes (by rfl)

/-! ## Building a graph up again -/

/-- A graph is free of faulty connections if and only if its connections, added to its nodes one at
a time and in their order, are all accepted.  In that case they are accepted in every other order
too, and each order makes a graph with these nodes and these connections. -/
theorem connectionFaults_iff_rebuilds (graph : Graph) (counter : Nat) :
    (graph.connectionFaults = [] ↔
      ∃ built, (graph.unconnected counter).addAll
        (graph.connections.map Connection.toEndpoints) = .ok built) ∧
    (graph.connectionFaults = [] →
      ∀ order : List Endpoints, order.Perm (graph.connections.map Connection.toEndpoints) →
        ∃ built, (graph.unconnected counter).addAll order = .ok built ∧
          built.nodes = graph.nodes ∧
          built.connections.map Connection.toEndpoints = order) := by
  constructor
  · rw [addAll_unconnected_iff, connectionFaults_eq_nil_iff_regular]
  · intro hfaults order hperm
    have hregular := (regular_perm hperm).2 (connectionFaults_eq_nil_iff_regular.1 hfaults)
    rcases (addAll_unconnected_iff graph counter order).2 hregular with ⟨built, hbuilt⟩
    exact ⟨built, hbuilt, ends_of_addAll order hbuilt⟩

/-- The shared reads can be connected from the last to the first. -/
theorem connectionFaults_iff_rebuilds_sharedReads :
    sharedReads.connectionFaults = [] ∧
      ∃ built, (sharedReads.unconnected 0).addAll
          (sharedReads.connections.map Connection.toEndpoints).reverse = .ok built ∧
        built.nodes = sharedReads.nodes ∧
        built.connections.map Connection.toEndpoints =
          (sharedReads.connections.map Connection.toEndpoints).reverse := by
  have hfaults : sharedReads.connectionFaults = [] := by decide +kernel
  exact ⟨hfaults, (connectionFaults_iff_rebuilds sharedReads 0).2 hfaults _
    (List.reverse_perm _)⟩

end Graph
end FlowTrace
