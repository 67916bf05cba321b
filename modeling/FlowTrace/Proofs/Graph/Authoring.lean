import FlowTrace.Proofs.Graph.Editing
import FlowTrace.Proofs.Graph.NewIds
import FlowTrace.Proofs.Graph.Wiring

/-!
# Graphs made by editing

A graph that has been made from the empty one by editing operations is in order, whichever calls
were made and whichever of them failed: its ids are distinct and none of its connections is faulty.
Connections are checked only when they are added, so the argument is that no later operation spoils
them.  Ids are never given out twice, since each uses up a number.

* `Graph.connectionFaults_of_kinds` — connections stay sound as long as the kinds of the nodes at
  their ends are found unchanged;
* `Graph.connectionFaults_withConnection` — nor does an accepted connection spoil them;
* `Graph.Orderly` — the invariant, with one step lemma `Graph.Orderly.edited`;
* `Graph.counter_of_edited` and `Graph.ids_of_edited` — what a call does to the numbers and the ids;
* `Graph.KeepsCount` — a second invariant, of the counter: it says how many ids were given out;
* `Graph.editAll` — a session of calls, with `Graph.Orderly.editAll` and `Graph.nodup_given` over
  whole sessions.
-/

namespace FlowTrace

def Fault.concernsCount : Fault → Bool
  | noStart | severalStarts _ | noEnd => true
  | danglingConnection _ | invalidConnection _ _ => false

namespace Graph

variable {graph other : Graph}

/-! ## Connections in an edited graph -/

/-- What is asked of a connection depends on the kinds of the nodes at its ends. -/
theorem Fits.of_kinds {ends : Endpoints} (hfits : graph.Fits ends)
    (hsource : (other.node? ends.source).map Node.kind = (graph.node? ends.source).map Node.kind)
    (htarget : (other.node? ends.target).map Node.kind = (graph.node? ends.target).map Node.kind) :
    other.Fits ends := by
  rcases hfits.handles with
    ⟨source, target, output, input, hsourceNode, htargetNode, houtput, hinput, hcompatible⟩
  rw [hsourceNode, Option.map_some, Option.map_eq_some_iff] at hsource
  rw [htargetNode, Option.map_some, Option.map_eq_some_iff] at htarget
  rcases hsource with ⟨newSource, hnewSource, hsourceKind⟩
  rcases htarget with ⟨newTarget, hnewTarget, htargetKind⟩
  refine ⟨hfits.distinct, newSource, newTarget, output, input, hnewSource, hnewTarget, ?_, ?_,
    hcompatible⟩
  · simpa [Node.output?, hsourceKind] using houtput
  · simpa [Node.input?, htargetKind] using hinput

theorem ordersExecution_of_kinds {ends : Endpoints}
    (hsource : (other.node? ends.source).map Node.kind = (graph.node? ends.source).map Node.kind) :
    other.ordersExecution ends = graph.ordersExecution ends := by
  have hview : ∀ found : Option Node, found.any (·.isExecutionOutput ends.sourceHandle) =
      (found.map Node.kind).any fun kind =>
        (kind.template.output? ends.sourceHandle).any (·.kind.isExecution) := by
    intro found
    cases found <;> rfl
  unfold ordersExecution
  rw [hview, hview, hsource]

/-- Connections that were sound stay sound if some of them go, and if at the ends of those that stay
the kinds of the nodes are found unchanged. -/
theorem connectionFaults_of_kinds (hfaults : graph.connectionFaults = [])
    (hsub : other.connections.Sublist graph.connections)
    (hkinds : ∀ connection ∈ other.connections, ∀ id,
      id = connection.source ∨ id = connection.target →
        (other.node? id).map Node.kind = (graph.node? id).map Node.kind) :
    other.connectionFaults = [] := by
  rcases connectionFaults_eq_nil_iff.1 hfaults with ⟨hfits, hpairs⟩
  apply connectionFaults_eq_nil_iff.2
  constructor
  · intro connection hmem
    exact (hfits connection (hsub.subset hmem)).of_kinds
      (hkinds connection hmem _ (Or.inl rfl)) (hkinds connection hmem _ (Or.inr rfl))
  · apply (hpairs.sublist hsub).imp_of_mem
    intro earlier later _ hmem hapart
    have horders := ordersExecution_of_kinds (hkinds later hmem _ (Or.inl rfl))
    refine ⟨hapart.1, ?_⟩
    intro hexec
    exact hapart.2 (horders ▸ hexec)

/-- A connection that is accepted spoils no other. -/
theorem connectionFaults_withConnection (hfaults : graph.connectionFaults = []) {ends : Endpoints}
    (hfree : graph.rejection? ends = none) : (graph.withConnection ends).connectionFaults = [] := by
  rcases connectionFaults_eq_nil_iff.1 hfaults with ⟨hfits, hpairs⟩
  rcases rejectionAmong?_eq_none_iff.1 hfree with ⟨hnew, hroom⟩
  -- The nodes are the same, and the new connection was checked against all that there are.
  apply connectionFaults_eq_nil_iff.2
  constructor
  · intro connection hmem
    rcases List.mem_append.1 hmem with hold | hlast
    · exact (hfits connection hold).of_kinds rfl rfl
    · cases List.mem_singleton.1 hlast
      exact hnew.of_kinds rfl rfl
  · apply List.pairwise_append.2
    refine ⟨hpairs, List.pairwise_singleton _ _, ?_⟩
    intro earlier hearlier later hlater
    cases List.mem_singleton.1 hlater
    exact hroom earlier hearlier

/-! ## Ids in an edited graph -/

theorem ids_withNode (graph : Graph) (kind : NodeKind) (position : Position) :
    (graph.withNode kind position).ids =
      graph.nodes.map Node.id ++ numbered kind.tag (graph.nextNumber kind.tag) ::
        graph.connections.map Connection.id := by
  simp [Graph.ids, Graph.withNode, Node.new]

theorem ids_without (graph : Graph) (id : NodeId) : (graph.without id).ids.Sublist graph.ids := by
  have hnodes := (List.eraseP_sublist (p := fun node : Node => decide (node.id = id))
    (l := graph.nodes)).map Node.id
  have hconnections := (List.filter_sublist
    (p := fun c : Connection => c.source ≠ id && c.target ≠ id)
    (l := graph.connections)).map Connection.id
  exact hnodes.append hconnections

theorem ids_withData (graph : Graph) (id : NodeId) (data : Table Json) :
    (graph.withData id data).ids = graph.ids := by
  have hnodes : (graph.withData id data).nodes.map Node.id = graph.nodes.map Node.id := by
    apply map_modifyFirst
    intro node
    rfl
  unfold Graph.ids
  rw [hnodes]
  rfl

theorem ids_withConnection (graph : Graph) (ends : Endpoints) :
    (graph.withConnection ends).ids =
      graph.ids ++ [numbered "conn" (graph.nextNumber "conn")] := by
  simp [Graph.ids, Graph.withConnection]

theorem ids_withoutConnection (graph : Graph) (id : ConnectionId) :
    (graph.withoutConnection id).ids.Sublist graph.ids := by
  have hconnections := (List.eraseP_sublist
    (p := fun connection : Connection => decide (connection.id = id))
    (l := graph.connections)).map Connection.id
  exact (List.Sublist.refl _).append hconnections

/-- A call brings in no id but the one that it gives out. -/
theorem ids_of_edited {result : Graph × Option String} (hedited : graph.Edited result) :
    ∀ id ∈ result.1.ids, id ∈ graph.ids ∨ result.2 = some id := by
  intro id hmem
  cases hedited with
  | unchanged => exact Or.inl hmem
  | nodeRemoved gone => exact Or.inl ((graph.ids_without gone).subset hmem)
  | nodeUpdated => exact Or.inl (graph.ids_withData .. ▸ hmem)
  | connectionRemoved gone => exact Or.inl ((graph.ids_withoutConnection gone).subset hmem)
  | nodeAdded kind position =>
      rw [ids_withNode, List.mem_append, List.mem_cons] at hmem
      rcases hmem with hnode | rfl | hconnection
      · exact Or.inl (List.mem_append_left _ hnode)
      · exact Or.inr rfl
      · exact Or.inl (List.mem_append_right _ hconnection)
  | connectionAdded =>
      rw [ids_withConnection, List.mem_append, List.mem_singleton] at hmem
      rcases hmem with hold | rfl
      · exact Or.inl hold
      · exact Or.inr rfl

/-! ## The invariant -/

/-- A graph in order: no id is used twice, and no connection is faulty. -/
structure Orderly (graph : Graph) : Prop where
  ids : graph.ids.Nodup
  connections : graph.connectionFaults = []

namespace Orderly

theorem empty : ({} : Graph).Orderly :=
  ⟨List.nodup_nil, rfl⟩

theorem withNode (h : graph.Orderly) (kind : NodeKind) (position : Position) :
    (graph.withNode kind position).Orderly := by
  constructor
  · have hnew := graph.nextNumber_unused kind.tag
    rw [ids_withNode, List.nodup_middle]
    exact List.nodup_cons.2 ⟨hnew, h.ids⟩
  · refine connectionFaults_of_kinds h.connections (List.Sublist.refl _) ?_
    intro connection hmem id hend
    -- The ends of the connections are found in front of the new node.
    rcases Option.isSome_iff_exists.1 (isSome_of_end h.connections hmem hend) with ⟨node, hnode⟩
    rw [hnode, node?_withNode hnode]

theorem without (h : graph.Orderly) (id : NodeId) : (graph.without id).Orderly := by
  constructor
  · exact h.ids.sublist (graph.ids_without id)
  · refine connectionFaults_of_kinds h.connections List.filter_sublist ?_
    intro connection hmem other hend
    -- The connections that are left do not touch the node that is gone.
    have hkept : connection.source ≠ id ∧ connection.target ≠ id := by
      simpa using (List.mem_filter.1 hmem).2
    have hne : other ≠ id := by
      rcases hend with rfl | rfl
      · exact hkept.1
      · exact hkept.2
    rw [node?_without hne]

theorem withData (h : graph.Orderly) (id : NodeId) (data : Table Json) :
    (graph.withData id data).Orderly := by
  constructor
  · rw [ids_withData]
    exact h.ids
  · refine connectionFaults_of_kinds h.connections (List.Sublist.refl _) ?_
    intro connection _ other _
    exact kind_withData graph id data other

theorem withConnection (h : graph.Orderly) {ends : Endpoints}
    (hfree : graph.rejection? ends = none) : (graph.withConnection ends).Orderly := by
  constructor
  · have hnew := graph.nextNumber_unused "conn"
    rw [ids_withConnection, List.nodup_middle]
    exact List.nodup_cons.2 ⟨by simpa using hnew, by simpa using h.ids⟩
  · exact connectionFaults_withConnection h.connections hfree

theorem withoutConnection (h : graph.Orderly) (id : ConnectionId) :
    (graph.withoutConnection id).Orderly := by
  constructor
  · exact h.ids.sublist (graph.ids_withoutConnection id)
  · refine connectionFaults_of_kinds h.connections List.eraseP_sublist ?_
    intro connection _ other _
    rfl

/-- Every call keeps a graph in order. -/
theorem edited (h : graph.Orderly) {result : Graph × Option String}
    (hedited : graph.Edited result) : result.1.Orderly := by
  cases hedited with
  | unchanged => exact h
  | nodeAdded kind position => exact h.withNode kind position
  | nodeRemoved id => exact h.without id
  | nodeUpdated id data => exact h.withData id data
  | connectionAdded hfree => exact h.withConnection hfree
  | connectionRemoved id => exact h.withoutConnection id

end Orderly

/-! ## Numbers -/

/-- No call counts back, and the id that a call gives out bears the number that it counts up to. -/
theorem counter_of_edited {result : Graph × Option String} (hedited : graph.Edited result) :
    graph.counter ≤ result.1.counter ∧
      ∀ id, result.2 = some id →
        graph.counter < result.1.counter ∧ ∃ stem, id = numbered stem result.1.counter := by
  cases hedited with
  | unchanged => exact ⟨Nat.le_refl _, fun _ h => nomatch h⟩
  | nodeRemoved => exact ⟨Nat.le_refl _, fun _ h => nomatch h⟩
  | nodeUpdated => exact ⟨Nat.le_refl _, fun _ h => nomatch h⟩
  | connectionRemoved => exact ⟨Nat.le_refl _, fun _ h => nomatch h⟩
  | nodeAdded kind position =>
      have hlt := graph.counter_lt_nextNumber kind.tag
      refine ⟨Nat.le_of_lt hlt, ?_⟩
      rintro id ⟨⟩
      exact ⟨hlt, kind.tag, rfl⟩
  | connectionAdded =>
      have hlt := graph.counter_lt_nextNumber "conn"
      refine ⟨Nat.le_of_lt hlt, ?_⟩
      rintro id ⟨⟩
      exact ⟨hlt, "conn", rfl⟩

/-- The counter keeps count of the ids in use: each bears a number that it has reached. -/
def KeepsCount (graph : Graph) : Prop :=
  ∀ id ∈ graph.ids, ∃ stem number, id = numbered stem number ∧ number ≤ graph.counter

namespace KeepsCount

theorem empty : ({} : Graph).KeepsCount := by
  intro id hmem
  cases hmem

/-- Where the counter keeps count, the search for a new id ends in its first round. -/
theorem nextNumber (h : graph.KeepsCount) (stem : String) :
    graph.nextNumber stem = graph.counter + 1 := by
  apply nextNumber_of_unused
  intro hmem
  rcases h _ hmem with ⟨other, number, hsame, hle⟩
  have hnumber := numbered_injective hsame
  omega

/-- Every call leaves a counter that keeps count. -/
theorem edited (h : graph.KeepsCount) {result : Graph × Option String}
    (hedited : graph.Edited result) : result.1.KeepsCount := by
  rcases counter_of_edited hedited with ⟨hle, hgiven⟩
  -- An old id bears a number reached before, and a new one the number that the counter has now.
  intro id hmem
  rcases ids_of_edited hedited id hmem with hold | hnew
  · rcases h id hold with ⟨stem, number, rfl, hcounted⟩
    exact ⟨stem, number, rfl, Nat.le_trans hcounted hle⟩
  · rcases hgiven id hnew with ⟨-, stem, rfl⟩
    exact ⟨stem, _, rfl, Nat.le_refl _⟩

/-- A call moves the counter on by one if it gives out an id, and leaves it alone otherwise. -/
theorem counter_edited (h : graph.KeepsCount) {result : Graph × Option String}
    (hedited : graph.Edited result) :
    result.1.counter = graph.counter + result.2.toList.length := by
  cases hedited with
  | unchanged => rfl
  | nodeRemoved => rfl
  | nodeUpdated => rfl
  | connectionRemoved => rfl
  | nodeAdded kind position => exact h.nextNumber kind.tag
  | connectionAdded => exact h.nextNumber "conn"

end KeepsCount

/-! ## Sessions -/

/-- The graph after a session of calls, and the ids that they give out in their order. -/
def editAll (graph : Graph) : List Edit → Graph × List String
  | [] => (graph, [])
  | edit :: later =>
      let result := graph.edit edit
      let rest := result.1.editAll later
      (rest.1, result.2.toList ++ rest.2)

/-- A graph in order stays in order throughout a session. -/
theorem Orderly.editAll (edits : List Edit) :
    ∀ {graph : Graph}, graph.Orderly → (graph.editAll edits).1.Orderly := by
  induction edits with
  | nil =>
      intro graph h
      exact h
  | cons edit later ih =>
      intro graph h
      exact ih (h.edited (graph.edited_edit edit))

/-- The ids of a session bear numbers beyond those used up before it. -/
theorem number_of_given (edits : List Edit) :
    ∀ {graph : Graph}, ∀ id ∈ (graph.editAll edits).2,
      ∃ stem number, id = numbered stem number ∧ graph.counter < number := by
  induction edits with
  | nil =>
      intro graph id hmem
      cases hmem
  | cons edit later ih =>
      intro graph id hmem
      rcases counter_of_edited (graph.edited_edit edit) with ⟨hle, hgiven⟩
      rcases List.mem_append.1 hmem with hfirst | hlater
      · rcases hgiven id (by simpa using hfirst) with ⟨hlt, stem, rfl⟩
        exact ⟨stem, _, rfl, hlt⟩
      · rcases ih id hlater with ⟨stem, number, rfl, hlt⟩
        exact ⟨stem, number, rfl, Nat.lt_of_le_of_lt hle hlt⟩

/-- No id is given out twice in a session. -/
theorem nodup_given (edits : List Edit) :
    ∀ {graph : Graph}, (graph.editAll edits).2.Nodup := by
  induction edits with
  | nil =>
      intro graph
      exact List.nodup_nil
  | cons edit later ih =>
      intro graph
      rcases counter_of_edited (graph.edited_edit edit) with ⟨-, hgiven⟩
      cases hid : (graph.edit edit).2 with
      | none =>
          have hrest : (graph.editAll (edit :: later)).2 =
              ((graph.edit edit).1.editAll later).2 := by
            simp [Graph.editAll, hid]
          rw [hrest]
          exact ih
      | some id =>
          have hcons : (graph.editAll (edit :: later)).2 =
              id :: ((graph.edit edit).1.editAll later).2 := by
            simp [Graph.editAll, hid]
          rw [hcons]
          refine List.nodup_cons.2 ⟨?_, ih⟩
          -- Later ids bear later numbers.
          intro hagain
          rcases hgiven id hid with ⟨-, stem, rfl⟩
          rcases number_of_given later _ hagain with ⟨other, number, hsame, hlt⟩
          have hnumber := numbered_injective hsame
          omega

/-- The counter of a session that keeps count moves on by the number of ids given out. -/
theorem KeepsCount.counter_editAll (edits : List Edit) :
    ∀ {graph : Graph}, graph.KeepsCount →
      (graph.editAll edits).1.counter = graph.counter + (graph.editAll edits).2.length := by
  induction edits with
  | nil =>
      intro graph _
      rfl
  | cons edit later ih =>
      intro graph h
      have hedited := graph.edited_edit edit
      have hfirst := h.counter_edited hedited
      have hrest := ih (h.edited hedited)
      simp only [Graph.editAll, List.length_append]
      omega

/-- A session gives out no more ids than it has calls. -/
theorem length_given_le (edits : List Edit) :
    ∀ {graph : Graph}, (graph.editAll edits).2.length ≤ edits.length := by
  induction edits with
  | nil =>
      intro graph
      exact Nat.le_refl 0
  | cons edit later ih =>
      intro graph
      have hrest := @ih (graph.edit edit).1
      have hfirst : (graph.edit edit).2.toList.length ≤ 1 := by
        cases (graph.edit edit).2 <;> simp
      simp only [Graph.editAll, List.length_append, List.length_cons]
      omega

/-- The faults of a graph in order concern the numbers of its start and end nodes. -/
theorem Orderly.concernsCount (h : graph.Orderly) :
    ∀ fault ∈ graph.validate.faults, fault.concernsCount = true := by
  intro fault hmem
  have hfaults : graph.validate.faults = graph.startFaults ++ graph.endFaults := by
    simp [validate, h.connections]
  rw [hfaults] at hmem
  rcases List.mem_append.1 hmem with hstart | hend
  · unfold startFaults at hstart
    split at hstart
    · cases List.mem_singleton.1 hstart
      rfl
    · cases hstart
    · cases List.mem_singleton.1 hstart
      rfl
  · unfold endFaults at hend
    split at hend
    · cases List.mem_singleton.1 hend
      rfl
    · cases hend

/-- The graph that a session of calls makes from the empty one. -/
def made (edits : List Edit) : Graph :=
  (({} : Graph).editAll edits).1

def given (edits : List Edit) : List String :=
  (({} : Graph).editAll edits).2

/-- Whatever calls are made on the empty graph, the ids of the nodes and connections that it ends up
with are distinct, none of its connections is faulty, and no id has been given out twice.  The
counter says how many have been given out, so it stays within its word of 64 bits in every session
of fewer than `2 ^ 64` calls. -/
theorem made_orderly (edits : List Edit) :
    ((made edits).nodes.map Node.id).Nodup ∧
    ((made edits).connections.map Connection.id).Nodup ∧
    (∀ node ∈ (made edits).nodes, ∀ connection ∈ (made edits).connections,
      node.id ≠ connection.id) ∧
    (made edits).connectionFaults = [] ∧
    (∀ fault ∈ (made edits).validate.faults, fault.concernsCount = true) ∧
    (given edits).Nodup ∧
    (made edits).counter = (given edits).length ∧ (given edits).length ≤ edits.length := by
  have horderly : (made edits).Orderly := Orderly.empty.editAll edits
  rcases List.nodup_append.1 horderly.ids with ⟨hnodes, hconnections, hapart⟩
  have hcounter : (made edits).counter = 0 + (given edits).length :=
    KeepsCount.empty.counter_editAll edits
  refine ⟨hnodes, hconnections, ?_, horderly.connections, horderly.concernsCount,
    nodup_given edits, hcounter.trans (Nat.zero_add _), length_given_le edits⟩
  intro node hnode connection hconnection
  exact hapart node.id (List.mem_map_of_mem hnode) connection.id (List.mem_map_of_mem hconnection)

/-- The number of a removed node is not given out again. -/
example : given [.addNode .start {}, .removeNode "start-1", .addNode .start {}, .addNode .finish {},
    .connect ⟨"start-2", execOut, "end-3", execIn⟩] =
      ["start-1", "start-2", "end-3", "conn-4"] := by
  decide +kernel

end Graph
end FlowTrace
