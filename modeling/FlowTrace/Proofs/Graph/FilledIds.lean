import FlowTrace.Proofs.Graph.Editing
import FlowTrace.Proofs.Graph.NewIds
import FlowTrace.Proofs.Graph.Reimport

/-!
# Ids filled in at import

The connections of an export may come with or without an id, and one without is named after its
place.  Nothing keeps such a name apart from the ids that other connections come with.  This file
says when the ids of an imported graph are distinct, and that a connection can be removed by its id
exactly as long as they are.

* `Graph.RemovesOnly` — removing a connection by its id takes that connection and no other;
* `Graph.forall_removesOnly_iff` — every connection can be removed alone if and only if the ids are
  distinct;
* `EditorGraph.FillsClear` — no id filled in is one that a connection came with;
* `EditorGraph.nodup_filled_iff` — distinct ids stay distinct at import if and only if this holds.
-/

namespace FlowTrace

namespace Graph

variable {graph : Graph} {connection : Connection}

/-! ## Removing one connection -/

/-- Removing a connection by its id gives the connection, and leaves the graph without it and with
all else as it was. -/
def RemovesOnly (graph : Graph) (connection : Connection) : Prop :=
  graph.removeConnection connection.id =
    .ok ({ graph with connections := graph.connections.filter (· ≠ connection) }, connection)

/-- Removing a connection by its id takes just that one away: the id leads to it, and all others are
left. -/
theorem removesOnly_iff :
    graph.RemovesOnly connection ↔ graph.connection? connection.id = some connection ∧
      graph.connections.eraseP (·.id = connection.id) =
        graph.connections.filter (· ≠ connection) := by
  unfold RemovesOnly
  cases hfound : graph.connection? connection.id with
  | none => simp [removeConnection, hfound]
  | some found =>
      rw [removeConnection_of_connection? hfound]
      simp [withoutConnection, and_comm]

/-- Under distinct ids the first connection with an id is the only one. -/
theorem eraseP_eq_filter {connections : List Connection}
    (hids : (connections.map Connection.id).Nodup) (hmem : connection ∈ connections) :
    connections.eraseP (·.id = connection.id) = connections.filter (· ≠ connection) := by
  induction connections with
  | nil => rfl
  | cons first rest ih =>
      obtain ⟨hfresh, hrest⟩ := List.nodup_cons.1 hids
      rcases List.mem_cons.1 hmem with rfl | hlater
      · -- Nothing behind it is the connection itself.
        have hkept : (connection :: rest).filter (· ≠ connection) = rest := by
          rw [List.filter_cons_of_neg (by simp)]
          apply List.filter_eq_self.2
          intro other hother
          have hne : other ≠ connection := by
            rintro rfl
            exact hfresh (List.mem_map_of_mem hother)
          simpa using hne
        rw [hkept, List.eraseP_cons_of_pos (by simp)]
      · have hid : first.id ≠ connection.id := by
          intro hsame
          exact hfresh (hsame ▸ List.mem_map_of_mem hlater)
        have hne : first ≠ connection := fun hsame => hid (congrArg Connection.id hsame)
        simp [hid, hne, ih hrest hlater]

theorem connection?_of_mem (hids : (graph.connections.map Connection.id).Nodup)
    (hmem : connection ∈ graph.connections) :
    graph.connection? connection.id = some connection := by
  have hsome : (graph.connection? connection.id).isSome = true := by
    simpa [connection?] using ⟨connection, hmem, rfl⟩
  rcases Option.isSome_iff_exists.1 hsome with ⟨found, hfound⟩
  have hid : found.id = connection.id := by simpa using List.find?_some hfound
  have hsame : found = connection :=
    List.inj_on_of_nodup_map hids (List.mem_of_find?_eq_some hfound) hmem hid
  rw [hfound, hsame]

/-- A connection that can be removed alone occurs once. -/
theorem RemovesOnly.count (h : graph.RemovesOnly connection)
    (hmem : connection ∈ graph.connections) : graph.connections.count connection = 1 := by
  have herased := congrArg List.length (removesOnly_iff.1 h).2
  rw [List.length_eraseP_of_mem hmem (by simp)] at herased
  have hsplit := graph.connections.length_eq_countP_add_countP (· == connection)
  have hrest : graph.connections.countP (fun other => ¬ (other == connection) = true) =
      (graph.connections.filter (· ≠ connection)).length := by
    rw [← List.countP_eq_length_filter]
    apply List.countP_congr
    simp
  have hpos := List.length_pos_of_mem hmem
  unfold List.count
  omega

/-- Every connection can be removed alone if and only if no two have the same id. -/
theorem forall_removesOnly_iff :
    (∀ connection ∈ graph.connections, graph.RemovesOnly connection) ↔
      (graph.connections.map Connection.id).Nodup := by
  constructor
  · intro h
    have hnodup : graph.connections.Nodup :=
      List.nodup_iff_count_eq_one.2 fun connection hmem => (h connection hmem).count hmem
    refine hnodup.map_on ?_
    -- Two connections with one id would be found in the same place.
    intro first hfirst second hsecond hid
    have hfound := (removesOnly_iff.1 (h first hfirst)).1
    rw [hid, (removesOnly_iff.1 (h second hsecond)).1] at hfound
    exact (Option.some.inj hfound).symm
  · intro hids connection hmem
    exact removesOnly_iff.2 ⟨connection?_of_mem hids hmem, eraseP_eq_filter hids hmem⟩

end Graph

/-! ## Ids of imported connections -/

theorem EditorConnection.id_toConnection (place : Nat) (connection : EditorConnection) :
    (connection.toConnection place).id = connection.id.getD (Graph.numbered "conn" place) := by
  rfl

namespace EditorGraph

variable {given : EditorGraph} {graph : Graph}

def givenIds (given : EditorGraph) : List ConnectionId :=
  given.connections.filterMap EditorConnection.id

/-- No connection without an id has a place whose name another connection came with.  Places are
counted from one. -/
def FillsClear (given : EditorGraph) : Prop :=
  ∀ entry ∈ given.connections.zipIdx 1, entry.1.id = none →
    Graph.numbered "conn" entry.2 ∉ given.givenIds

/-- The ids of an imported graph, each given or named after its place. -/
theorem ids_of_toGraph (hgraph : given.toGraph = .ok graph) :
    graph.connections.map Connection.id =
      given.connections.mapIdx fun i c => c.id.getD (Graph.numbered "conn" (i + 1)) := by
  rcases toGraph_eq_ok_iff.1 hgraph with ⟨nodes, -, -, rfl⟩
  apply List.ext_getElem?
  intro i
  simp [Function.comp_def, EditorConnection.id_toConnection]

/-- Two connections that came with ids have different ones. -/
theorem ne_of_given (hgiven : given.givenIds.Nodup) {i j : Nat} {first second : EditorConnection}
    (hlt : i < j) (hfirst : given.connections[i]? = some first)
    (hsecond : given.connections[j]? = some second) {id : ConnectionId}
    (hid : first.id = some id) : second.id ≠ some id := by
  intro hsame
  have hpairs := List.pairwise_filterMap.1 hgiven
  obtain ⟨hi, rfl⟩ := List.getElem?_eq_some_iff.1 hfirst
  obtain ⟨hj, rfl⟩ := List.getElem?_eq_some_iff.1 hsecond
  exact List.pairwise_iff_getElem.1 hpairs i j hi hj hlt id hid id hsame rfl

/-- Distinct ids stay distinct when the missing ones are filled in if and only if no name filled in
is given elsewhere. -/
theorem nodup_filled_iff (hgiven : given.givenIds.Nodup) :
    (given.connections.mapIdx fun i c => c.id.getD (Graph.numbered "conn" (i + 1))).Nodup ↔
      given.FillsClear := by
  constructor
  · rintro hnodup ⟨connection, place⟩ hentry hnone hmem
    have hfree : connection.id = none := hnone
    rcases List.mem_filterMap.1 hmem with ⟨other, hother, hid⟩
    rcases List.mem_iff_getElem?.1 hother with ⟨j, hj⟩
    obtain ⟨i, hplace, hi⟩ : ∃ i, place = i + 1 ∧ given.connections[i]? = some connection := by
      have hfound := List.mem_zipIdx_iff_le_and_getElem?_sub.1 hentry
      exact ⟨place - 1, by omega, hfound.2⟩
    have hlength : i < given.connections.length := (List.getElem?_eq_some_iff.1 hi).1
    -- The name of the place stands in both places, so they are the same.
    have hsame : i = j := by
      apply (List.getElem?_inj (by simpa using hlength) hnodup).1
      simp [hi, hj, hfree, hid, hplace]
    rw [hsame, hj] at hi
    cases hi
    cases hfree.symm.trans hid
  · intro hclear
    have hnamed : ∀ {i : Nat} {connection : EditorConnection},
        given.connections[i]? = some connection → connection.id = none →
        ∀ {other : EditorConnection}, other ∈ given.connections →
          other.id ≠ some (Graph.numbered "conn" (i + 1)) := by
      intro i connection hi hnone other hother hid
      refine hclear (connection, i + 1) ?_ hnone (List.mem_filterMap.2 ⟨other, hother, hid⟩)
      exact List.mem_zipIdx_iff_le_and_getElem?_sub.2 ⟨by simp, by simpa using hi⟩
    rw [List.nodup_iff_getElem?_ne_getElem?]
    intro i j hlt hj hsame
    have hlength : j < given.connections.length := by simpa using hj
    obtain ⟨first, hfirst⟩ : ∃ first, given.connections[i]? = some first :=
      ⟨_, List.getElem?_eq_getElem (Nat.lt_trans hlt hlength)⟩
    obtain ⟨second, hsecond⟩ : ∃ second, given.connections[j]? = some second :=
      ⟨_, List.getElem?_eq_getElem hlength⟩
    have hids : first.id.getD (Graph.numbered "conn" (i + 1)) =
        second.id.getD (Graph.numbered "conn" (j + 1)) := by
      simpa [hfirst, hsecond] using hsame
    -- Either of the two ids is given or filled in.
    cases hone : first.id with
    | some id =>
        cases htwo : second.id with
        | some other =>
            have hequal : id = other := by simpa [hone, htwo] using hids
            exact ne_of_given hgiven hlt hfirst hsecond hone (hequal ▸ htwo)
        | none =>
            have hequal : id = Graph.numbered "conn" (j + 1) := by simpa [hone, htwo] using hids
            exact hnamed hsecond htwo (List.mem_of_getElem? hfirst) (hequal ▸ hone)
    | none =>
        cases htwo : second.id with
        | some other =>
            have hequal : Graph.numbered "conn" (i + 1) = other := by
              simpa [hone, htwo] using hids
            exact hnamed hfirst hone (List.mem_of_getElem? hsecond) (hequal ▸ htwo)
        | none =>
            have hnumbers : Graph.numbered "conn" (i + 1) = Graph.numbered "conn" (j + 1) := by
              simpa [hone, htwo] using hids
            have hequal := Graph.numbered_injective hnumbers
            omega

/-- Where the ids that the connections of an export come with are distinct, those of the imported
graph are distinct if and only if no id filled in is one that came with a connection; and that is
also when every connection of the graph can be removed by its id without touching another. -/
theorem imported_ids_distinct_iff (given : EditorGraph) (graph : Graph)
    (hgiven : given.givenIds.Nodup) (hgraph : given.toGraph = .ok graph) :
    ((graph.connections.map Connection.id).Nodup ↔ given.FillsClear) ∧
      ((∀ connection ∈ graph.connections, graph.RemovesOnly connection) ↔ given.FillsClear) := by
  have hids : (graph.connections.map Connection.id).Nodup ↔ given.FillsClear := by
    rw [ids_of_toGraph hgraph]
    exact nodup_filled_iff hgiven
  exact ⟨hids, Graph.forall_removesOnly_iff.trans hids⟩

/-- A pause between start and end.  The first connection comes with an id, the second without. -/
def pausedLine (id : ConnectionId) : EditorGraph where
  nodes :=
    [{ id := "begin", type := "start", data := ∅ },
      { id := "pause", type := "pause-execution", data := ∅ },
      { id := "finish", type := "end", data := ∅ }]
  connections :=
    [⟨⟨"begin", execOut, "pause", execIn⟩, some id⟩,
      ⟨⟨"pause", execOut, "finish", execIn⟩, none⟩]

/-- The second connection is named after its place, and the first one came with the name of the
third. -/
theorem imported_ids_distinct_iff_pausedLine :
    (pausedLine "conn-3").givenIds.Nodup ∧ (pausedLine "conn-3").FillsClear ∧
      ∃ graph, (pausedLine "conn-3").toGraph = .ok graph ∧
        graph.connections.map Connection.id = ["conn-3", "conn-2"] ∧
        (graph.connections.map Connection.id).Nodup ∧
        ∀ connection ∈ graph.connections, graph.RemovesOnly connection := by
  have hgiven : (pausedLine "conn-3").givenIds.Nodup := by decide
  have hclear : (pausedLine "conn-3").FillsClear := by
    unfold FillsClear
    decide
  have hdistinct := imported_ids_distinct_iff (pausedLine "conn-3") _ hgiven rfl
  exact ⟨hgiven, hclear, _, rfl, rfl, hdistinct.1.2 hclear, hdistinct.2.2 hclear⟩

/-- Where the first connection comes with the name of the second place, both have the same id, and
removing the second one by its id takes the first. -/
theorem filled_id_repeats :
    (pausedLine "conn-2").givenIds.Nodup ∧
      ∃ graph first second rest, (pausedLine "conn-2").toGraph = .ok graph ∧
        graph.connections = [first, second] ∧ first ≠ second ∧ first.id = second.id ∧
        graph.removeConnection second.id = .ok (rest, first) ∧ second ∈ rest.connections := by
  exact ⟨by decide, _, _, _, _, rfl, rfl, by decide, rfl, rfl, by decide⟩

end EditorGraph
end FlowTrace
