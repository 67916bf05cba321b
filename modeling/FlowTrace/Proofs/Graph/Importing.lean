import FlowTrace.Proofs.Graph.NewIds
import FlowTrace.Proofs.Graph.Reimport

/-!
# When an export gives a graph

An export can be wrong in two ways: a node has a type that the catalog does not know, or two nodes
have one id.  The first unknown type is reported whatever else is wrong; where all types are known,
the first node that repeats an id is.  What is not wrong gives a graph, and this file says which.

* `mapM_eq_error_iff` and `mapM_eq_ok_iff` — a list of steps fails at the first one that fails;
* `EditorNode.IsKnown` and `EditorNode.Means` — nodes that can be made, and what is made of them;
* `firstRepeated?_eq_some_iff` — what the search for a repeated id finds;
* `EditorGraph.FirstUnknown` and `EditorGraph.FirstRepeat` — the nodes that are reported;
* `EditorGraph.Means` — the graph that an export means.
-/

namespace FlowTrace

/-! ## Steps that may fail -/

/-- Converting a list fails with the first item that fails. -/
theorem mapM_eq_error_iff {α β ε : Type} {step : α → Except ε β} {list : List α} {error : ε} :
    list.mapM step = .error error ↔
      ∃ before item after, list = before ++ item :: after ∧
        (∀ earlier ∈ before, ∃ value, step earlier = .ok value) ∧ step item = .error error := by
  induction list with
  | nil =>
      simp [pure, Except.pure]
  | cons first rest ih =>
      rw [List.mapM_cons]
      cases hfirst : step first with
      | error reason =>
          -- Nothing behind the first item is looked at.
          constructor
          · intro h
            cases h
            exact ⟨[], first, rest, rfl, by simp, hfirst⟩
          · rintro ⟨before, item, after, hlist, hearlier, hitem⟩
            cases before with
            | nil =>
                cases hlist
                cases hfirst.symm.trans hitem
                rfl
            | cons other before =>
                cases hlist
                rcases hearlier first List.mem_cons_self with ⟨value, hvalue⟩
                cases hfirst.symm.trans hvalue
      | ok value =>
          have hrest : (do
                let value ← Except.ok value
                let values ← rest.mapM step
                pure (value :: values)) = .error error ↔ rest.mapM step = .error error := by
            cases rest.mapM step <;> simp [bind, Except.bind, pure, Except.pure]
          rw [hrest, ih]
          constructor
          · rintro ⟨before, item, after, rfl, hearlier, hitem⟩
            refine ⟨first :: before, item, after, rfl, ?_, hitem⟩
            intro earlier hmem
            rcases List.mem_cons.1 hmem with rfl | hmem
            · exact ⟨value, hfirst⟩
            · exact hearlier earlier hmem
          · rintro ⟨before, item, after, hlist, hearlier, hitem⟩
            cases before with
            | nil =>
                cases hlist
                cases hfirst.symm.trans hitem
            | cons other before =>
                cases hlist
                refine ⟨before, item, after, rfl, ?_, hitem⟩
                intro earlier hmem
                exact hearlier earlier (List.mem_cons_of_mem first hmem)

/-- Converting a list gives one value for each item. -/
theorem mapM_eq_ok_iff {α β ε : Type} {step : α → Except ε β} {list : List α} {values : List β} :
    list.mapM step = .ok values ↔
      List.Forall₂ (fun item value => step item = .ok value) list values := by
  induction list generalizing values with
  | nil =>
      simp [pure, Except.pure, eq_comm]
  | cons first rest ih =>
      rw [List.mapM_cons, List.forall₂_cons_left_iff]
      cases hfirst : step first with
      | error reason =>
          simp [bind, Except.bind]
      | ok value =>
          cases hrest : rest.mapM step with
          | error reason =>
              simp [bind, Except.bind, ← ih, hrest]
          | ok others =>
              simp [bind, Except.bind, pure, Except.pure, ← ih, hrest, eq_comm]

/-! ## Nodes -/

namespace NodeKind

theorem ofTag?_eq_some_iff {tag : String} {kind : NodeKind} :
    ofTag? tag = some kind ↔ kind.tag = tag := by
  constructor
  · exact tag_of_ofTag?
  · rintro rfl
    exact ofTag?_tag kind

end NodeKind

namespace EditorNode

/-- The type of the node is the tag of some kind. -/
def IsKnown (given : EditorNode) : Prop :=
  ∃ kind : NodeKind, kind.tag = given.type

instance (given : EditorNode) : Decidable given.IsKnown :=
  decidable_of_iff ((NodeKind.ofTag? given.type).isSome = true) (by
    simp only [Option.isSome_iff_exists, NodeKind.ofTag?_eq_some_iff, IsKnown])

/-- The node that is meant: what the export says about it counts, also where it says null, and the
catalog supplies the parameters that it does not mention. -/
structure Means (given : EditorNode) (node : Node) : Prop where
  id : node.id = given.id
  kind : node.kind.tag = given.type
  position : node.position = given.position.getD {}
  own : ∀ name value, given.data.get? name = some value → node.data.get? name = some value
  filled : ∀ name, given.data.get? name = none →
    node.data.get? name = node.kind.defaults.get? name

/-- A node fails to convert if and only if its type is unknown. -/
theorem toNode_eq_error_iff {given : EditorNode} {error : ImportError} :
    given.toNode = .error error ↔ ¬ given.IsKnown ∧ error = .unknownType given.id given.type := by
  unfold toNode
  cases hkind : NodeKind.ofTag? given.type with
  | none =>
      have hunknown : ¬ given.IsKnown := by
        rintro ⟨kind, htag⟩
        cases hkind.symm.trans (NodeKind.ofTag?_eq_some_iff.2 htag)
      simp [hunknown, eq_comm]
  | some kind =>
      have hknown : given.IsKnown := ⟨kind, NodeKind.ofTag?_eq_some_iff.1 hkind⟩
      simp [hknown]

/-- A node converts to the node that is meant. -/
theorem toNode_eq_ok_iff {given : EditorNode} {node : Node} :
    given.toNode = .ok node ↔ given.Means node := by
  unfold toNode
  constructor
  · intro h
    split at h
    · next kind hkind =>
        cases h
        refine ⟨rfl, NodeKind.ofTag?_eq_some_iff.1 hkind, rfl, ?_, ?_⟩
        · intro name value hvalue
          simp [Table.get?_extend, hvalue]
        · intro name hnone
          simp [Table.get?_extend, hnone]
    · cases h
  · -- A table is determined by its look-ups, so the parameters are those laid over the catalog.
    rintro ⟨hid, hkind, hposition, hown, hfilled⟩
    rw [NodeKind.ofTag?_eq_some_iff.2 hkind]
    have hdata : node.data = node.kind.defaults.extend given.data := by
      apply Table.ext_get?
      intro name
      rw [Table.get?_extend]
      cases hvalue : given.data.get? name with
      | none => simpa using hfilled name hvalue
      | some value => simpa using hown name value hvalue
    obtain ⟨id, kind, position, data⟩ := node
    simp_all

theorem exists_toNode_iff {given : EditorNode} :
    (∃ node, given.toNode = .ok node) ↔ given.IsKnown := by
  cases hnode : given.toNode with
  | error error =>
      have hunknown := (toNode_eq_error_iff.1 hnode).1
      simp [hunknown]
  | ok node =>
      have hknown : given.IsKnown := ⟨node.kind, (toNode_eq_ok_iff.1 hnode).kind⟩
      simp [hknown]

end EditorNode

/-! ## Repeated ids -/

/-- The first repeated item is the first one that stands further in front or was seen before. -/
theorem firstRepeated?_eq_some_iff {seen items : List String} {id : String} :
    firstRepeated? seen items = some id ↔
      ∃ before after, items = before ++ id :: after ∧
        (before.Nodup ∧ ∀ item ∈ before, item ∉ seen) ∧ (id ∈ before ∨ id ∈ seen) := by
  fun_induction firstRepeated? seen items with
  | case1 seen =>
      simp
  | case2 seen item items hseen =>
      have hmem : item ∈ seen := by simpa using hseen
      constructor
      · intro h
        cases h
        exact ⟨[], items, rfl, by simp, Or.inr hmem⟩
      · rintro ⟨before, after, hitems, ⟨-, hfresh⟩, -⟩
        cases before with
        | nil =>
            cases hitems
            rfl
        | cons other before =>
            cases hitems
            exact absurd hmem (hfresh item List.mem_cons_self)
  | case3 seen item items hseen ih =>
      have hnot : item ∉ seen := by simpa using hseen
      rw [ih]
      -- The first item moves from those in front to those that were seen, or back.
      constructor
      · rintro ⟨before, after, rfl, ⟨hnodup, hfresh⟩, hid⟩
        refine ⟨item :: before, after, rfl, ⟨?_, ?_⟩, ?_⟩
        · refine List.nodup_cons.2 ⟨?_, hnodup⟩
          intro hmem
          exact hfresh item hmem List.mem_cons_self
        · intro other hother
          rcases List.mem_cons.1 hother with rfl | hother
          · exact hnot
          · intro hmem
            exact hfresh other hother (List.mem_cons_of_mem item hmem)
        · rcases hid with hmem | hmem
          · exact Or.inl (List.mem_cons_of_mem item hmem)
          · rcases List.mem_cons.1 hmem with rfl | hmem
            · exact Or.inl List.mem_cons_self
            · exact Or.inr hmem
      · rintro ⟨before, after, hitems, ⟨hnodup, hfresh⟩, hid⟩
        cases before with
        | nil =>
            cases hitems
            exact absurd hid (by simpa using hnot)
        | cons other before =>
            cases hitems
            obtain ⟨hother, hnodup⟩ := List.nodup_cons.1 hnodup
            refine ⟨before, after, rfl, ⟨hnodup, ?_⟩, ?_⟩
            · intro later hlater hmem
              rcases List.mem_cons.1 hmem with rfl | hmem
              · exact hother hlater
              · exact hfresh later (List.mem_cons_of_mem item hlater) hmem
            · rcases hid with hmem | hmem
              · rcases List.mem_cons.1 hmem with rfl | hmem
                · exact Or.inr List.mem_cons_self
                · exact Or.inl hmem
              · exact Or.inr (List.mem_cons_of_mem item hmem)

/-! ## Graphs -/

namespace EditorGraph

variable {given : EditorGraph} {graph : Graph}

/-- The node is the first one of a type that the catalog does not know. -/
def FirstUnknown (given : EditorGraph) (node : EditorNode) : Prop :=
  ∃ before after, given.nodes = before ++ node :: after ∧
    (∀ earlier ∈ before, earlier.IsKnown) ∧ ¬ node.IsKnown

/-- The node is the first one that repeats the id of a node in front of it. -/
def FirstRepeat (given : EditorGraph) (node : EditorNode) : Prop :=
  ∃ before after, given.nodes = before ++ node :: after ∧
    (before.map EditorNode.id).Nodup ∧ ∃ earlier ∈ before, earlier.id = node.id

/-- The graph that is meant: the nodes and connections are meant in their order.  A connection
without an id is named after its place, counted from one, and new ids are numbered from the
start. -/
structure Means (given : EditorGraph) (graph : Graph) : Prop where
  nodes : List.Forall₂ EditorNode.Means given.nodes graph.nodes
  connections : List.Forall₂
    (fun entry connection => connection.toEndpoints = entry.1.toEndpoints ∧
      connection.id = entry.1.id.getD (Graph.numbered "conn" entry.2))
    (given.connections.zipIdx 1) graph.connections
  counter : graph.counter = 0

theorem mapM_toNode_eq_ok_iff {nodes : List Node} :
    given.nodes.mapM EditorNode.toNode = .ok nodes ↔
      List.Forall₂ EditorNode.Means given.nodes nodes := by
  simp only [mapM_eq_ok_iff, EditorNode.toNode_eq_ok_iff]

/-- The nodes of an export fail to convert at the first one of unknown type. -/
theorem mapM_toNode_eq_error_iff {error : ImportError} :
    given.nodes.mapM EditorNode.toNode = .error error ↔
      ∃ node, given.FirstUnknown node ∧ error = .unknownType node.id node.type := by
  simp only [mapM_eq_error_iff, EditorNode.exists_toNode_iff, EditorNode.toNode_eq_error_iff,
    FirstUnknown]
  constructor
  · rintro ⟨before, node, after, hnodes, hknown, hunknown, herror⟩
    exact ⟨node, ⟨before, after, hnodes, hknown, hunknown⟩, herror⟩
  · rintro ⟨node, ⟨before, after, hnodes, hknown, hunknown⟩, herror⟩
    exact ⟨before, node, after, hnodes, hknown, hunknown, herror⟩

/-- What is made of the nodes has their ids. -/
theorem ids_of_means {nodes : List EditorNode} {made : List Node}
    (hmeans : List.Forall₂ EditorNode.Means nodes made) :
    made.map Node.id = nodes.map EditorNode.id := by
  induction hmeans with
  | nil => rfl
  | cons hfirst _ ih => simp [hfirst.id, ih]

theorem isKnown_of_means {nodes : List EditorNode} {made : List Node}
    (hmeans : List.Forall₂ EditorNode.Means nodes made) : ∀ node ∈ nodes, node.IsKnown := by
  induction hmeans with
  | nil =>
      intro node hmem
      cases hmem
  | cons hfirst _ ih =>
      intro node hmem
      rcases List.mem_cons.1 hmem with rfl | hmem
      · exact ⟨_, hfirst.kind⟩
      · exact ih node hmem

/-- The first repeated id is that of the first node that repeats one. -/
theorem firstRepeated?_ids_iff {id : NodeId} :
    firstRepeated? [] (given.nodes.map EditorNode.id) = some id ↔
      ∃ node, given.FirstRepeat node ∧ id = node.id := by
  rw [firstRepeated?_eq_some_iff]
  constructor
  · rintro ⟨ids, later, hids, ⟨hnodup, -⟩, hid⟩
    obtain ⟨before, rest, hnodes, rfl, hrest⟩ := List.map_eq_append_iff.1 hids
    obtain ⟨node, after, rfl, rfl, -⟩ := List.map_eq_cons_iff.1 hrest
    refine ⟨node, ⟨before, after, hnodes, hnodup, ?_⟩, rfl⟩
    simpa using hid
  · rintro ⟨node, ⟨before, after, hnodes, hnodup, hearlier⟩, rfl⟩
    refine ⟨before.map EditorNode.id, after.map EditorNode.id, by simp [hnodes], ⟨hnodup, ?_⟩, ?_⟩
    · intro item _
      exact List.not_mem_nil
    · left
      simpa using hearlier

/-- Nodes can be made of all that the export lists if and only if their types are known. -/
theorem exists_mapM_toNode_iff :
    (∃ nodes, given.nodes.mapM EditorNode.toNode = .ok nodes) ↔
      ∀ node ∈ given.nodes, node.IsKnown := by
  cases hnodes : given.nodes.mapM EditorNode.toNode with
  | error error =>
      obtain ⟨node, ⟨before, after, hsplit, -, hunknown⟩, -⟩ := mapM_toNode_eq_error_iff.1 hnodes
      have hmem : node ∈ given.nodes := by simp [hsplit]
      constructor
      · rintro ⟨_, ⟨⟩⟩
      · intro hknown
        exact absurd (hknown node hmem) hunknown
  | ok nodes =>
      have hknown := isKnown_of_means (mapM_toNode_eq_ok_iff.1 hnodes)
      exact ⟨fun _ => hknown, fun _ => ⟨nodes, rfl⟩⟩

theorem toGraph_eq_error_iff {error : ImportError} :
    given.toGraph = .error error ↔
      given.nodes.mapM EditorNode.toNode = .error error ∨
        ∃ nodes id, given.nodes.mapM EditorNode.toNode = .ok nodes ∧
          firstRepeated? [] (nodes.map Node.id) = some id ∧ error = .repeatedId id := by
  unfold toGraph
  cases hnodes : given.nodes.mapM EditorNode.toNode with
  | error reason =>
      simp [bind, Except.bind]
  | ok nodes =>
      cases hrepeated : firstRepeated? [] (nodes.map Node.id) with
      | none =>
          simp [bind, Except.bind, hrepeated, pure, Except.pure]
      | some id =>
          simp [bind, Except.bind, hrepeated, throw, throwThe, MonadExceptOf.throw, eq_comm]

/-- An export is refused for a type if and only if a node of that type is the first unknown one. -/
theorem toGraph_eq_unknownType_iff {id : NodeId} {type : String} :
    given.toGraph = .error (.unknownType id type) ↔
      ∃ node, given.FirstUnknown node ∧ id = node.id ∧ type = node.type := by
  rw [toGraph_eq_error_iff, mapM_toNode_eq_error_iff]
  simp

/-- An export of known types is refused for an id if and only if the first node to repeat one has
it. -/
theorem toGraph_eq_repeatedId_iff {id : NodeId} (hknown : ∀ node ∈ given.nodes, node.IsKnown) :
    given.toGraph = .error (.repeatedId id) ↔ ∃ node, given.FirstRepeat node ∧ id = node.id := by
  obtain ⟨nodes, hnodes⟩ := exists_mapM_toNode_iff.2 hknown
  have hids := ids_of_means (mapM_toNode_eq_ok_iff.1 hnodes)
  rw [toGraph_eq_error_iff, ← firstRepeated?_ids_iff, ← hids]
  simp [hnodes]

/-- The graph of an export that gives one is the graph that it means. -/
theorem means_of_toGraph (hgraph : given.toGraph = .ok graph) : given.Means graph := by
  obtain ⟨nodes, hnodes, -, rfl⟩ := toGraph_eq_ok_iff.1 hgraph
  refine ⟨mapM_toNode_eq_ok_iff.1 hnodes, ?_, rfl⟩
  have hplaces : (given.connections.mapIdx fun i c => c.toConnection (i + 1)) =
      (given.connections.zipIdx 1).map fun entry => entry.1.toConnection entry.2 := by
    apply List.ext_getElem?
    intro i
    simp [Function.comp_def, Nat.add_comm]
  rw [hplaces, List.forall₂_map_right_iff]
  apply List.forall₂_same.2
  intro entry _
  exact ⟨rfl, rfl⟩

/-- An export with a node of an unknown type is refused with the first such node, and one that is
fine in this respect with the first node that repeats an id, if there is one.  Any other export
gives the graph that it means, with distinct ids. -/
theorem toGraph_decided (given : EditorGraph) :
    ((∃ id type, given.toGraph = .error (.unknownType id type)) ↔
      ∃ node ∈ given.nodes, ¬ node.IsKnown) ∧
    (∀ id type, given.toGraph = .error (.unknownType id type) ↔
      ∃ node, given.FirstUnknown node ∧ id = node.id ∧ type = node.type) ∧
    ((∀ node ∈ given.nodes, node.IsKnown) →
      ((∃ id, given.toGraph = .error (.repeatedId id)) ↔
        ¬ (given.nodes.map EditorNode.id).Nodup) ∧
      (∀ id, given.toGraph = .error (.repeatedId id) ↔
        ∃ node, given.FirstRepeat node ∧ id = node.id) ∧
      ((given.nodes.map EditorNode.id).Nodup →
        ∃ graph, given.toGraph = .ok graph ∧ given.Means graph ∧
          (graph.nodes.map Node.id).Nodup)) := by
  refine ⟨?_, fun _ _ => toGraph_eq_unknownType_iff, ?_⟩
  · constructor
    · rintro ⟨id, type, herror⟩
      obtain ⟨node, ⟨before, after, hnodes, -, hunknown⟩, -⟩ := toGraph_eq_unknownType_iff.1 herror
      exact ⟨node, by simp [hnodes], hunknown⟩
    · -- Some node is unknown, so the conversion stops, at that one or at one in front of it.
      rintro ⟨node, hmem, hunknown⟩
      cases hnodes : given.nodes.mapM EditorNode.toNode with
      | ok nodes =>
          exact absurd (exists_mapM_toNode_iff.1 ⟨nodes, hnodes⟩ node hmem) hunknown
      | error error =>
          obtain ⟨first, -, rfl⟩ := mapM_toNode_eq_error_iff.1 hnodes
          exact ⟨first.id, first.type, toGraph_eq_error_iff.2 (Or.inl hnodes)⟩
  · intro hknown
    obtain ⟨nodes, hnodes⟩ := exists_mapM_toNode_iff.2 hknown
    have hids := ids_of_means (mapM_toNode_eq_ok_iff.1 hnodes)
    refine ⟨?_, fun _ => toGraph_eq_repeatedId_iff hknown, ?_⟩
    · -- The search for a repeated id comes back with nothing if and only if there is none.
      have hsearch : firstRepeated? [] (given.nodes.map EditorNode.id) = none ↔
          (given.nodes.map EditorNode.id).Nodup := by
        simp [firstRepeated?_eq_none_iff]
      simp only [toGraph_eq_repeatedId_iff hknown, ← firstRepeated?_ids_iff, ← hsearch]
      exact Option.ne_none_iff_exists'.symm
    · intro hnodup
      have hgraph := toGraph_eq_ok_iff.2 ⟨nodes, hnodes, hids ▸ hnodup, rfl⟩
      exact ⟨_, hgraph, means_of_toGraph hgraph, hids ▸ hnodup⟩

/-- Nodes of given types, without places and parameters, and no connections. -/
def ofTypes (list : List (NodeId × String)) : EditorGraph where
  nodes := list.map fun entry => { id := entry.1, type := entry.2, data := ∅ }

/-- An id repeats in front of two unknown types. -/
def mixedFaults : EditorGraph :=
  ofTypes [("a", "start"), ("a", "end"), ("b", "quick-sort"), ("c", "merge-sort")]

/-- Two ids repeat, the second one first. -/
def crossedIds : EditorGraph :=
  ofTypes [("a", "start"), ("b", "end"), ("b", "end"), ("a", "end")]

/-- A pause that says null about its duration and makes a remark. -/
def remarkedPause : EditorGraph where
  nodes :=
    [{ id := "begin", type := "start", data := ∅ },
      { id := "pause", type := "pause-execution"
        data := .ofList [("remark", .string "later"), ("duration", .null)] }]
  connections := [⟨⟨"begin", execOut, "pause", execIn⟩, none⟩]

/-- Of two faults the unknown type counts; of two repeated ids the one that repeats first; and a
null is kept. -/
theorem toGraph_decided_samples :
    mixedFaults.toGraph = .error (.unknownType "b" "quick-sort") ∧
    ((∀ node ∈ crossedIds.nodes, node.IsKnown) ∧
      crossedIds.toGraph = .error (.repeatedId "b")) ∧
    ((∀ node ∈ remarkedPause.nodes, node.IsKnown) ∧
      (remarkedPause.nodes.map EditorNode.id).Nodup ∧
      ∃ graph, remarkedPause.toGraph = .ok graph ∧ remarkedPause.Means graph ∧
        (graph.nodes.map Node.id).Nodup) := by
  have hunknown : ∃ node, mixedFaults.FirstUnknown node ∧ "b" = node.id ∧
      "quick-sort" = node.type :=
    ⟨⟨"b", "quick-sort", none, ∅⟩, ⟨mixedFaults.nodes.take 2, mixedFaults.nodes.drop 3, rfl,
      by decide, by decide⟩, rfl, rfl⟩
  have hcrossed : ∀ node ∈ crossedIds.nodes, node.IsKnown := by decide
  have hrepeat : ∃ node, crossedIds.FirstRepeat node ∧ "b" = node.id :=
    ⟨⟨"b", "end", none, ∅⟩, ⟨crossedIds.nodes.take 2, crossedIds.nodes.drop 3, rfl, by decide,
      ⟨"b", "end", none, ∅⟩, by simp [crossedIds, ofTypes], rfl⟩, rfl⟩
  have hpause : ∀ node ∈ remarkedPause.nodes, node.IsKnown := by decide
  have hnodup : (remarkedPause.nodes.map EditorNode.id).Nodup := by decide
  exact ⟨((toGraph_decided mixedFaults).2.1 _ _).2 hunknown,
    ⟨hcrossed, (((toGraph_decided crossedIds).2.2 hcrossed).2.1 _).2 hrepeat⟩,
    ⟨hpause, hnodup, ((toGraph_decided remarkedPause).2.2 hpause).2.2 hnodup⟩⟩

end EditorGraph
end FlowTrace
