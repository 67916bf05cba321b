import FlowTrace.Graph.Editor
import FlowTrace.Proofs.Json.Numbers
import FlowTrace.Proofs.StoredForms

/-!
# A stored graph is an export

The stored form of a graph can be read like the export of an editor.  Nothing is lost on that way:
every node keeps its place and gains the parameters of the catalog that it lacks, and every
connection keeps its id.  A graph that was imported lacks none, so storing and importing it again
changes nothing.

* `Node.completed` and `Graph.completed` — the missing parameters of the catalog are filled in;
* `Graph.ofEditorDocument_toJson` — the import of a stored graph;
* `EditorGraph.toGraph_eq_ok_iff` — what an export needs in order to give a graph;
* `reimport_completes` — stored graphs, and graphs that were imported before.
-/

namespace FlowTrace

/-! ## Completed graphs -/

namespace Node

/-- The node with the parameters of the catalog where it has none of its own. -/
def completed (node : Node) : Node :=
  { node with data := node.kind.defaults.extend node.data }

/-- What is laid over the catalog already is not changed by doing it again. -/
theorem completed_completed (node : Node) : node.completed.completed = node.completed := by
  have hdata : node.kind.defaults.extend (node.kind.defaults.extend node.data) =
      node.kind.defaults.extend node.data := by
    apply Table.ext_get?
    intro name
    -- A name is found among the own parameters, or both times among those of the catalog.
    simp only [Table.get?_extend]
    cases node.data.get? name <;> cases node.kind.defaults.get? name <;> rfl
  simp only [completed, hdata]

end Node

namespace Graph

/-- All nodes are completed; the numbers given out so far are forgotten. -/
def completed (graph : Graph) : Graph where
  nodes := graph.nodes.map Node.completed
  connections := graph.connections

def ofEditorDocument (document : Document) : Except ImportError Graph :=
  match EditorGraph.ofDocument? document with
  | some graph => graph.toGraph
  | none => .error .malformed

theorem ofEditorText_eq_ok_iff {text : String} {graph : Graph} :
    ofEditorText text = .ok graph ↔
      ∃ document, Document.parse? text = some document ∧
        ofEditorDocument document = .ok graph := by
  unfold ofEditorText EditorGraph.ofText ofEditorDocument
  cases hparse : Document.parse? text with
  | none => simp [bind, Except.bind]
  | some document =>
      cases hread : EditorGraph.ofDocument? document <;> simp [hread, bind, Except.bind]

end Graph

/-! ## Repeated ids -/

theorem firstRepeated?_eq_none_iff {seen items : List String} :
    firstRepeated? seen items = none ↔ items.Nodup ∧ ∀ item ∈ items, item ∉ seen := by
  fun_induction firstRepeated? seen items with
  | case1 seen => simp
  | case2 seen item items hseen =>
      have hmem : item ∈ seen := by simpa using hseen
      simp [hmem]
  | case3 seen item items hseen ih =>
      have hnot : item ∉ seen := by simpa using hseen
      rw [ih, List.nodup_cons, List.forall_mem_cons]
      -- The first item moves from the items to those that were seen.
      constructor
      · rintro ⟨hnodup, hfresh⟩
        refine ⟨⟨?_, hnodup⟩, hnot, ?_⟩
        · intro hmem
          exact hfresh item hmem List.mem_cons_self
        · intro other hmem hother
          exact hfresh other hmem (List.mem_cons_of_mem _ hother)
      · rintro ⟨⟨hfirst, hnodup⟩, -, hfresh⟩
        refine ⟨hnodup, ?_⟩
        intro other hmem hother
        rcases List.mem_cons.1 hother with rfl | hother
        · exact hfirst hmem
        · exact hfresh other hmem hother

/-! ## Exports -/

namespace EditorNode

def ofNode (node : Node) : EditorNode where
  id := node.id
  type := node.kind.tag
  position := some node.position
  data := node.data

theorem ofDocument?_toJson {node : Node} (hfinite : node.position.IsFinite) :
    ofDocument? node.toJson.toDocument = some (ofNode node) := by
  have hposition : node.position.toJson.toDocument.nullable? Position.ofDocument? =
      some (some node.position) := by
    have hread := Position.ofDocument?_toJson hfinite
    simp only [Position.toJson, Json.toDocument, Document.nullable?] at hread ⊢
    rw [hread]
    rfl
  simp [ofDocument?, Node.record?_toJson, hposition, Node.parametersOfDocument?_entries, ofNode]

/-- A node that is stored and imported comes back with the parameters of the catalog filled in. -/
theorem toNode_ofNode (node : Node) : (ofNode node).toNode = .ok node.completed := by
  simp [toNode, ofNode, NodeKind.ofTag?_tag, Node.completed]

/-- A node that comes from an export has all parameters of the catalog. -/
theorem completed_of_toNode {given : EditorNode} {node : Node} (hnode : given.toNode = .ok node) :
    node.completed = node := by
  unfold toNode at hnode
  split at hnode
  · next kind _ =>
      cases hnode
      exact Node.completed_completed ⟨given.id, kind, given.position.getD {}, given.data⟩
  · cases hnode

theorem position_of_toNode {given : EditorNode} {node : Node} (hnode : given.toNode = .ok node) :
    node.position = given.position.getD {} := by
  unfold toNode at hnode
  split at hnode <;> cases hnode
  rfl

/-- The nodes of a graph come from those of the export. -/
theorem exists_of_mem_nodes :
    ∀ {given : List EditorNode} {nodes : List Node}, given.mapM toNode = .ok nodes →
      ∀ node ∈ nodes, ∃ first ∈ given, first.toNode = .ok node
  | [], nodes, hmap, node, hmem => by
      cases hmap
      exact absurd hmem List.not_mem_nil
  | first :: given, nodes, hmap, node, hmem => by
      rw [List.mapM_cons] at hmap
      cases hfirst : first.toNode with
      | error e => rw [hfirst] at hmap; cases hmap
      | ok made =>
          cases hrest : given.mapM toNode with
          | error e => rw [hfirst, hrest] at hmap; cases hmap
          | ok others =>
              rw [hfirst, hrest] at hmap
              cases hmap
              rcases List.mem_cons.1 hmem with rfl | hmem
              · exact ⟨first, List.mem_cons_self, hfirst⟩
              · rcases exists_of_mem_nodes hrest node hmem with ⟨other, hother, hnode⟩
                exact ⟨other, List.mem_cons_of_mem _ hother, hnode⟩

end EditorNode

namespace EditorConnection

def ofConnection (connection : Connection) : EditorConnection where
  toEndpoints := connection.toEndpoints
  id := some connection.id

theorem ofDocument?_toJson (connection : Connection) :
    ofDocument? connection.toJson.toDocument = some (ofConnection connection) := by
  simp [ofDocument?, Connection.toJson, Endpoints.members, Json.toDocument, Json.membersToDocument,
    Document.record?, Document.field?, Endpoints.ofFields?, Document.string?, Document.nullable?,
    ofConnection]

/-- A connection with an id of its own does not need one after its place. -/
theorem toConnection_ofConnection (place : Nat) (connection : Connection) :
    (ofConnection connection).toConnection place = connection := rfl

end EditorConnection

namespace EditorGraph

def ofGraph (graph : Graph) : EditorGraph where
  nodes := graph.nodes.map EditorNode.ofNode
  connections := graph.connections.map EditorConnection.ofConnection

theorem ofDocument?_toJson {graph : Graph} (hplaced : graph.IsPlaced) :
    ofDocument? graph.toJson.toDocument = some (ofGraph graph) := by
  have hnodes : (Json.array (graph.nodes.map Node.toJson)).toDocument.list?
      EditorNode.ofDocument? = some (graph.nodes.map EditorNode.ofNode) :=
    Document.list?_toDocument fun node hmem => EditorNode.ofDocument?_toJson (hplaced node hmem)
  have hconnections : (Json.array (graph.connections.map Connection.toJson)).toDocument.list?
      EditorConnection.ofDocument? = some (graph.connections.map EditorConnection.ofConnection) :=
    Document.list?_toDocument fun connection _ => EditorConnection.ofDocument?_toJson connection
  have hfields : graph.toJson.toDocument.record? [["nodes"], ["connections", "edges"]] =
      some [some (Json.array (graph.nodes.map Node.toJson)).toDocument,
        some (Json.array (graph.connections.map Connection.toJson)).toDocument] := by
    simp [Graph.toJson, Json.toDocument, Json.membersToDocument, Document.record?,
      Document.field?]
  simp [ofDocument?, hfields, hnodes, hconnections, ofGraph]

/-- An export gives a graph if all its types are known and no id repeats. -/
theorem toGraph_eq_ok_iff {given : EditorGraph} {graph : Graph} :
    given.toGraph = .ok graph ↔
      ∃ nodes, given.nodes.mapM EditorNode.toNode = .ok nodes ∧ (nodes.map Node.id).Nodup ∧
        graph = {
          nodes
          connections := given.connections.mapIdx fun i c => c.toConnection (i + 1) } := by
  unfold toGraph
  cases hnodes : given.nodes.mapM EditorNode.toNode with
  | error e => simp [bind, Except.bind]
  | ok nodes =>
      cases hrepeated : firstRepeated? [] (nodes.map Node.id) with
      | some id =>
          have hnot : ¬(nodes.map Node.id).Nodup := by
            intro hnodup
            have hnone := firstRepeated?_eq_none_iff.2 ⟨hnodup, fun _ _ => List.not_mem_nil⟩
            rw [hnone] at hrepeated
            cases hrepeated
          simp [bind, Except.bind, hrepeated, hnot, throw, throwThe, MonadExceptOf.throw]
      | none =>
          have hnodup := (firstRepeated?_eq_none_iff.1 hrepeated).1
          simp [bind, Except.bind, hrepeated, hnodup, pure, Except.pure, eq_comm]

end EditorGraph

/-! ## Importing what is stored -/

/-- The import of a stored graph completes its nodes. -/
theorem Graph.ofEditorDocument_toJson {graph : Graph} (hnodup : (graph.nodes.map Node.id).Nodup)
    (hplaced : graph.IsPlaced) :
    ofEditorDocument graph.toJson.toDocument = .ok graph.completed := by
  have hnodes : (graph.nodes.map EditorNode.ofNode).mapM EditorNode.toNode =
      .ok (graph.nodes.map Node.completed) := by
    have hall : EditorNode.toNode ∘ EditorNode.ofNode =
        fun node => (pure node.completed : Except ImportError Node) :=
      funext EditorNode.toNode_ofNode
    rw [List.mapM_map, hall, List.mapM_pure]
    rfl
  have hids : ((graph.nodes.map Node.completed).map Node.id).Nodup := by
    rw [List.map_map]
    exact hnodup
  -- Every connection has an id, so the places of the list do not matter.
  have hconnections : (graph.connections.map EditorConnection.ofConnection).mapIdx
      (fun i c => c.toConnection (i + 1)) = graph.connections := by
    apply List.ext_getElem
    · simp
    · intro i hleft hright
      simp [EditorConnection.toConnection_ofConnection]
  simp only [ofEditorDocument, EditorGraph.ofDocument?_toJson hplaced]
  refine EditorGraph.toGraph_eq_ok_iff.2 ⟨_, hnodes, hids, ?_⟩
  simp only [completed, EditorGraph.ofGraph, hconnections]

/-! ## Storing what was imported -/

/-- A place that is read from numbers in range is finite. -/
theorem Position.isFinite_of_ofDocument? {document : Document} {position : Position}
    (h : document.InRange) (hread : ofDocument? document = some position) :
    position.IsFinite := by
  rcases Option.bind_eq_some_iff.1 hread with ⟨fields, hrecord, hfields⟩
  have hvalues := h.record? hrecord
  split at hfields
  · next x y =>
      rcases Option.bind_eq_some_iff.1 hfields with ⟨x', hx, hrest⟩
      rcases Option.bind_eq_some_iff.1 hrest with ⟨y', hy, hposition⟩
      cases hposition
      exact ⟨(hvalues x (by simp)).number? hx, (hvalues y (by simp)).number? hy⟩
  · cases hfields

/-- The place of a node of an export is missing or read from one of its fields. -/
theorem EditorNode.position_of_ofDocument? {document : Document} {node : EditorNode}
    (h : document.InRange) (hread : ofDocument? document = some node) :
    node.position = none ∨ ∃ place : Document, place.InRange ∧
      place.nullable? Position.ofDocument? = some node.position := by
  rcases Option.bind_eq_some_iff.1 hread with ⟨fields, hrecord, hfields⟩
  have hvalues := h.record? hrecord
  split at hfields
  · next id type position data =>
      rcases Option.bind_eq_some_iff.1 hfields with ⟨_, -, hrest⟩
      rcases Option.bind_eq_some_iff.1 hrest with ⟨_, -, hrest⟩
      cases position with
      | none =>
          -- What is missing reads as no place at all.
          left
          cases data with
          | none => exact Option.some.inj hrest ▸ rfl
          | some data =>
              rcases Option.bind_eq_some_iff.1 hrest with ⟨_, hnone, hrest⟩
              rcases Option.bind_eq_some_iff.1 hrest with ⟨_, -, hnode⟩
              cases hnone
              exact Option.some.inj hnode ▸ rfl
      | some place =>
          right
          rcases Option.bind_eq_some_iff.1 hrest with ⟨position, hposition, hrest⟩
          refine ⟨place, hvalues place (by simp), ?_⟩
          cases data with
          | none => exact Option.some.inj hrest ▸ hposition
          | some data =>
              rcases Option.bind_eq_some_iff.1 hrest with ⟨_, -, hnode⟩
              exact Option.some.inj hnode ▸ hposition
  · cases hfields

/-- A node that is read from numbers in range stands at a finite place. -/
theorem EditorNode.isFinite_of_ofDocument? {document : Document} {node : EditorNode}
    (h : document.InRange) (hread : ofDocument? document = some node) :
    (node.position.getD {}).IsFinite := by
  have hdefault : Position.IsFinite {} := ⟨by decide +kernel, by decide +kernel⟩
  cases hposition : node.position with
  | none => exact hdefault
  | some position =>
      rcases position_of_ofDocument? h hread with hnone | ⟨place, hplace, hnullable⟩
      · rw [hnone] at hposition
        cases hposition
      · rw [hposition] at hnullable
        unfold Document.nullable? at hnullable
        split at hnullable
        · cases hnullable
        · rcases Option.map_eq_some_iff.1 hnullable with ⟨_, hfound, ⟨⟩⟩
          exact Position.isFinite_of_ofDocument? hplace hfound

/-- All nodes of an export in range stand at finite places. -/
theorem EditorGraph.isFinite_of_ofDocument? {document : Document} {given : EditorGraph}
    (h : document.InRange) (hread : ofDocument? document = some given) :
    ∀ node ∈ given.nodes, (node.position.getD {}).IsFinite := by
  rcases Option.bind_eq_some_iff.1 hread with ⟨fields, hrecord, hfields⟩
  have hvalues := h.record? hrecord
  split at hfields
  · next nodes connections =>
      rcases Option.bind_eq_some_iff.1 hfields with ⟨found, hfound, hrest⟩
      have hnodes : given.nodes = found := by
        cases connections with
        | none => exact Option.some.inj hrest ▸ rfl
        | some connections =>
            rcases Option.bind_eq_some_iff.1 hrest with ⟨_, -, hgiven⟩
            exact Option.some.inj hgiven ▸ rfl
      intro node hmem
      rw [hnodes] at hmem
      rcases (hvalues nodes (by simp)).list? hfound node hmem with ⟨item, hitem, hnode⟩
      exact EditorNode.isFinite_of_ofDocument? hitem hnode
  · cases hfields

namespace Graph

/-- A graph that was imported has distinct ids, finite places and all parameters. -/
theorem of_ofEditorDocument {document : Document} {graph : Graph} (h : document.InRange)
    (hgraph : ofEditorDocument document = .ok graph) :
    (graph.nodes.map Node.id).Nodup ∧ graph.IsPlaced ∧ graph.completed = graph := by
  unfold ofEditorDocument at hgraph
  split at hgraph
  · next given hread =>
      obtain ⟨nodes, hnodes, hnodup, rfl⟩ := EditorGraph.toGraph_eq_ok_iff.1 hgraph
      refine ⟨hnodup, ?_, ?_⟩
      · intro node hmem
        rcases EditorNode.exists_of_mem_nodes hnodes node hmem with ⟨first, hfirst, hnode⟩
        rw [EditorNode.position_of_toNode hnode]
        exact EditorGraph.isFinite_of_ofDocument? h hread first hfirst
      · have hall : ∀ node ∈ nodes, node.completed = node := by
          intro node hmem
          rcases EditorNode.exists_of_mem_nodes hnodes node hmem with ⟨first, -, hnode⟩
          exact EditorNode.completed_of_toNode hnode
        simp only [completed, List.map_congr_left hall, List.map_id']
  · cases hgraph

/-- Storing a graph that was imported and importing it again changes nothing. -/
theorem ofEditorDocument_toJson_self {document : Document} {graph : Graph} (h : document.InRange)
    (hgraph : ofEditorDocument document = .ok graph) :
    ofEditorDocument graph.toJson.toDocument = .ok graph := by
  obtain ⟨hnodup, hplaced, hcompleted⟩ := of_ofEditorDocument h hgraph
  rw [ofEditorDocument_toJson hnodup hplaced, hcompleted]

end Graph

/-- A stored graph with distinct ids and finite places is imported with its nodes completed and all
else as it was.  So a graph that comes from an export, as a document or as text, is stored and
imported again without any change. -/
theorem reimport_completes :
    (∀ graph : Graph, (graph.nodes.map Node.id).Nodup → graph.IsPlaced →
      Graph.ofEditorDocument graph.toJson.toDocument = .ok graph.completed) ∧
    (∀ (document : Document) (graph : Graph), document.InRange →
      Graph.ofEditorDocument document = .ok graph →
      Graph.ofEditorDocument graph.toJson.toDocument = .ok graph) ∧
    (∀ (text : String) (graph : Graph), Graph.ofEditorText text = .ok graph →
      Graph.ofEditorDocument graph.toJson.toDocument = .ok graph) := by
  refine ⟨fun _ => Graph.ofEditorDocument_toJson, fun _ _ => Graph.ofEditorDocument_toJson_self, ?_⟩
  intro text graph himport
  -- Text has no other numbers than those of a document in range.
  obtain ⟨document, hparse, hgraph⟩ := Graph.ofEditorText_eq_ok_iff.1 himport
  exact Graph.ofEditorDocument_toJson_self (Document.parse?_inRange hparse) hgraph

/-- A highlight behind the start: places in two sorts of numbers, a parameter of its own, and a
connection without an id. -/
def Document.sketch : Document :=
  .object
    [("nodes", .array
      [.object [("id", .string "s"), ("type", .string "start"),
          ("position", .object [("x", .int 3), ("y", .float 0.5)])],
        .object [("type", .string "array-highlight"), ("id", .string "h"), ("position", .null),
          ("data", .object [("index", .int 2), ("tint", .array [.null])])]]),
      ("edges", .array
        [.object [("source", .string "s"), ("source_handle", .string "exec-out"),
          ("target", .string "h"), ("targetHandle", .string "exec-in")]])]

def Graph.sketch : Graph where
  nodes :=
    [{ id := "s", kind := .start, position := ⟨3.0, 0.5⟩
       data := .ofList [("label", .string "Start")] },
      { id := "h", kind := .arrayHighlight
        data := .ofList [("index", .int 2), ("tint", .array [.null])] }]
  connections := [⟨⟨"s", "exec-out", "h", "exec-in"⟩, "conn-1"⟩]

/-- The sketch as text, with the fields of its nodes and of its connection listed in their order. -/
def Graph.sketchText : String :=
  "\x7b\"nodes\":[[\"s\",\"start\",[3,0.5]]," ++
  "[\"h\",\"array-highlight\",null,\x7b\"index\":2,\"tint\":[null]\x7d]]," ++
  "\"edges\":[[null,\"s\",\"exec-out\",\"h\",\"exec-in\"]]\x7d"

/-- An access whose own empty parameter stands over that of the catalog, and a sketch that comes as
a document and as text. -/
theorem reimport_completes_samples :
    ((Graph.annotatedRead.nodes.map Node.id).Nodup ∧ Graph.annotatedRead.IsPlaced ∧
      Graph.ofEditorDocument Graph.annotatedRead.toJson.toDocument =
        .ok Graph.annotatedRead.completed) ∧
    (Document.sketch.InRange ∧ Graph.ofEditorDocument Document.sketch = .ok Graph.sketch ∧
      Graph.ofEditorDocument Graph.sketch.toJson.toDocument = .ok Graph.sketch) ∧
    (Graph.ofEditorText Graph.sketchText = .ok Graph.sketch ∧
      Graph.ofEditorDocument Graph.sketch.toJson.toDocument = .ok Graph.sketch) := by
  have hnodup : (Graph.annotatedRead.nodes.map Node.id).Nodup := by decide
  have hplaced : Graph.annotatedRead.IsPlaced := by
    intro node hmem
    cases List.mem_singleton.1 hmem
    exact ⟨by decide +kernel, by decide +kernel⟩
  have hrange : Document.sketch.InRange := by
    have hhalf : (0.5 : Float).isFinite = true := by decide +kernel
    simp [Document.sketch, Document.InRange.int, Document.InRange.float, hhalf]
  have hsketch : Graph.ofEditorDocument Document.sketch = .ok Graph.sketch := rfl
  have htext : Graph.ofEditorText Graph.sketchText = .ok Graph.sketch := by decide +kernel
  exact ⟨⟨hnodup, hplaced, reimport_completes.1 _ hnodup hplaced⟩,
    ⟨hrange, hsketch, reimport_completes.2.1 _ _ hrange hsketch⟩,
    ⟨htext, reimport_completes.2.2 _ _ htext⟩⟩

end FlowTrace
