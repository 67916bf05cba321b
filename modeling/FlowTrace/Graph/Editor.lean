import FlowTrace.Graph.Codec

/-!
# Graphs exported by an editor

An editor exports what its user drew: the type of a node is any text, places and parameters may be
missing, and connections need no id.  `EditorGraph.toGraph` turns that into a graph or says what is
wrong with it.
-/

namespace FlowTrace

structure EditorNode where
  id : NodeId
  type : String
  position : Option Position := none
  data : Table Json

structure EditorConnection extends Endpoints where
  id : Option ConnectionId

structure EditorGraph where
  nodes : List EditorNode
  connections : List EditorConnection := []

inductive ImportError
  /-- The text is not JSON of the right shape. -/
  | malformed
  | unknownType (node : NodeId) (type : String)
  | repeatedId (id : NodeId)
deriving DecidableEq, Repr

namespace ImportError

def message : ImportError → String
  | malformed => "Failed to parse graph JSON: "
  | unknownType node type => s!"Node '{node}' has an unknown node type: '{type}'"
  | repeatedId id => s!"Invalid graph data: Node id '{id}' is used more than once"

end ImportError

namespace EditorNode

def ofDocument? (document : Document) : Option EditorNode := do
  match ← document.record? [["id"], ["type"], ["position"], ["data"]] with
  | [some id, some type, position, data] =>
      return {
        id := ← id.string?
        type := ← type.string?
        position := ← match position with
          | some position => position.nullable? Position.ofDocument?
          | none => some none
        data := ← match data with
          | some data => Node.parametersOfDocument? data
          | none => some ∅ }
  | _ => none

/-- The node that is meant; its parameters lie over those of the catalog. -/
def toNode (node : EditorNode) : Except ImportError Node :=
  match NodeKind.ofTag? node.type with
  | some kind =>
      .ok {
        id := node.id
        kind
        position := node.position.getD {}
        data := kind.defaults.extend node.data }
  | none => .error (.unknownType node.id node.type)

end EditorNode

namespace EditorConnection

def ofDocument? (document : Document) : Option EditorConnection := do
  match ← document.record? [["id"], ["source"], ["source_handle", "sourceHandle"], ["target"],
      ["target_handle", "targetHandle"]] with
  | id :: ends =>
      return {
        id := ← match id with
          | some id => id.nullable? Document.string?
          | none => some none
        toEndpoints := ← Endpoints.ofFields? ends }
  | _ => none

/-- The connection at a place of the list; without an id it is named after its place. -/
def toConnection (place : Nat) (connection : EditorConnection) : Connection where
  toEndpoints := connection.toEndpoints
  id := connection.id.getD s!"conn-{place}"

end EditorConnection

/-- The first item that also stands further in front. -/
def firstRepeated? (seen : List String) : List String → Option String
  | [] => none
  | item :: items =>
      if seen.contains item then some item else firstRepeated? (item :: seen) items

namespace EditorGraph

def ofDocument? (document : Document) : Option EditorGraph := do
  match ← document.record? [["nodes"], ["connections", "edges"]] with
  | [some nodes, connections] =>
      return {
        nodes := ← nodes.list? EditorNode.ofDocument?
        connections := ← match connections with
          | some connections => connections.list? EditorConnection.ofDocument?
          | none => some [] }
  | _ => none

def ofText (text : String) : Except ImportError EditorGraph :=
  match Document.parse? text >>= ofDocument? with
  | some graph => .ok graph
  | none => .error .malformed

/-- The graph that is meant: node types must be known, and then no id may repeat. -/
def toGraph (graph : EditorGraph) : Except ImportError Graph := do
  let nodes ← graph.nodes.mapM EditorNode.toNode
  match firstRepeated? [] (nodes.map Node.id) with
  | some id => throw (.repeatedId id)
  | none =>
      return {
        nodes
        connections := graph.connections.mapIdx fun i c => c.toConnection (i + 1) }

end EditorGraph

def Graph.ofEditorText (text : String) : Except ImportError Graph := do
  let graph ← EditorGraph.ofText text
  graph.toGraph

end FlowTrace
