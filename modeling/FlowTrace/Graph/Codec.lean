import FlowTrace.Graph.Basic
import FlowTrace.Json.Parser

/-!
# The stored form of graphs

Graphs, nodes and connections as JSON.  A stored graph is complete: every connection has its id, and
the parameters of a node are exactly those written.
-/

namespace FlowTrace

namespace Position

def toJson (position : Position) : Json :=
  .object [("x", .ofFloat position.x), ("y", .ofFloat position.y)]

def ofDocument? (document : Document) : Option Position := do
  match ← document.record? [["x"], ["y"]] with
  | [some x, some y] => return { x := ← x.number?, y := ← y.number? }
  | _ => none

end Position

namespace HandleKind

def ofDocument? (document : Document) : Option HandleKind := do
  ofName? (← document.choice?)

end HandleKind

namespace Direction

def ofDocument? (document : Document) : Option Direction := do
  ofName? (← document.choice?)

end Direction

namespace NodeKind

def ofDocument? (document : Document) : Option NodeKind := do
  ofTag? (← document.choice?)

end NodeKind

namespace Node

def toJson (node : Node) : Json :=
  .object
    [("id", .string node.id), ("type", .string node.kind.tag), ("position", node.position.toJson),
      ("data", .object node.data.entries)]

def parametersOfDocument? (document : Document) : Option (Table Json) :=
  document.members?.map Table.ofList

def ofDocument? (document : Document) : Option Node := do
  match ← document.record? [["id"], ["type"], ["position"], ["data"]] with
  | [some id, some kind, position, data] =>
      return {
        id := ← id.string?
        kind := ← NodeKind.ofDocument? kind
        position := ← match position with
          | some position => Position.ofDocument? position
          | none => some {}
        data := ← match data with
          | some data => parametersOfDocument? data
          | none => some ∅ }
  | _ => none

end Node

namespace Endpoints

def members (ends : Endpoints) : List (String × Json) :=
  [("source", .string ends.source), ("sourceHandle", .string ends.sourceHandle),
    ("target", .string ends.target), ("targetHandle", .string ends.targetHandle)]

def toJson (ends : Endpoints) : Json :=
  .object ends.members

def ofFields? : List (Option Document) → Option Endpoints
  | [some source, some sourceHandle, some target, some targetHandle] =>
      return {
        source := ← source.string?
        sourceHandle := ← sourceHandle.string?
        target := ← target.string?
        targetHandle := ← targetHandle.string? }
  | _ => none

def ofDocument? (document : Document) : Option Endpoints := do
  ofFields? (← document.record? [["source"], ["sourceHandle"], ["target"], ["targetHandle"]])

end Endpoints

namespace Connection

def toJson (connection : Connection) : Json :=
  .object (("id", .string connection.id) :: connection.toEndpoints.members)

def ofDocument? (document : Document) : Option Connection := do
  match ← document.record? [["id"], ["source"], ["sourceHandle"], ["target"], ["targetHandle"]] with
  | some id :: ends => return { id := ← id.string?, toEndpoints := ← Endpoints.ofFields? ends }
  | _ => none

end Connection

namespace Graph

def toJson (graph : Graph) : Json :=
  .object
    [("nodes", .array (graph.nodes.map Node.toJson)),
      ("connections", .array (graph.connections.map Connection.toJson))]

def ofDocument? (document : Document) : Option Graph := do
  match ← document.record? [["nodes"], ["connections"]] with
  | [some nodes, some connections] =>
      return {
        nodes := ← nodes.list? Node.ofDocument?
        connections := ← connections.list? Connection.ofDocument? }
  | _ => none

def ofText? (text : String) : Option Graph := do
  ofDocument? (← Document.parse? text)

end Graph
end FlowTrace
