import FlowTrace.Catalog.Template
import FlowTrace.Text.Blank

/-!
# Graphs

A graph is an ordered list of nodes and an ordered list of connections between their handles.  Where
an id occurs more than once, the first node or connection with it counts.
-/

namespace FlowTrace

abbrev NodeId := String

abbrev ConnectionId := String

structure Position where
  x : Float := 0.0
  y : Float := 0.0
deriving DecidableEq, Repr, Inhabited

/-- A node: what it does and its parameters.  A parameter named like an input is the literal that
the input reads when it is not connected. -/
structure Node where
  id : NodeId
  kind : NodeKind
  position : Position := {}
  data : Table Json
deriving DecidableEq, Inhabited

namespace Node

/-- A node with the parameters of the catalog. -/
def new (id : NodeId) (kind : NodeKind) : Node where
  id
  kind
  data := kind.defaults

def withParameter (node : Node) (name : String) (value : Json) : Node :=
  { node with data := node.data.insert name value }

def input? (node : Node) (handle : String) : Option Handle :=
  node.kind.template.input? handle

def output? (node : Node) (handle : String) : Option Handle :=
  node.kind.template.output? handle

def isExecutionOutput (node : Node) (handle : String) : Bool :=
  (node.output? handle).any (·.kind.isExecution)

def isDataOutput (node : Node) (handle : String) : Bool :=
  (node.output? handle).any (!·.kind.isExecution)

def isDataInput (node : Node) (handle : String) : Bool :=
  (node.input? handle).any (!·.kind.isExecution)

/-- A text among the parameters; a blank text counts as missing. -/
def text? (node : Node) (name : String) : Option String := do
  let text ← (← node.data.get? name).string?
  if Text.isAllBlank text then none else some text

def textOr (node : Node) (name otherwise : String) : String :=
  (node.text? name).getD otherwise

end Node

structure Endpoints where
  source : NodeId
  sourceHandle : String
  target : NodeId
  targetHandle : String
deriving DecidableEq, Repr, Inhabited

structure Connection extends Endpoints where
  id : ConnectionId
deriving DecidableEq, Repr, Inhabited

namespace Connection

def leaves (connection : Connection) (node : NodeId) (handle : String) : Bool :=
  connection.source = node && connection.sourceHandle = handle

def enters (connection : Connection) (node : NodeId) (handle : String) : Bool :=
  connection.target = node && connection.targetHandle = handle

end Connection

structure Graph where
  nodes : List Node := []
  connections : List Connection := []
  /-- The last number given out in a new id.  A graph begins without any, and a call gives out one
  at most, so fewer than `2 ^ 64` calls stay within a word of 64 bits. -/
  counter : Nat := 0
deriving DecidableEq, Inhabited

namespace Graph

/-- The first node with an id. -/
def node? (graph : Graph) (id : NodeId) : Option Node :=
  graph.nodes.find? (·.id = id)

def connection? (graph : Graph) (id : ConnectionId) : Option Connection :=
  graph.connections.find? (·.id = id)

def incoming (graph : Graph) (node : NodeId) (handle : String) : List Connection :=
  graph.connections.filter (·.enters node handle)

def nodesOfKind (graph : Graph) (kind : NodeKind) : List Node :=
  graph.nodes.filter (·.kind = kind)

theorem node?_id {graph : Graph} {id : NodeId} {node : Node} (h : graph.node? id = some node) :
    node.id = id := by
  simpa using List.find?_some h

theorem mem_of_node? {graph : Graph} {id : NodeId} {node : Node} (h : graph.node? id = some node) :
    node ∈ graph.nodes :=
  List.mem_of_find?_eq_some h

end Graph
end FlowTrace
