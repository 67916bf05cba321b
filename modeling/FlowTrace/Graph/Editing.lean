import FlowTrace.Graph.Rejection

/-!
# Editing graphs

The operations of a graph editor: adding and removing nodes, changing their parameters, connecting
and disconnecting them.  An operation that fails leaves the graph as it was.
-/

namespace FlowTrace

inductive EditError
  | nodeNotFound (id : NodeId)
  | connectionNotFound (id : ConnectionId)
  | rejected (reason : Rejection)
deriving DecidableEq, Repr

namespace EditError

def message : EditError → String
  | nodeNotFound id => s!"Node '{id}' not found"
  | connectionNotFound id => s!"Connection '{id}' not found"
  | rejected reason => s!"Connection rejected: {reason.message}"

end EditError

def modifyFirst {α : Type} (p : α → Bool) (f : α → α) : List α → List α
  | [] => []
  | item :: items => if p item then f item :: items else item :: modifyFirst p f items

namespace Graph

/-! ## New ids -/

def uses (graph : Graph) (id : String) : Bool :=
  graph.nodes.any (·.id = id) || graph.connections.any (·.id = id)

def numbered (stem : String) (number : Nat) : String :=
  s!"{stem}-{number}"

/-- The first number from `number` on that gives an unused id; the search gives up after `rounds`
numbers and takes the next. -/
def freeNumber (graph : Graph) (stem : String) : (rounds number : Nat) → Nat
  | 0, number => number
  | rounds + 1, number =>
      if graph.uses (numbered stem number) then
        graph.freeNumber stem rounds (number + 1)
      else
        number

/-- The number of the next new id: the ids in use cannot cover as many numbers as are tried. -/
def nextNumber (graph : Graph) (stem : String) : Nat :=
  graph.freeNumber stem (graph.nodes.length + graph.connections.length) (graph.counter + 1)

/-- Gives out an id with a given stem that is not in use; the counter remembers its number. -/
def freshId (graph : Graph) (stem : String) : Graph × String :=
  let number := graph.nextNumber stem
  ({ graph with counter := number }, numbered stem number)

/-! ## Operations -/

/-- Adds a node with the parameters of the catalog; gives its id. -/
def addNode (graph : Graph) (kind : NodeKind) (position : Position) : Graph × NodeId :=
  let (graph, id) := graph.freshId kind.tag
  let node := { Node.new id kind with position }
  ({ graph with nodes := graph.nodes ++ [node] }, id)

/-- Removes a node and every connection that touches it; gives the node. -/
def removeNode (graph : Graph) (id : NodeId) : Except EditError (Graph × Node) :=
  match graph.node? id with
  | some node =>
      .ok
        ({ graph with
            nodes := graph.nodes.eraseP (·.id = id)
            connections := graph.connections.filter fun c => c.source ≠ id && c.target ≠ id },
          node)
  | none => .error (.nodeNotFound id)

/-- Lays parameters over those of a node. -/
def updateNode (graph : Graph) (id : NodeId) (data : Table Json) : Except EditError Graph :=
  match graph.node? id with
  | some _ =>
      .ok
        { graph with
          nodes := modifyFirst (·.id = id) (fun node => { node with data := node.data.extend data })
            graph.nodes }
  | none => .error (.nodeNotFound id)

/-- Adds a connection unless there is an objection; gives its id. -/
def addConnection (graph : Graph) (ends : Endpoints) : Except Rejection (Graph × ConnectionId) :=
  match graph.rejection? ends with
  | some reason => .error reason
  | none =>
      let (graph, id) := graph.freshId "conn"
      let connection := { toEndpoints := ends, id }
      .ok ({ graph with connections := graph.connections ++ [connection] }, id)

def connect (graph : Graph) (ends : Endpoints) : Except EditError (Graph × ConnectionId) :=
  (graph.addConnection ends).mapError .rejected

def removeConnection (graph : Graph) (id : ConnectionId) : Except EditError (Graph × Connection) :=
  match graph.connection? id with
  | some connection =>
      .ok ({ graph with connections := graph.connections.eraseP (·.id = id) }, connection)
  | none => .error (.connectionNotFound id)

end Graph
end FlowTrace
