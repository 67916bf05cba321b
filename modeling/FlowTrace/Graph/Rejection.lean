import FlowTrace.Graph.Basic

/-!
# Which connections are allowed

A proposed connection is checked against a graph in a fixed order, and the first objection counts:
it leads back to its own node, it exists already, a node or a handle is unknown, the kinds of the
handles do not fit, or an execution handle is taken.
-/

namespace FlowTrace

inductive Rejection
  | selfLoop (node : NodeId)
  | duplicate (ends : Endpoints)
  | unknownNode (node : NodeId)
  | unknownHandle (node : NodeId) (handle : String) (direction : Direction)
  | kindMismatch (source target : HandleKind)
  /-- An execution handle has a connection already. -/
  | occupied (node : NodeId) (handle : String) (direction : Direction)
deriving DecidableEq, Repr

namespace Rejection

def message : Rejection → String
  | selfLoop node => s!"Node '{node}' cannot connect to itself"
  | duplicate ends =>
      s!"An identical connection from '{ends.source}.{ends.sourceHandle}' to " ++
        s!"'{ends.target}.{ends.targetHandle}' already exists"
  | unknownNode node => s!"Node '{node}' was not found in the graph"
  | unknownHandle node handle direction =>
      s!"Node '{node}' has no {direction.name} handle named '{handle}'"
  | kindMismatch source target => s!"A {source.name} output cannot feed a {target.name} input"
  | occupied node handle .output =>
      s!"Execution handle '{node}.{handle}' already has an outgoing connection"
  | occupied node handle .input =>
      s!"Execution handle '{node}.{handle}' already has an incoming connection"

end Rejection

namespace Graph

/-- The objection to a connection between two known handles, given the connections there are. -/
def handleRejection? (existing : List Connection) (ends : Endpoints) (output input : Handle) :
    Option Rejection :=
  if !output.kind.compatible input.kind then
    some (.kindMismatch output.kind input.kind)
  else if output.kind.isExecution && existing.any (·.leaves ends.source ends.sourceHandle) then
    some (.occupied ends.source ends.sourceHandle .output)
  else if output.kind.isExecution && existing.any (·.enters ends.target ends.targetHandle) then
    some (.occupied ends.target ends.targetHandle .input)
  else
    none

/-- The objection to a connection between nodes of a graph, given the connections there are. -/
def rejectionAmong? (graph : Graph) (existing : List Connection) (ends : Endpoints) :
    Option Rejection :=
  if ends.source = ends.target then
    some (.selfLoop ends.source)
  else if existing.any (·.toEndpoints = ends) then
    some (.duplicate ends)
  else
    match graph.node? ends.source, graph.node? ends.target with
    | none, _ => some (.unknownNode ends.source)
    | some _, none => some (.unknownNode ends.target)
    | some source, some target =>
        match source.output? ends.sourceHandle, target.input? ends.targetHandle with
        | none, _ => some (.unknownHandle ends.source ends.sourceHandle .output)
        | some _, none => some (.unknownHandle ends.target ends.targetHandle .input)
        | some output, some input => handleRejection? existing ends output input

def rejection? (graph : Graph) (ends : Endpoints) : Option Rejection :=
  graph.rejectionAmong? graph.connections ends

end Graph
end FlowTrace
