import FlowTrace.Graph.Reachability
import FlowTrace.Graph.Rejection
import FlowTrace.Value

/-!
# Validation

The check of a whole graph before it is run.  Faults make a graph unfit to run or ambiguous;
warnings point at likely mistakes that a run tolerates.
-/

namespace FlowTrace

inductive Fault
  | noStart
  | severalStarts (nodes : List NodeId)
  | noEnd
  | danglingConnection (connection : ConnectionId)
  | invalidConnection (connection : Connection) (reason : Rejection)
deriving DecidableEq, Repr

namespace Fault

def node? : Fault → Option NodeId
  | invalidConnection connection _ => some connection.target
  | _ => none

def message : Fault → String
  | noStart => "Graph has no start node"
  | severalStarts nodes =>
      let listed := ", ".intercalate nodes
      s!"Graph has {nodes.length} start nodes ({listed}); exactly one is allowed"
  | noEnd => "Graph has no end node"
  | danglingConnection connection =>
      s!"Connection '{connection}' references a node that does not exist"
  | invalidConnection connection reason =>
      s!"Connection '{connection.id}' from '{connection.source}' is invalid: {reason.message}"

end Fault

inductive Warning
  | unreachable (node : NodeId) (kind : NodeKind)
  | unresolved (node : NodeId) (input : Handle)
deriving DecidableEq, Repr

namespace Warning

def node : Warning → NodeId
  | unreachable node _ => node
  | unresolved node _ => node

def message : Warning → String
  | unreachable _ kind => s!"{kind.label} node is not reachable from the start node"
  | unresolved _ input =>
      s!"Input '{input.id}' has no connection and no literal; it will read as " ++
        (Value.zero input.kind).display

end Warning

structure Report where
  faults : List Fault
  warnings : List Warning
deriving DecidableEq, Repr

def Report.isValid (report : Report) : Bool :=
  report.faults.isEmpty

namespace Graph

def startFaults (graph : Graph) : List Fault :=
  match graph.nodesOfKind .start with
  | [] => [.noStart]
  | [_] => []
  | starts => [.severalStarts (starts.map Node.id)]

def endFaults (graph : Graph) : List Fault :=
  if (graph.nodesOfKind .finish).isEmpty then [.noEnd] else []

def connectionFault? (graph : Graph) (earlier : List Connection) (connection : Connection) :
    Option Fault :=
  if (graph.node? connection.source).isSome && (graph.node? connection.target).isSome then
    (graph.rejectionAmong? earlier connection.toEndpoints).map (.invalidConnection connection)
  else
    some (.danglingConnection connection.id)

def connectionFaultsAfter (graph : Graph) (earlier : List Connection) : List Connection → List Fault
  | [] => []
  | connection :: later =>
      (graph.connectionFault? earlier connection).toList ++
        graph.connectionFaultsAfter (connection :: earlier) later

/-- The faults of all connections; each is checked against those in front of it. -/
def connectionFaults (graph : Graph) : List Fault :=
  graph.connectionFaultsAfter [] graph.connections

/-- Warnings about nodes that a run from the first start node cannot need. -/
def unreachableWarnings (graph : Graph) : List Warning :=
  match graph.nodesOfKind .start with
  | [] => []
  | start :: _ =>
      let reached := graph.reachable start.id
      (graph.nodes.filter fun node => !reached.contains node.id).map fun node =>
        .unreachable node.id node.kind

/-- Whether an input has neither a connection nor a literal.  An array access without an array reads
the working array, so that input needs neither. -/
def isUnresolved (graph : Graph) (node : Node) (input : Handle) : Bool :=
  !input.kind.isExecution && !(node.kind = .arrayAccess && input.id = "array") &&
    (graph.incoming node.id input.id).isEmpty && !(node.data.get? input.id).any (!·.isNull)

def unresolvedWarnings (graph : Graph) : List Warning :=
  graph.nodes.flatMap fun node =>
    (node.kind.inputs.filter (graph.isUnresolved node)).map (.unresolved node.id)

def validate (graph : Graph) : Report where
  faults := graph.startFaults ++ graph.endFaults ++ graph.connectionFaults
  warnings := graph.unreachableWarnings ++ graph.unresolvedWarnings

end Graph
end FlowTrace
