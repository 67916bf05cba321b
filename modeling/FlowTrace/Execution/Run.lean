import FlowTrace.Execution.Effect

/-!
# Runs

A run walks a graph from its start node, one node at a time.  Where an output leads nowhere, the run
goes back to the innermost loop; outside of loops it ends there.

This file defines:
- `Run.dispatch`, the move over one node;
- `State.step`, the move together with the checks before it;
- `Graph.execute?`, a whole run within a given number of moves.
-/

namespace FlowTrace

structure Settings where
  /-- The run is broken off when this many steps have been recorded. -/
  stepLimit : Option Nat := none
  /-- Variables bound at the beginning; a later binding of a name wins. -/
  bindings : List (String × Value) := []

structure Run where
  context : Context
  trace : Trace := #[]

namespace Run

def record (run : Run) (draft : Draft) : Run :=
  { run with trace := run.trace.record run.context.array draft }

def fail (run : Run) (error : RunError) : Run :=
  let draft :=
    Draft.new .custom .error s!"Error: {error.message}"
      |>.flagError error.message
      |>.noteAll run.context.loopFacts
  let failed := run.record draft
  { failed with context := { failed.context with error := some error } }

def pathEndedDraft (node : Node) (handle : String) : Draft :=
  let description := s!"Execution path ended at {node.kind.tag} ('{node.id}') " ++
    "without reaching an end node"
  Draft.new .custom .pathEnded description
    |>.note "nodeId" (.string node.id)
    |>.note "handle" (.string handle)

def bodyCompleteDraft (context : Context) (frame : LoopFrame) : Draft :=
  let number := frame.iteration + 1
  let current := formatNumber frame.current
  let description :=
    s!"Loop body complete for iteration {number} ({frame.variableName} = {current})"
  Draft.new .custom .loopBodyComplete description
    |>.noteAll context.loopFacts
    |>.note "loopNodeId" (.string frame.node)

/-- Moves on from an output of a node: along its connection, or back to the innermost loop. -/
def advance (index : Index) (run : Run) (node : Node) (handle : String) : Run × Option NodeId :=
  match index.next? node.id handle with
  | some next => (run, some next)
  | none =>
      match run.context.loops with
      | [] => (run.record (pathEndedDraft node handle), none)
      | frame :: _ =>
          (run.record (bodyCompleteDraft run.context frame), (index.node? frame.node).map Node.id)

/-- Performs a node and moves on; gives the node to go on with, if any. -/
def dispatch (index : Index) (run : Run) (node : Node) : Run × Option NodeId :=
  let effect := index.perform run.context node
  let performed := { run with context := effect.context }.record effect.draft
  match effect.exit with
  | some handle => performed.advance index node handle
  | none => (performed, none)

end Run

structure State where
  run : Run
  /-- The node to go on with. -/
  current : NodeId
  /-- The node that led there. -/
  previous : NodeId

inductive Progress
  | running (state : State)
  | ended (run : Run)

namespace State

/-- One move: the limit is checked first, then the node is looked up and performed. -/
def step (index : Index) (stepLimit : Option Nat) (state : State) : Progress :=
  match stepLimit.filter (· ≤ state.run.trace.size) with
  | some limit => .ended (state.run.fail (.stepLimitExceeded limit))
  | none =>
      match index.node? state.current with
      | none => .ended (state.run.fail (.nodeNotFound state.current state.previous))
      | some node =>
          match state.run.dispatch index node with
          | (run, some next) => .running { run, current := next, previous := node.id }
          | (run, none) => .ended run

/-- The end of a run, if it comes within a given number of moves. -/
def runFor (index : Index) (stepLimit : Option Nat) : Nat → State → Option Run
  | 0, _ => none
  | moves + 1, state =>
      match state.step index stepLimit with
      | .running state => runFor index stepLimit moves state
      | .ended run => some run

end State

structure Outcome where
  steps : List Step
  bindings : Table Value
  finalArray : Array Float
  completed : Bool
  error : Option RunError
deriving DecidableEq

def Run.outcome (run : Run) : Outcome where
  steps := run.trace.toList
  bindings := run.context.bindings
  finalArray := run.context.array
  completed := run.context.completed
  error := run.context.error

namespace Graph

def initialContext (array : Array Float) (settings : Settings) : Context where
  array
  bindings := .ofList settings.bindings

def initialState (start : Node) (array : Array Float) (settings : Settings) : State where
  run := { context := initialContext array settings }
  current := start.id
  previous := start.id

/-- Runs a graph on an array; gives nothing if the run does not end within a number of moves. -/
def execute? (graph : Graph) (array : Array Float) (settings : Settings) (moves : Nat) :
    Option Outcome :=
  match graph.nodesOfKind .start with
  | [] =>
      let context := { initialContext array settings with error := some .missingStart }
      some (Run.outcome { context })
  | start :: _ =>
      ((initialState start array settings).runFor graph.index settings.stepLimit moves).map
        Run.outcome

end Graph
end FlowTrace
