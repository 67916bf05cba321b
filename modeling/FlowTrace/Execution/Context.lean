import FlowTrace.Comparator
import FlowTrace.Graph.Basic

/-!
# The context of a run

What a run remembers between two nodes: variables, the working array, the loops it is inside of, and
the last reads of array accesses.
-/

namespace FlowTrace

inductive RunError
  | missingStart
  | nodeNotFound (node source : NodeId)
  | stepLimitExceeded (limit : Nat)
deriving DecidableEq, Repr

namespace RunError

def message : RunError → String
  | missingStart => "No start node found in the graph"
  | nodeNotFound node source =>
      s!"Execution reached node '{node}' (from '{source}'), which is not in the graph"
  | stepLimitExceeded limit => s!"Execution stopped after reaching the limit of {limit} steps"

end RunError

structure LoopFrame where
  node : NodeId
  variableName : String
  current : Float
  /-- The bound that `current` has to stay below. -/
  bound : Float
  /-- The number of iterations before the current one. -/
  iteration : Nat
deriving DecidableEq, Repr, Inhabited

/-- What a run remembers between two nodes. -/
structure Context where
  bindings : Table Value := ∅
  array : Array Float
  /-- The loops, innermost first. -/
  loops : List LoopFrame := []
  /-- The values last read by array accesses, by node. -/
  reads : Table Value := ∅
  completed : Bool := false
  error : Option RunError := none
deriving DecidableEq, Inhabited

namespace Context

def valueOf? (context : Context) (name : String) : Option Value :=
  context.bindings.get? name

def setVariable (context : Context) (name : String) (value : Value) : Context :=
  { context with bindings := context.bindings.insert name value }

def innermost? (context : Context) : Option LoopFrame :=
  context.loops.head?

def loopOf? (context : Context) (node : NodeId) : Option LoopFrame :=
  context.loops.find? (·.node = node)

/-- Facts about the innermost loop; none outside of loops. -/
def loopFacts (context : Context) : Table Json :=
  match context.loops with
  | [] => ∅
  | frame :: _ =>
      .ofList
        [("loopVariable", .string frame.variableName), ("loopValue", .ofFloat frame.current),
          ("loopIteration", .ofNat (frame.iteration + 1))]

def bindingsJson (context : Context) : Json :=
  .object (context.bindings.map Value.toJson).entries

/-- The value of a literal.  A text that names a variable, blanks around it aside, reads it. -/
def literal? (context : Context) (literal : Json) : Option Value :=
  match literal.string?.bind fun text => context.valueOf? (Text.trim text) with
  | some value => some value
  | none => Value.ofLiteral? literal

end Context
end FlowTrace
