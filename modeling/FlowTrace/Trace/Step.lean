import FlowTrace.Json.Basic
import FlowTrace.Table

/-!
# Steps

A step is a complete picture of the working array at one moment of a run, with a description of what
happened and named facts about it.
-/

namespace FlowTrace

inductive ElementState
  | plain
  | comparing
  | swapping
  | highlighted
deriving DecidableEq, Repr, Inhabited

namespace ElementState

def all : List ElementState :=
  [plain, comparing, swapping, highlighted]

def name : ElementState → String
  | plain => "default"
  | comparing => "comparing"
  | swapping => "swapping"
  | highlighted => "highlighted"

def ofName? (name : String) : Option ElementState :=
  all.find? (·.name = name)

theorem ofName?_name (state : ElementState) : ofName? state.name = some state := by
  cases state <;> decide

end ElementState

/-- The broad sort of a step, for choosing an animation. -/
inductive Action
  | compare
  | swap
  | traverse
  | highlight
  | pause
  | custom
deriving DecidableEq, Repr, Inhabited

namespace Action

def all : List Action :=
  [compare, swap, traverse, highlight, pause, custom]

def name : Action → String
  | compare => "compare"
  | swap => "swap"
  | traverse => "traverse"
  | highlight => "highlight"
  | pause => "pause"
  | custom => "custom"

def ofName? (name : String) : Option Action :=
  all.find? (·.name = name)

theorem ofName?_name (action : Action) : ofName? action.name = some action := by
  cases action <;> decide

end Action

inductive Event
  | started
  | completed
  | pathEnded
  | loopIteration
  | loopSkipped
  | loopComplete
  | loopBodyComplete
  | comparison
  | arrayAccess
  | arrayCompare
  | arraySwap
  | arrayHighlight
  | variableSet
  | variableGet
  | counterIncrement
  | narration
  | pause
  | error
deriving DecidableEq, Repr, Inhabited

namespace Event

def all : List Event :=
  [started, completed, pathEnded, loopIteration, loopSkipped, loopComplete, loopBodyComplete,
    comparison, arrayAccess, arrayCompare, arraySwap, arrayHighlight, variableSet, variableGet,
    counterIncrement, narration, pause, error]

def name : Event → String
  | started => "started"
  | completed => "completed"
  | pathEnded => "path-ended"
  | loopIteration => "loop-iteration"
  | loopSkipped => "loop-skipped"
  | loopComplete => "loop-complete"
  | loopBodyComplete => "loop-body-complete"
  | comparison => "comparison"
  | arrayAccess => "array-access"
  | arrayCompare => "array-compare"
  | arraySwap => "array-swap"
  | arrayHighlight => "array-highlight"
  | variableSet => "variable-set"
  | variableGet => "variable-get"
  | counterIncrement => "counter-increment"
  | narration => "narration"
  | pause => "pause"
  | error => "error"

def ofName? (name : String) : Option Event :=
  all.find? (·.name = name)

theorem ofName?_name (event : Event) : ofName? event.name = some event := by
  cases event <;> decide

end Event

structure Element where
  value : Float
  state : ElementState
  position : Nat
deriving DecidableEq, Repr, Inhabited

structure Step where
  elements : List Element
  highlighted : List Nat
  description : String
  action : Action
  /-- Named facts about the step. -/
  metadata : Table Json
deriving DecidableEq, Inhabited

namespace Step

def event? (step : Step) : Option String := do
  (← step.metadata.get? "event").string?

def isEvent (step : Step) (event : Event) : Bool :=
  step.event? = some event.name

/-- Whether the step reports an error, recovered from or not. -/
def isError (step : Step) : Bool :=
  ((step.metadata.get? "error").bind Json.bool?).getD false

def values (step : Step) : List Float :=
  step.elements.map (·.value)

end Step
end FlowTrace
