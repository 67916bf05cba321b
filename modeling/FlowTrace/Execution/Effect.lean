import FlowTrace.Execution.Narration
import FlowTrace.Execution.Resolution
import FlowTrace.Trace.Draft

/-!
# What a node does

Performing a node has one effect: a new context, a step that reports it, and the output by which
execution goes on.  An index beyond the array is reported and otherwise ignored.

This file defines:
- `Effect`;
- the effect of each kind of node;
- `Index.perform`, the effect of any node.
-/

namespace FlowTrace

structure Effect where
  context : Context
  /-- The step to record, against the array of the new context. -/
  draft : Draft
  /-- The output by which execution goes on; none after an end node. -/
  exit : Option String := some execOut

namespace Context

/-- An effect whose step carries the facts about the innermost loop. -/
def effect (context : Context) (draft : Draft) : Effect where
  context
  draft := draft.noteAll context.loopFacts

def effectVia (context : Context) (exit : String) (draft : Draft) : Effect :=
  { context.effect draft with exit := some exit }

/-! ## Start and end -/

def performStart (context : Context) : Effect where
  context
  draft :=
    Draft.new .custom .started "Algorithm started"
      |>.note "arrayLength" (.ofNat context.array.size)

def performEnd (context : Context) : Effect where
  context := { context with completed := true }
  draft :=
    Draft.new .custom .completed "Algorithm complete"
      |>.note "complete" (.bool true)
      |>.note "variables" context.bindingsJson
  exit := none

/-! ## Loops -/

/-- The step that opens an iteration; it marks the element that the loop stands at. -/
def iterationDraft (context : Context) (frame : LoopFrame) : Draft :=
  let number := frame.iteration + 1
  let current := formatNumber frame.current
  let description := s!"Loop iteration {number}: {frame.variableName} = {current}"
  let draft :=
    match (Value.number frame.current).asIndex.filter (· < context.array.size) with
    | some i => Draft.new .highlight .loopIteration description |>.highlight i .highlighted
    | none => Draft.new .custom .loopIteration description
  draft
    |>.note "loopNodeId" (.string frame.node)
    |>.note "end" (.ofFloat frame.bound)

def iterate (context : Context) (frame : LoopFrame) (outer : List LoopFrame) : Effect :=
  let inside := { context with loops := frame :: outer }
  inside.effectVia "body" (inside.iterationDraft frame)

def skippedDraft (frame : LoopFrame) : Draft :=
  let current := formatNumber frame.current
  let bound := formatNumber frame.bound
  let description := s!"Loop skipped: {frame.variableName} = {current} is not below {bound}"
  Draft.new .custom .loopSkipped description
    |>.note "loopVariable" (.string frame.variableName)
    |>.note "iterations" (.ofNat 0)
    |>.note "start" (.ofFloat frame.current)
    |>.note "end" (.ofFloat frame.bound)

def finishedDraft (frame : LoopFrame) : Draft :=
  let plural := if frame.iteration = 1 then "" else "s"
  let description :=
    s!"Loop over {frame.variableName} complete after {frame.iteration} iteration{plural}"
  Draft.new .custom .loopComplete description
    |>.note "loopVariable" (.string frame.variableName)
    |>.note "iterations" (.ofNat frame.iteration)

/-- Comes to a loop from outside: its bounds are read once and for all. -/
def enterLoop (context : Context) (node : Node) (read : String → Value) : Effect :=
  let frame : LoopFrame :=
    { node := node.id
      variableName := node.textOr "variable" "i"
      current := (read "start").asNumber
      bound := (read "end").asNumber
      iteration := 0 }
  let context := context.setVariable frame.variableName (.number frame.current)
  if frame.current < frame.bound then
    context.iterate frame context.loops
  else
    context.effectVia "complete" (skippedDraft frame)

/-- Comes back to a loop: loops inside of it are given up, and it moves on by one. -/
def reenterLoop (context : Context) (frame : LoopFrame) (outer : List LoopFrame) : Effect :=
  let frame := { frame with current := frame.current + 1.0, iteration := frame.iteration + 1 }
  let context := context.setVariable frame.variableName (.number frame.current)
  if frame.current < frame.bound then
    context.iterate frame outer
  else
    { context with loops := outer }.effectVia "complete" (finishedDraft frame)

def performLoop (context : Context) (node : Node) (read : String → Value) : Effect :=
  match context.loops.dropWhile (·.node ≠ node.id) with
  | frame :: outer => context.reenterLoop frame outer
  | [] => context.enterLoop node read

/-! ## Conditions -/

def performCondition (context : Context) (node : Node) (read : String → Value) : Effect :=
  let left := read "left"
  let right := read "right"
  let comparator := node.comparator .equal
  let result := comparator.holds left right
  let shown := (Value.bool result).display
  let description := s!"Compare {left.display} {comparator.symbol} {right.display} → {shown}"
  let draft :=
    Draft.new .compare .comparison description
      |>.note "left" left.toJson
      |>.note "right" right.toJson
      |>.note "operator" (.string comparator.symbol)
      |>.note "result" (.bool result)
  context.effectVia (if result then "true" else "false") draft

/-! ## The array -/

def outOfBoundsMessage (indices : List Value) (size : Nat) : String :=
  let shown := ", ".intercalate (indices.map Value.display)
  s!"Index {shown} is out of bounds for an array of length {size}"

def outOfBounds (context : Context) (node : Node) (action : Action) (event : Event)
    (indices : List Value) : Effect :=
  let message := outOfBoundsMessage indices context.array.size
  let draft :=
    Draft.new action event message
      |>.flagError message
      |>.note "outOfBounds" (.bool true)
      |>.note "nodeId" (.string node.id)
  context.effect draft

def position? (context : Context) (index : Value) : Option (Fin context.array.size) := do
  let i ← index.asIndex
  if h : i < context.array.size then some ⟨i, h⟩ else none

/-- An access to the array that is fed in, or else to the working array. -/
def performAccess (context : Context) (node : Node) (read : String → Value)
    (array : Option Value) : Effect :=
  let index := read "index"
  let (items, isWorking) := context.accessedArray array
  match index.asIndex.bind fun i => items[i]?.map fun x => (i, x) with
  | some (i, x) =>
      let shown := formatNumber x
      let draft :=
        Draft.new .traverse .arrayAccess s!"Accessed array[{i}] = {shown}"
          |>.note "index" (.ofNat i)
          |>.note "value" (.ofFloat x)
      { context with reads := context.reads.insert node.id (.number x) }.effect
        (if isWorking then draft.highlight i .highlighted else draft)
  | none =>
      let message := outOfBoundsMessage [index] items.size
      let draft :=
        Draft.new .traverse .arrayAccess message
          |>.flagError message
          |>.note "outOfBounds" (.bool true)
          |>.note "index" index.toJson
      { context with reads := context.reads.erase node.id }.effect draft

def performCompare (context : Context) (node : Node) (read : String → Value) : Effect :=
  match context.position? (read "i"), context.position? (read "j") with
  | some i, some j =>
      let comparator := node.comparator .greater
      let result := comparator.holds (.number context.array[i]) (.number context.array[j])
      let a := formatNumber context.array[i]
      let b := formatNumber context.array[j]
      let shown := (Value.bool result).display
      let description :=
        s!"Compare array[{i}] ({a}) {comparator.symbol} array[{j}] ({b}) → {shown}"
      let draft :=
        Draft.new .compare .arrayCompare description
          |>.highlight i .comparing
          |>.highlight j .comparing
          |>.note "i" (.ofNat i)
          |>.note "j" (.ofNat j)
          |>.note "operator" (.string comparator.symbol)
          |>.note "result" (.bool result)
      context.effect draft
  | _, _ => context.outOfBounds node .compare .arrayCompare [read "i", read "j"]

def performSwap (context : Context) (node : Node) (read : String → Value) : Effect :=
  match context.position? (read "i"), context.position? (read "j") with
  | some i, some j =>
      let a := formatNumber context.array[i]
      let b := formatNumber context.array[j]
      let draft :=
        Draft.new .swap .arraySwap s!"Swapped array[{i}] = {a} and array[{j}] = {b}"
          |>.highlight i .swapping
          |>.highlight j .swapping
          |>.note "i" (.ofNat i)
          |>.note "j" (.ofNat j)
      { context with array := context.array.swap i j }.effect draft
  | _, _ => context.outOfBounds node .swap .arraySwap [read "i", read "j"]

def performHighlight (context : Context) (node : Node) (read : String → Value) : Effect :=
  match context.position? (read "index") with
  | some i =>
      let x := context.array[i]
      let shown := formatNumber x
      let description := node.textOr "description" s!"Highlighted array[{i}] = {shown}"
      let draft :=
        Draft.new .highlight .arrayHighlight description
          |>.highlight i .highlighted
          |>.note "index" (.ofNat i)
          |>.note "value" (.ofFloat x)
      context.effect draft
  | none => context.outOfBounds node .highlight .arrayHighlight [read "index"]

/-! ## Variables -/

def performSet (context : Context) (node : Node) (read : String → Value) (isFed : Bool) : Effect :=
  let name := node.textOr "name" "x"
  let value := read "value"
  let origin := if isFed then "from connected input" else "static value"
  let draft :=
    Draft.new .custom .variableSet s!"Set {name} = {value.display} ({origin})"
      |>.note "variable" (.string name)
      |>.note "value" value.toJson
      |>.note "source" (.string (if isFed then "data-flow" else "static"))
  (context.setVariable name value).effect draft

def performGet (context : Context) (node : Node) : Effect :=
  let name := node.textOr "name" "x"
  let value := (context.valueOf? name).getD (.number 0.0)
  let draft :=
    Draft.new .custom .variableGet s!"Read {name} = {value.display}"
      |>.note "variable" (.string name)
      |>.note "value" value.toJson
  context.effect draft

def performIncrement (context : Context) (node : Node) : Effect :=
  let name := node.textOr "name" "count"
  let next := ((context.valueOf? name).map Value.asNumber).getD 0.0 + 1.0
  let shown := formatNumber next
  let draft :=
    Draft.new .custom .counterIncrement s!"Incremented {name} to {shown}"
      |>.note "variable" (.string name)
      |>.note "value" (.ofFloat next)
  (context.setVariable name (.number next)).effect draft

/-! ## Narration and pauses -/

def performNarration (context : Context) (node : Node) (read : String → Value) : Effect :=
  let description :=
    match node.text? "template" with
    | some template => context.narrate (read "value") template
    | none => node.textOr "description" "(no description)"
  context.effect (Draft.new .custom .narration description)

/-- The length of a pause: a number that is not above zero, or none at all, counts as zero. -/
def pauseLength (x : Float) : Float :=
  if 0.0 < x then x else 0.0

def performPause (context : Context) (node : Node) : Effect :=
  let duration :=
    match (node.data.get? "duration").bind Value.ofLiteral? with
    | some value => pauseLength value.asNumber
    | none => 1000.0
  let shown := formatNumber duration
  context.effect
    (Draft.new .pause .pause s!"Paused for {shown} ms" |>.note "duration" (.ofFloat duration))

end Context

def Index.perform (index : Index) (context : Context) (node : Node) : Effect :=
  let read := index.input context node
  match node.kind with
  | .start => context.performStart
  | .finish => context.performEnd
  | .forLoop => context.performLoop node read
  | .ifCondition => context.performCondition node read
  | .arrayAccess => context.performAccess node read (index.input? context node "array")
  | .arrayCompare => context.performCompare node read
  | .arraySwap => context.performSwap node read
  | .arrayHighlight => context.performHighlight node read
  | .variableSet => context.performSet node read (index.isFed node "value")
  | .variableGet => context.performGet node
  | .counterIncrement => context.performIncrement node
  | .updateDescription => context.performNarration node read
  | .pauseExecution => context.performPause node

end FlowTrace
