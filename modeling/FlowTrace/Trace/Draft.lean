import FlowTrace.Trace.Step

/-!
# Recording steps

A draft gathers what a step will say.  Taking its picture of an array makes it a step, and a trace
is the list of the steps taken.
-/

namespace FlowTrace

/-- A step before its picture is taken. -/
structure Draft where
  action : Action
  description : String
  /-- Marked positions in the order of marking, no position twice. -/
  highlights : List (Nat × ElementState) := []
  metadata : Table Json

namespace Draft

def new (action : Action) (event : Event) (description : String) : Draft where
  action
  description
  metadata := Table.empty.insert "event" (.string event.name)

/-- Marks a position; the first mark of a position counts. -/
def highlight (draft : Draft) (position : Nat) (state : ElementState) : Draft :=
  if draft.highlights.any (·.1 = position) then
    draft
  else
    { draft with highlights := draft.highlights ++ [(position, state)] }

def note (draft : Draft) (name : String) (value : Json) : Draft :=
  { draft with metadata := draft.metadata.insert name value }

def flagError (draft : Draft) (message : String) : Draft :=
  draft
    |>.note "error" (.bool true)
    |>.note "errorMessage" (.string message)

/-- Records several facts; they win over facts of the same names. -/
def noteAll (draft : Draft) (facts : Table Json) : Draft :=
  { draft with metadata := draft.metadata.extend facts }

def stateAt (draft : Draft) (position : Nat) : ElementState :=
  ((draft.highlights.find? (·.1 = position)).map (·.2)).getD .plain

/-- Takes the picture: marks beyond the array are dropped. -/
def snapshot (draft : Draft) (array : Array Float) : Step where
  elements := array.toList.mapIdx fun position value =>
    { value, state := draft.stateAt position, position }
  highlighted := (draft.highlights.map (·.1)).filter (· < array.size)
  description := draft.description
  action := draft.action
  metadata := draft.metadata

end Draft

abbrev Trace := Array Step

def Trace.record (trace : Trace) (array : Array Float) (draft : Draft) : Trace :=
  trace.push (draft.snapshot array)

end FlowTrace
