import FlowTrace.Json.Document
import FlowTrace.Trace.Step

/-!
# The stored form of steps

Steps as JSON.  The member `metadata` is left out when there are no facts.
-/

namespace FlowTrace

namespace ElementState

def ofDocument? (document : Document) : Option ElementState := do
  ofName? (← document.choice?)

end ElementState

namespace Action

def ofDocument? (document : Document) : Option Action := do
  ofName? (← document.choice?)

end Action

namespace Event

def ofDocument? (document : Document) : Option Event := do
  ofName? (← document.choice?)

end Event

namespace Element

def toJson (element : Element) : Json :=
  .object
    [("value", .ofFloat element.value), ("state", .string element.state.name),
      ("position", .ofNat element.position)]

def ofDocument? (document : Document) : Option Element := do
  match ← document.record? [["value"], ["state"], ["position"]] with
  | [some value, some state, some position] =>
      return {
        value := ← value.number?
        state := ← ElementState.ofDocument? state
        position := ← position.nat? }
  | _ => none

end Element

namespace Step

def toJson (step : Step) : Json :=
  .object
    ([("arrayState", .array (step.elements.map Element.toJson)),
      ("highlightedIndices", .array (step.highlighted.map .ofNat)),
      ("description", .string step.description), ("action", .string step.action.name)] ++
    if step.metadata.isEmpty then [] else [("metadata", .object step.metadata.entries)])

def ofDocument? (document : Document) : Option Step := do
  match ← document.record? [["arrayState"], ["highlightedIndices"], ["description"], ["action"],
      ["metadata"]] with
  | [some elements, some highlighted, some description, some action, metadata] =>
      return {
        elements := ← elements.list? Element.ofDocument?
        highlighted := ← highlighted.list? Document.nat?
        description := ← description.string?
        action := ← Action.ofDocument? action
        metadata := ← match metadata with
          | some metadata => metadata.members?.map Table.ofList
          | none => some ∅ }
  | _ => none

end Step
end FlowTrace
