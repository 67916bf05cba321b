import FlowTrace.Trace.Draft
import FlowTrace.Value

/-!
# Traces as text

A trace is listed one numbered line per step, the numbers aligned to the right.  Marked elements of
the array stand in brackets, and a step that reports an error ends in an exclamation mark.
-/

namespace FlowTrace

def alignRight (width : Nat) (text : String) : String :=
  String.ofList (List.replicate (width - text.length) ' ') ++ text

namespace Element

/-- The text of an element: its value in the brackets of its state. -/
def display (element : Element) : String :=
  let value := formatNumber element.value
  match element.state with
  | .plain => value
  | .comparing => "<" ++ value ++ ">"
  | .swapping => "\x7b" ++ value ++ "\x7d"
  | .highlighted => "[" ++ value ++ "]"

end Element

namespace Step

def line (step : Step) : String :=
  let picture := " ".intercalate (step.elements.map Element.display)
  "[" ++ step.action.name ++ "] " ++ step.description ++
    (if step.elements.isEmpty then "" else "  | " ++ picture) ++
    (if step.isError then "  (!)" else "")

/-- The lines of a trace, without a line break at the end. -/
def listing (steps : List Step) : String :=
  let width := (toString steps.length).length
  "\n".intercalate (steps.mapIdx fun i step =>
    alignRight width (toString (i + 1)) ++ ". " ++ step.line)

end Step
end FlowTrace
