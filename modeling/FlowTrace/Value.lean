import FlowTrace.Catalog.Handle
import FlowTrace.Json.Document
import FlowTrace.Number.Style
import FlowTrace.Text.Blank

/-!
# Runtime values

What flows along data connections: numbers, truth values and arrays of numbers.

This file defines:
- `Value`, its zero for each kind of handle and its views as a number and as an index;
- `Value.ofLiteral?`, which reads a parameter of a node;
- the text of a value and its JSON form.
-/

namespace FlowTrace

inductive Value
  | number (value : Float)
  | bool (value : Bool)
  | array (items : Array Float)
deriving DecidableEq, Repr, Inhabited

def formatNumber (x : Float) : String :=
  Number.Style.prose.render x

namespace Value

/-- What an input of a kind reads when nothing supplies it. -/
def zero : HandleKind → Value
  | .array => array #[]
  | .boolean => bool false
  | .execution | .number | .any => number 0.0

/-- The value as a number: truth values are 0 and 1, an array counts its items. -/
def asNumber : Value → Float
  | number x => x
  | bool b => if b then 1.0 else 0.0
  | array items => Number.ofNat items.size

def maxIndex : Nat := UInt64.size - 1

/-- The value as an index: a whole number that is not negative, capped at `maxIndex`. -/
def asIndex (value : Value) : Option Nat :=
  (Number.natural? value.asNumber).map (min maxIndex)

/-- The value of a literal.  A text counts if it is a number; items of a list that are no numbers
are passed over. -/
def ofLiteral? : Json → Option Value
  | .int n => some (number (Number.ofInt n))
  | .float x => some (number x)
  | .bool b => some (bool b)
  | .array items => some (array (items.filterMap Json.number?).toArray)
  | .string s => (Number.readFloat? (Text.trimChars s.toList)).map number
  | .null | .object _ => none

def display : Value → String
  | number x => formatNumber x
  | bool b => if b then "true" else "false"
  | array items => "[" ++ ", ".intercalate (items.toList.map formatNumber) ++ "]"

def toJson : Value → Json
  | number x => .ofFloat x
  | bool b => .bool b
  | array items => .array (items.toList.map .ofFloat)

def ofDocument? : Document → Option Value
  | .int n => some (number (Number.ofInt n))
  | .float x => some (number x)
  | .bool b => some (bool b)
  | .array items => (items.mapM Document.number?).map fun numbers => array numbers.toArray
  | _ => none

def sort : Value → String
  | number _ => "number"
  | bool _ => "bool"
  | array _ => "array"

end Value

example : (Value.number 1e30).asIndex = some 18446744073709551615 := by decide +kernel
example : (Value.array #[1.0, 0.5]).display = "[1, 0.5]" := by decide +kernel
example : Value.ofLiteral? (.string " 1e1 ") = some (.number 10.0) := by decide +kernel

end FlowTrace
