import FlowTrace.Value

/-!
# Comparators

The comparisons that conditions and array comparisons make.  Two arrays are equal when their items
are; in every other case values compare as numbers.
-/

namespace FlowTrace

inductive Comparator
  | equal
  | notEqual
  | greater
  | less
  | greaterOrEqual
  | lessOrEqual
deriving DecidableEq, Repr, Inhabited

namespace Comparator

def symbol : Comparator → String
  | equal => "=="
  | notEqual => "!="
  | greater => ">"
  | less => "<"
  | greaterOrEqual => ">="
  | lessOrEqual => "<="

/-- Reads a symbol, blanks around it aside; equality may also be written with a third sign. -/
def ofSymbol? (text : String) : Option Comparator :=
  match Text.trim text with
  | "==" | "===" => some equal
  | "!=" | "!==" => some notEqual
  | ">" => some greater
  | "<" => some less
  | ">=" => some greaterOrEqual
  | "<=" => some lessOrEqual
  | _ => none

/-- Compares two numbers; one that is not a number differs from all and is in no order. -/
def holdsOfNumbers (comparator : Comparator) (left right : Float) : Bool :=
  match comparator with
  | equal => left.beq right
  | notEqual => !left.beq right
  | greater => right < left
  | less => left < right
  | greaterOrEqual => right ≤ left
  | lessOrEqual => left ≤ right

def holds (comparator : Comparator) (left right : Value) : Bool :=
  match comparator, left, right with
  | equal, .array l, .array r => l.isEqv r Float.beq
  | notEqual, .array l, .array r => !l.isEqv r Float.beq
  | _, _, _ => comparator.holdsOfNumbers left.asNumber right.asNumber

end Comparator

example : Comparator.equal.holds (.array #[0.0]) (.array #[-0.0]) = true := by decide +kernel
example : Comparator.notEqual.holds (.array #[0.0 / 0.0]) (.array #[0.0 / 0.0]) = true := by
  decide +kernel

end FlowTrace
