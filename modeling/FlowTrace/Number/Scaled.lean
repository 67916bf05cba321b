import FlowTrace.Number.Numeral

/-!
# Numerals read by scaling

The quick way from a numeral to a double takes the leading digits that fit into 64 bits, rounds them
to a double and multiplies or divides that by a power of ten.  Every step rounds to the nearest
double, so the outcome may be a place off where `Decimal.toFloat` is exact.

This file defines:
- `takeFitting`, which appends digits to a number of 64 bits as long as they fit;
- `Numeral.leading`, the decimal of the leading digits of a numeral;
- `Decimal.scaled?`, the double that scaling gives for a decimal.
-/

namespace FlowTrace

namespace Number

/-! ## Leading digits -/

/-- Appends digits to a number as long as it stays below `2 ^ 64`; the first digit that does not fit
is left over with all behind it. -/
def takeFitting (n : Nat) : List Char → Nat × List Char
  | [] => (n, [])
  | c :: rest =>
      if appendDigit n c < UInt64.size then takeFitting (appendDigit n c) rest else (n, c :: rest)

/-- Appending what fits stays below `2 ^ 64`. -/
theorem takeFitting_lt {n : Nat} (h : n < UInt64.size) (digits : List Char) :
    (takeFitting n digits).1 < UInt64.size := by
  fun_induction takeFitting n digits with
  | case1 => exact h
  | case2 n c rest fits ih => exact ih fits
  | case3 => exact h

/-- The decimal of the leading digits of a numeral.  A whole digit that does not fit counts as a
zero, and so do all whole digits behind it; a digit of the fraction that does not fit is dropped
with all behind it. -/
def Numeral.leading (n : Numeral) : Decimal :=
  let fraction := n.fraction.getD []
  let (whole, zeros) := takeFitting 0 n.whole
  let (digits, dropped) := takeFitting whole fraction
  ⟨digits, n.writtenExponent + zeros.length - (fraction.length - dropped.length : Nat)⟩

/-! ## Scaling -/

def powerOfTen (exponent : Nat) : Float :=
  (⟨1, exponent⟩ : Decimal).toFloat

/-- The greatest power of ten among the doubles is `10 ^ greatestPower`. -/
def greatestPower : Nat := 308

/-- Moves the point of a number to the left.  More places than a power of ten can have are moved
step by step, until nothing is left of the number. -/
def shrink (x : Float) (places : Nat) : Float :=
  if places ≤ greatestPower then
    x / powerOfTen places
  else if x == 0.0 then
    x
  else
    shrink (x / powerOfTen greatestPower) (places - greatestPower)
termination_by places
decreasing_by simp only [greatestPower] at *; omega

/-- The double that scaling gives for a decimal; there is none for a decimal beyond all doubles. -/
def Decimal.scaled? (d : Decimal) : Option Float :=
  let x := ofNat d.digits
  if d.exponent < 0 then
    some (shrink x d.exponent.natAbs)
  else if d.exponent ≤ greatestPower then
    let y := x * powerOfTen d.exponent.toNat
    if y.isFinite then some y else none
  else if d.digits = 0 then
    some x
  else
    none

example : (⟨15, -1⟩ : Decimal).scaled? = some 1.5 := by decide +kernel
example : (⟨1, 309⟩ : Decimal).scaled? = none := by decide +kernel
example : (⟨0, 309⟩ : Decimal).scaled? = some 0.0 := by decide +kernel
example : (⟨9064188083721975, -3⟩ : Decimal).scaled? = some 9064188083721.977 := by decide +kernel
example : (⟨9064188083721975, -3⟩ : Decimal).toFloat = 9064188083721.975 := by decide +kernel

end Number
end FlowTrace
