import FlowTrace.Number.Binary

/-!
# Shortest decimal digits

Every real number close enough to a double rounds to it.  Of the decimals among them, the shortest
form takes one on the coarsest grid `10 ^ k` that has any, and on that grid the one nearest to the
double.  All comparisons are exact, between natural numbers.
-/

namespace FlowTrace

namespace Number

/-- The decimal number `digits * 10 ^ exponent`. -/
structure Decimal where
  digits : Nat
  exponent : Int
deriving DecidableEq, Repr

/-- Which of two equally near decimals is taken. -/
inductive Tie
  | even
  | up
deriving DecidableEq, Repr

namespace Binary

/-- The decimal on the grid `10 ^ k` that rounds to `b` and lies nearest to it, if any does. -/
def onGrid? (tie : Tie) (b : Binary) (k : Int) : Option Decimal :=
  -- Quarters of the last binary place and steps of the grid, both in the same small unit.
  let place := Nat.pow 2 (b.exponent - 2).toNat * Nat.pow 10 (-k).toNat
  let step := Nat.pow 2 (2 - b.exponent).toNat * Nat.pow 10 k.toNat
  let value := 4 * b.mantissa * place
  let low := (4 * b.mantissa - if b.nearBelow then 1 else 2) * place
  let high := (4 * b.mantissa + 2) * place
  let ends := b.mantissa % 2 = 0
  let below := value / step
  let above := below + 1
  let belowFits := low < below * step || ends && low = below * step
  let aboveFits := above * step < high || ends && above * step = high
  let rest := 2 * (value - below * step)
  let upward := step < rest || rest = step && (tie = .up || below % 2 = 1)
  match belowFits, aboveFits with
  | true, true => some ⟨if upward then above else below, k⟩
  | true, false => some ⟨below, k⟩
  | false, true => some ⟨above, k⟩
  | false, false => none

/-- A grid too coarse for a magnitude that is not zero: `10 ^ b.coarse` exceeds it. -/
def coarse (b : Binary) : Int :=
  ((Nat.log2 b.mantissa + b.exponent + 1) * 30103).fdiv 100000 + 1

/-- The shortest decimal that rounds to the magnitude of `b`; seventeen digits always suffice. -/
def shortest (tie : Tie) (b : Binary) : Decimal :=
  if b.mantissa = 0 then
    ⟨0, 0⟩
  else
    ((List.range 20).findSome? fun i : Nat => b.onGrid? tie (b.coarse - i)).getD ⟨0, 0⟩

end Binary

example : (Binary.ofFloat 0.1).shortest .even = ⟨1, -1⟩ := by decide +kernel
example : (Binary.ofFloat 100.0).shortest .even = ⟨1, 2⟩ := by decide +kernel
example : (Binary.ofFloat 1125899906842624.25).shortest .even = ⟨11258999068426242, -1⟩ := by
  decide +kernel
example : (Binary.ofFloat 1125899906842624.25).shortest .up = ⟨11258999068426243, -1⟩ := by
  decide +kernel
example : (Binary.ofFloat 5e-324).shortest .even = ⟨5, -324⟩ := by decide +kernel

end Number
end FlowTrace
