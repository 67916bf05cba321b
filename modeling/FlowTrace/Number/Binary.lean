/-!
# Floating-point numbers as binary fractions

A finite double is `± mantissa * 2 ^ exponent` with a mantissa below `2 ^ 53`.  This file reads that
form off the bit pattern, which is all that exact printing and exact indexing need.
-/

namespace FlowTrace

namespace Number

structure Binary where
  negative : Bool
  mantissa : Nat
  exponent : Int
  /-- Whether the next smaller magnitude is only half as far away as the next larger one. -/
  nearBelow : Bool
deriving DecidableEq, Repr

namespace Binary

/-- Reads sign, mantissa and exponent off the bits of a finite double. -/
def ofFloat (x : Float) : Binary :=
  let bits : Nat := x.toBits.toNat
  let field : Nat := bits / Nat.pow 2 52 % Nat.pow 2 11
  let fraction : Nat := bits % Nat.pow 2 52
  { negative := bits / Nat.pow 2 63 = 1
    mantissa := if field = 0 then fraction else fraction + Nat.pow 2 52
    exponent := if field = 0 then -1074 else Int.ofNat field - 1075
    nearBelow := fraction = 0 && 1 < field }

def magnitude? (b : Binary) : Option Nat :=
  if 0 ≤ b.exponent then
    some (b.mantissa * Nat.pow 2 b.exponent.toNat)
  else
    let unit := Nat.pow 2 (-b.exponent).toNat
    if b.mantissa % unit = 0 then some (b.mantissa / unit) else none

end Binary

/-- The natural number that a double is, if it is one; either zero counts as `0`. -/
def natural? (x : Float) : Option Nat :=
  if x.isFinite && 0 ≤ x then (Binary.ofFloat x).magnitude? else none

example : natural? 3.0 = some 3 := by decide +kernel
example : natural? (-0.0) = some 0 := by decide +kernel
example : natural? 2.5 = none := by decide +kernel
example : natural? (-1.0) = none := by decide +kernel
example : natural? 1e20 = some (10 ^ 20) := by decide +kernel

end Number
end FlowTrace
