import FlowTrace.Number.Shortest

/-!
# Numerals

A numeral is an optional sign, digits around an optional point and an optional exponent.  This file
splits a numeral into these parts and gives the double nearest to it.  Which parts may be missing is
for each reader to say; `readFloat?` is the permissive one used for numbers inside texts.
-/

namespace FlowTrace

namespace Number

/-- The parts of a numeral; a point or an exponent mark without digits has an empty part. -/
structure Numeral where
  sign : Option Char
  whole : List Char
  fraction : Option (List Char)
  exponent : Option (Option Char × List Char)
deriving DecidableEq, Repr

def takeSign : List Char → Option Char × List Char
  | [] => (none, [])
  | c :: rest => if c = '+' || c = '-' then (some c, rest) else (none, c :: rest)

def appendDigit (n : Nat) (c : Char) : Nat :=
  10 * n + (c.toNat - '0'.toNat)

def ofDigits (digits : List Char) : Nat :=
  digits.foldl appendDigit 0

namespace Numeral

/-- Splits a numeral into its parts; fails on any other character. -/
def scan? (chars : List Char) : Option Numeral :=
  let (sign, chars) := takeSign chars
  let (whole, chars) := chars.span Char.isDigit
  let (fraction, chars) :=
    match chars with
    | '.' :: rest => (some (rest.takeWhile Char.isDigit), rest.dropWhile Char.isDigit)
    | _ => (none, chars)
  match chars with
  | [] => some ⟨sign, whole, fraction, none⟩
  | mark :: rest =>
      let (expSign, digits) := takeSign rest
      if (mark = 'e' || mark = 'E') && digits.all Char.isDigit then
        some ⟨sign, whole, fraction, some (expSign, digits)⟩
      else
        none

def negative (n : Numeral) : Bool :=
  n.sign = some '-'

/-- Whether an exponent mark, if there is one, has digits. -/
def exponentComplete (n : Numeral) : Bool :=
  n.exponent.all fun e => !e.2.isEmpty

def writtenExponent (n : Numeral) : Int :=
  match n.exponent with
  | none => 0
  | some (sign, digits) => if sign = some '-' then -ofDigits digits else ofDigits digits

def magnitude (n : Numeral) : Decimal :=
  let fraction := n.fraction.getD []
  ⟨ofDigits (n.whole ++ fraction), n.writtenExponent - fraction.length⟩

end Numeral

def infinity : Float := 1.0 / 0.0

def notANumber : Float := 0.0 / 0.0

/-- The double nearest to a decimal; one too large for a double gives infinity. -/
def Decimal.toFloat (d : Decimal) : Float :=
  let top := d.exponent + (Nat.toDigits 10 d.digits).length
  if d.digits = 0 || top < -330 then
    0.0
  else if 310 < top then
    infinity
  else
    Float.ofScientific d.digits (d.exponent < 0) d.exponent.natAbs

def withSign (negative : Bool) (x : Float) : Float :=
  if negative then -x else x

def ofNat (n : Nat) : Float :=
  (⟨n, 0⟩ : Decimal).toFloat

def ofInt (n : Int) : Float :=
  withSign (n < 0) (ofNat n.natAbs)

/-- Reads a word for an infinite double or for one that is not a number, in any case. -/
def special? (letters : List Char) : Option Float :=
  let word := String.ofList (letters.map Char.toLower)
  if word = "inf" || word = "infinity" then
    some infinity
  else if word = "nan" then
    some notANumber
  else
    none

/-- Reads a number with an optional sign, a point anywhere among its digits and an optional
exponent; it needs a digit, and so does its exponent. -/
def readFloat? (chars : List Char) : Option Float :=
  let (sign, word) := takeSign chars
  match special? word with
  | some x => some (withSign (sign = some '-') x)
  | none => do
      let n ← Numeral.scan? chars
      if n.exponentComplete && !(n.whole.isEmpty && (n.fraction.getD []).isEmpty) then
        some (withSign n.negative n.magnitude.toFloat)
      else
        none

example : readFloat? "-1.5e1".toList = some (-15.0) := by decide +kernel
example : readFloat? "+.5".toList = some 0.5 := by decide +kernel
example : readFloat? "1e400".toList = some infinity := by decide +kernel
example : readFloat? "1e-99999999999".toList = some 0.0 := by decide +kernel
example : readFloat? "-Inf".toList = some (-infinity) := by decide +kernel
example : readFloat? ".".toList = none := by decide +kernel
example : readFloat? "1e".toList = none := by decide +kernel
example : readFloat? "+-1".toList = none := by decide +kernel

end Number
end FlowTrace
