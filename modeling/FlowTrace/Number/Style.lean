import FlowTrace.Number.Shortest

/-!
# Styles of writing a number

A number is written with its shortest digits.  What is left to a style is where the point goes: the
magnitudes written positionally, how an exponent is written, and whether a whole number keeps `.0`.
-/

namespace FlowTrace

namespace Number

/-- The choices left open by the digits of a number. -/
structure Style where
  /-- The exponents of the leading digit that are written positionally; `none` stands for all. -/
  positional : Option (Int × Int)
  /-- Whether a whole number written positionally ends in `.0`. -/
  wholePoint : Bool
  /-- Whether a positive exponent has a plus sign. -/
  plus : Bool
  tie : Tie

namespace Style

/-- Digits with the point placed after the one that counts `10 ^ 0`. -/
def layPositional (style : Style) (digits : List Char) (leading : Int) : List Char :=
  if leading < 0 then
    '0' :: '.' :: List.replicate (-leading - 1).toNat '0' ++ digits
  else
    let places := leading.toNat + 1
    if digits.length ≤ places then
      digits ++ List.replicate (places - digits.length) '0' ++
        (if style.wholePoint then ['.', '0'] else [])
    else
      digits.take places ++ '.' :: digits.drop places

/-- Digits with the point after the first and the exponent of the first behind them. -/
def layScientific (style : Style) (digits : List Char) (leading : Int) : List Char :=
  let fraction := digits.drop 1
  let sign := if leading < 0 then ['-'] else if style.plus then ['+'] else []
  digits.take 1 ++ (if fraction.isEmpty then [] else '.' :: fraction) ++ 'e' :: sign ++
    Nat.toDigits 10 leading.natAbs

def lay (style : Style) (d : Decimal) : List Char :=
  let digits := Nat.toDigits 10 d.digits
  let leading := d.exponent + digits.length - 1
  match style.positional with
  | none => style.layPositional digits leading
  | some (least, most) =>
      if d.digits = 0 || least ≤ leading && leading ≤ most then
        style.layPositional digits leading
      else
        style.layScientific digits leading

def render (style : Style) (x : Float) : String :=
  if x.isNaN then
    "NaN"
  else
    let b := Binary.ofFloat x
    let text := if x.isInf then ['i', 'n', 'f'] else style.lay (b.shortest style.tie)
    String.ofList (if b.negative then '-' :: text else text)

/-- Numbers in running text: positional at every size, whole numbers without a point. -/
def prose : Style where
  positional := none
  wholePoint := false
  plus := false
  tie := .up

/-- Numbers in a run summary: positional from `1e-4` to below `1e16`, whole numbers with a point. -/
def summary : Style where
  positional := some (-4, 15)
  wholePoint := true
  plus := false
  tie := .up

end Style

example : Style.prose.render 3.0 = "3" := by decide +kernel
example : Style.prose.render (-0.0) = "-0" := by decide +kernel
example : Style.prose.render 1e20 = "100000000000000000000" := by decide +kernel
example : Style.prose.render 1e-7 = "0.0000001" := by decide +kernel
example : Style.summary.render 1e16 = "1e16" := by decide +kernel
example : Style.summary.render 0.0001 = "0.0001" := by decide +kernel
example : Style.summary.render (-1.5e-5) = "-1.5e-5" := by decide +kernel
example : Style.summary.render (-0.0) = "-0.0" := by decide +kernel

end Number
end FlowTrace
