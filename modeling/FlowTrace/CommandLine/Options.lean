import FlowTrace.Number.Numeral

/-!
# Command line options

The command line names one graph file and may set the initial array, a step limit, the form of the
output, or ask for validation only.  An option takes its value attached to it or as the next
argument; an argument that starts with a dash is no such value, except that an array may be one
negative number.
-/

namespace FlowTrace

namespace CommandLine

inductive Format
  | text
  | json
deriving DecidableEq, Repr

structure Options where
  path : String
  array : Option (List Float) := none
  randomLength : Option Nat := none
  maxSteps : Option Nat := none
  format : Format := .text
  validateOnly : Bool := false
deriving DecidableEq, Repr

inductive Setting
  | array
  | random
  | maxSteps
  | format
deriving DecidableEq, Repr

namespace Setting

def ofLongName? : String → Option Setting
  | "array" => some array
  | "random" => some random
  | "max-steps" => some maxSteps
  | "format" => some format
  | _ => none

def ofLetter? : Char → Option Setting
  | 'a' => some array
  | 'r' => some random
  | 'm' => some maxSteps
  | 'f' => some format
  | _ => none

end Setting

inductive Argument
  | positional (text : String)
  /-- Two dashes alone: what follows is positional. -/
  | escape
  | validateOnly
  /-- An option whose value is the next argument. -/
  | detached (setting : Setting)
  | attached (setting : Setting) (value : String)
  | unknown
deriving DecidableEq, Repr

namespace Argument

def ofLong (chars : List Char) : Argument :=
  let name := String.ofList (chars.takeWhile (· ≠ '='))
  match Setting.ofLongName? name, chars.dropWhile (· ≠ '=') with
  | some setting, [] => detached setting
  | some setting, _ :: value => attached setting (String.ofList value)
  | none, [] => if name = "validate-only" then validateOnly else unknown
  | none, _ :: _ => unknown

def ofShort (letter : Char) (chars : List Char) : Argument :=
  match Setting.ofLetter? letter, chars with
  | some setting, [] => detached setting
  | some setting, '=' :: value => attached setting (String.ofList value)
  | some setting, value => attached setting (String.ofList value)
  | none, _ => unknown

def ofText (text : String) : Argument :=
  match text.toList with
  | ['-', '-'] => escape
  | '-' :: '-' :: chars => ofLong chars
  | ['-'] => positional text
  | '-' :: letter :: chars => ofShort letter chars
  | _ => positional text

end Argument

/-- Whether characters are a plain number: digits with at most one point and, behind it, at most one
exponent mark, none of them in front and the mark not at the end. -/
def isPlainNumber (chars : List Char) : Bool :=
  let isMark (c : Char) := c = 'e' || c = 'E'
  let mantissa := chars.takeWhile fun c => !isMark c
  let exponent := chars.dropWhile fun c => !isMark c
  let whole := mantissa.takeWhile (· ≠ '.')
  !whole.isEmpty && whole.all Char.isDigit &&
    ((mantissa.dropWhile (· ≠ '.')).drop 1).all Char.isDigit &&
    exponent.length ≠ 1 && (exponent.drop 1).all Char.isDigit

def mayFollow (setting : Setting) (value : String) : Bool :=
  match value.toList with
  | ['-'] => true
  | '-' :: chars => setting = .array && isPlainNumber chars
  | _ => true

/-- The arguments sorted by what they are for. -/
structure Arguments where
  positionals : List String := []
  settings : List (Setting × String) := []
  validateOnly : Nat := 0

namespace Arguments

def collect? (sorted : Arguments) : List String → Option Arguments
  | [] => some sorted
  | text :: rest =>
      match Argument.ofText text with
      | .positional text =>
          collect? { sorted with positionals := sorted.positionals ++ [text] } rest
      | .escape => some { sorted with positionals := sorted.positionals ++ rest }
      | .validateOnly => collect? { sorted with validateOnly := sorted.validateOnly + 1 } rest
      | .attached setting value =>
          collect? { sorted with settings := sorted.settings ++ [(setting, value)] } rest
      | .detached setting =>
          match rest with
          | [] => none
          | value :: rest =>
              if mayFollow setting value then
                collect? { sorted with settings := sorted.settings ++ [(setting, value)] } rest
              else
                none
      | .unknown => none

def valuesOf (sorted : Arguments) (setting : Setting) : List String :=
  (sorted.settings.filter fun entry => entry.1 = setting).map (·.2)

def single? {α : Type} (sorted : Arguments) (setting : Setting) (read? : String → Option α) :
    Option (Option α) :=
  match sorted.valuesOf setting with
  | [] => some none
  | [value] => (read? value).map some
  | _ => none

end Arguments

/-- Reads a natural number of at most 64 bits, with an optional plus sign. -/
def readNat? (text : String) : Option Nat :=
  let digits :=
    match text.toList with
    | '+' :: digits => digits
    | digits => digits
  if !digits.isEmpty && digits.all Char.isDigit && Number.ofDigits digits < UInt64.size then
    some (Number.ofDigits digits)
  else
    none

def readNumbers? (text : String) : Option (List Float) :=
  (text.toList.splitOn ',').mapM Number.readFloat?

def Format.ofName? : String → Option Format
  | "text" => some .text
  | "json" => some .json
  | _ => none

/-- What the arguments ask for, unless they are misused: there is one file, options other than the
array occur at most once, and an array is either given or drawn at random. -/
def Options.parse? (arguments : List String) : Option Options := do
  let sorted ← Arguments.collect? {} arguments
  let lists ← (sorted.valuesOf .array).mapM readNumbers?
  let array := if lists.isEmpty then none else some lists.flatten
  let randomLength ← sorted.single? .random readNat?
  let maxSteps ← sorted.single? .maxSteps readNat?
  let format ← sorted.single? .format Format.ofName?
  match sorted.positionals with
  | [path] =>
      if sorted.validateOnly ≤ 1 && !(array.isSome && randomLength.isSome) then
        some {
          path
          array
          randomLength
          maxSteps
          format := format.getD .text
          validateOnly := sorted.validateOnly = 1 }
      else
        none
  | _ => none

example : Options.parse? ["g", "-a1,2", "--array=3", "-a", "-4", "-f", "json"] =
    some { path := "g", array := some [1.0, 2.0, 3.0, -4.0], format := .json } := by
  decide +kernel

example : Options.parse? ["g", "-a", "-1,2"] = none := by decide +kernel

example : Options.parse? ["--validate-only", "--", "-g"] =
    some { path := "-g", validateOnly := true } := by
  decide +kernel

end CommandLine
end FlowTrace
