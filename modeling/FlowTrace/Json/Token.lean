import FlowTrace.Json.Document
import FlowTrace.Number.Scaled

/-!
# JSON tokens

The lexer takes JSON text apart one character at a time.  It reads brackets, separators, quoted
texts and words; a word is a run of other characters and must be `null`, `true`, `false` or a
numeral.
-/

namespace FlowTrace

namespace Json

inductive Token
  | openArray
  | closeArray
  | openObject
  | closeObject
  | comma
  | colon
  /-- A quoted text, or `none` if one of its escapes stands for half a character. -/
  | text (content : Option String)
  /-- A word: a truth value, a number or `null`. -/
  | word (value : Document)
deriving Repr, Inhabited

namespace Token

/-- Whether a numeral is written as JSON asks: no plus sign, no needless zero in front, and digits
on both sides of a point and after an exponent mark. -/
def wellFormed (n : Number.Numeral) : Bool :=
  n.sign ≠ some '+' && !n.whole.isEmpty && (n.whole.length = 1 || n.whole.head? ≠ some '0') &&
    n.fraction.all (fun digits => !digits.isEmpty) && n.exponentComplete

/-- The value of a numeral.  A whole number in the range of signed or unsigned 64-bit integers stays
a whole number, all others are doubles, read by scaling; minus zero is a double. -/
def ofNumeral (n : Number.Numeral) : Document :=
  let whole := Number.ofDigits n.whole
  if n.fraction.isNone && n.exponent.isNone && !n.negative && whole < UInt64.size then
    .int whole
  else if n.fraction.isNone && n.exponent.isNone && n.negative && 0 < whole &&
      whole ≤ UInt64.size / 2 then
    .int (-whole)
  else
    match n.leading.scaled? with
    | some x => .float (Number.withSign n.negative x)
    | none => .unreadable

def ofWord? (letters : List Char) : Option Document :=
  if letters = ['n', 'u', 'l', 'l'] then
    some .null
  else if letters = ['t', 'r', 'u', 'e'] then
    some (.bool true)
  else if letters = ['f', 'a', 'l', 's', 'e'] then
    some (.bool false)
  else do
    let n ← Number.Numeral.scan? letters
    if wellFormed n then some (ofNumeral n) else none

end Token

structure Quoted where
  /-- The characters, latest first. -/
  chars : List Char := []
  /-- The first half of a character written as two escapes, waiting for the second. -/
  half : Option Nat := none
  /-- Whether half a character stood alone. -/
  broken : Bool := false

namespace Quoted

def push (quoted : Quoted) (c : Char) : Quoted where
  chars := c :: quoted.chars
  half := none
  broken := quoted.broken || quoted.half.isSome

/-- Adds the code unit of an escape; two halves of a character are joined. -/
def pushUnit (quoted : Quoted) (unit : Nat) : Quoted :=
  if 0xdc00 ≤ unit && unit < 0xe000 then
    match quoted.half with
    | some first =>
        { quoted with
          chars := Char.ofNat (0x10000 + (first - 0xd800) * 0x400 + (unit - 0xdc00)) :: quoted.chars
          half := none }
    | none => { quoted with broken := true }
  else if 0xd800 ≤ unit && unit < 0xdc00 then
    { quoted with half := some unit, broken := quoted.broken || quoted.half.isSome }
  else
    quoted.push (Char.ofNat unit)

def token (quoted : Quoted) : Token :=
  if quoted.broken || quoted.half.isSome then
    .text none
  else
    .text (some (String.ofList quoted.chars.reverse))

end Quoted

inductive LexerMode
  | between
  /-- In a word, with its letters latest first. -/
  | word (letters : List Char)
  | text (quoted : Quoted)
  /-- Behind a backslash. -/
  | escape (quoted : Quoted)
  /-- In an escaped code unit, with the number of digits still missing. -/
  | unit (quoted : Quoted) (missing value : Nat)

/-- The state of the lexer: where it stands and the tokens found, latest first. -/
structure Lexer where
  mode : LexerMode := .between
  found : List Token := []

namespace Lexer

def hexValue? (c : Char) : Option Nat :=
  if '0' ≤ c && c ≤ '9' then
    some (c.toNat - '0'.toNat)
  else if 'a' ≤ c && c ≤ 'f' then
    some (c.toNat - 'a'.toNat + 10)
  else if 'A' ≤ c && c ≤ 'F' then
    some (c.toNat - 'A'.toNat + 10)
  else
    none

def escaped? : Char → Option Char
  | '"' => some '"'
  | '\\' => some '\\'
  | '/' => some '/'
  | 'b' => some '\x08'
  | 'f' => some '\x0c'
  | 'n' => some '\n'
  | 'r' => some '\r'
  | 't' => some '\t'
  | _ => none

def single? (c : Char) : Option Token :=
  match c.toNat with
  | 0x5b => some .openArray
  | 0x5d => some .closeArray
  | 0x7b => some .openObject
  | 0x7d => some .closeObject
  | 0x2c => some .comma
  | 0x3a => some .colon
  | _ => none

def isSpace (c : Char) : Bool :=
  c = ' ' || c = '\n' || c = '\t' || c = '\r'

def stepBetween (found : List Token) (c : Char) : Lexer :=
  match single? c with
  | some token => { found := token :: found }
  | none =>
      if isSpace c then
        { found }
      else if c = '"' then
        { mode := .text {}, found }
      else
        { mode := .word [c], found }

def step (lexer : Lexer) (c : Char) : Option Lexer :=
  match lexer.mode with
  | .between => some (stepBetween lexer.found c)
  | .word letters =>
      if (single? c).isSome || isSpace c || c = '"' then do
        let value ← Token.ofWord? letters.reverse
        return stepBetween (.word value :: lexer.found) c
      else
        some { lexer with mode := .word (c :: letters) }
  | .text quoted =>
      if c = '"' then
        some { found := quoted.token :: lexer.found }
      else if c = '\\' then
        some { lexer with mode := .escape quoted }
      else if c.toNat < 0x20 then
        none
      else
        some { lexer with mode := .text (quoted.push c) }
  | .escape quoted =>
      if c = 'u' then
        some { lexer with mode := .unit quoted 4 0 }
      else
        (escaped? c).map fun letter => { lexer with mode := .text (quoted.push letter) }
  | .unit quoted missing value => do
      let digit ← hexValue? c
      let value := 16 * value + digit
      if missing ≤ 1 then
        some { lexer with mode := .text (quoted.pushUnit value) }
      else
        some { lexer with mode := .unit quoted (missing - 1) value }

/-- The tokens at the end of the text; a text left open has none. -/
def finish? (lexer : Lexer) : Option (List Token) :=
  match lexer.mode with
  | .between => some lexer.found.reverse
  | .word letters => do
      let value ← Token.ofWord? letters.reverse
      return (Token.word value :: lexer.found).reverse
  | _ => none

end Lexer

def tokens? (text : String) : Option (List Token) := do
  let lexer ← text.toList.foldlM Lexer.step {}
  lexer.finish?

end Json
end FlowTrace
