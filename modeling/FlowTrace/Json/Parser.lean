import FlowTrace.Json.Token

/-!
# Reading JSON

The parser builds a document from tokens.  It keeps the lists and objects that are still open on a
stack, so neither long nor deeply nested text needs recursion.
-/

namespace FlowTrace

namespace Json

/-- The deepest nesting of lists and objects whose values are readable. -/
def depthLimit : Nat := 127

/-- A list or object that is still open, its contents latest first. -/
inductive Frame
  | array (items : List Document)
  | object (members : List (Option String × Document))
  /-- An object together with the name of the member whose value comes next. -/
  | member (name : Option String) (members : List (Option String × Document))

inductive Expected
  | value
  | valueOrClose
  | nameOrClose
  | name
  | colon
  | separator
  | nothing (result : Document)

structure Parser where
  /-- The open lists and objects, innermost first. -/
  frames : List Frame := []
  expected : Expected := .value

namespace Parser

def place? (frames : List Frame) (value : Document) : Option Parser :=
  match frames with
  | [] => some { frames := [], expected := .nothing value }
  | .array items :: outer =>
      some { frames := .array (value :: items) :: outer, expected := .separator }
  | .member name members :: outer =>
      some { frames := .object ((name, value) :: members) :: outer, expected := .separator }
  | .object _ :: _ => none

/-- Makes what stands inside too many lists and objects unreadable. -/
def limited (frames : List Frame) (value : Document) : Document :=
  if (frames.drop (depthLimit - 1)).isEmpty then value else .unreadable

/-- An object from its members, latest first. -/
def closeObject (members : List (Option String × Document)) : Document :=
  match members.reverse.mapM fun member => member.1.map fun name => (name, member.2) with
  | some members => .object members
  | none => .unreadable

def stepValue (frames : List Frame) : Token → Option Parser
  | .openArray => some { frames := .array [] :: frames, expected := .valueOrClose }
  | .openObject => some { frames := .object [] :: frames, expected := .nameOrClose }
  | .text (some s) => place? frames (.string s)
  | .text none => place? frames .unreadable
  | .word value => place? frames value
  | _ => none

def stepClose (frames : List Frame) : Token → Option Parser
  | .closeArray =>
      match frames with
      | .array items :: outer => place? outer (limited outer (.array items.reverse))
      | _ => none
  | .closeObject =>
      match frames with
      | .object members :: outer => place? outer (limited outer (closeObject members))
      | _ => none
  | _ => none

def stepName (frames : List Frame) : Token → Option Parser
  | .text name =>
      match frames with
      | .object members :: outer =>
          some { frames := .member name members :: outer, expected := .colon }
      | _ => none
  | _ => none

def stepComma (frames : List Frame) : Option Parser :=
  match frames with
  | .array _ :: _ => some { frames, expected := .value }
  | .object _ :: _ => some { frames, expected := .name }
  | _ => none

def step (parser : Parser) (token : Token) : Option Parser :=
  match parser.expected, token with
  | .value, token => stepValue parser.frames token
  | .valueOrClose, .closeArray => stepClose parser.frames .closeArray
  | .valueOrClose, token => stepValue parser.frames token
  | .nameOrClose, .closeObject => stepClose parser.frames .closeObject
  | .nameOrClose, token => stepName parser.frames token
  | .name, token => stepName parser.frames token
  | .colon, .colon => some { parser with expected := .value }
  | .separator, .comma => stepComma parser.frames
  | .separator, token => stepClose parser.frames token
  | _, _ => none

def finish? (parser : Parser) : Option Document :=
  match parser.expected with
  | .nothing result => some result
  | _ => none

end Parser
end Json

/-- Reads JSON text; fails unless it is exactly one JSON value with blanks around it. -/
def Document.parse? (text : String) : Option Document := do
  let tokens ← Json.tokens? text
  let parser ← tokens.foldlM Json.Parser.step {}
  parser.finish?

def Json.parse? (text : String) : Option Json := do
  let document ← Document.parse? text
  document.toJson?

example : Json.parse? " [1, -0, \"\\u00e9\\ud83d\\ude00\", \x7b\"a\": 2e1\x7d] " =
    some (.array [.int 1, .float (-0.0), .string "é😀", .object [("a", .float 20.0)]]) := by
  decide +kernel

example : (Document.parse? "1e400").isSome = true ∧ (Json.parse? "1e400").isNone = true := by
  decide +kernel

example : (Document.parse? "[1,]").isNone = true ∧ (Document.parse? "01").isNone = true := by
  decide +kernel

end FlowTrace
