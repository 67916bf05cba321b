import FlowTrace.Json.Basic
import FlowTrace.Number.Style

/-!
# Writing JSON

JSON text in two layouts: on one line without blanks, and indented by two spaces for each level with
every item on a line of its own.  Members that a later member of the same name shadows are left out.
-/

namespace FlowTrace

namespace Json

/-- Numbers in JSON: positional from `1e-5` to below `1e16`, and always recognisable as doubles. -/
def numberStyle : Number.Style where
  positional := some (-5, 15)
  wholePoint := true
  plus := true
  tie := .even

def hexDigit (n : Nat) : Char :=
  if n < 10 then Char.ofNat (48 + n) else Char.ofNat (87 + n)

/-- Appends a character of a string, escaped where JSON asks for it. -/
def writeChar (out : String) (c : Char) : String :=
  match c.toNat with
  | 0x22 => out ++ "\\\""
  | 0x5c => out ++ "\\\\"
  | 0x08 => out ++ "\\b"
  | 0x09 => out ++ "\\t"
  | 0x0a => out ++ "\\n"
  | 0x0c => out ++ "\\f"
  | 0x0d => out ++ "\\r"
  | n =>
      if n < 0x20 then
        ((out ++ "\\u00").push (hexDigit (n / 16))).push (hexDigit (n % 16))
      else
        out.push c

def writeString (out text : String) : String :=
  (text.toList.foldl writeChar (out.push '"')).push '"'

inductive Layout
  | compact
  | indented
deriving DecidableEq, Repr

def writeBreak (layout : Layout) (depth : Nat) (out : String) : String :=
  match layout with
  | .compact => out
  | .indented => (out.push '\n').pushn ' ' (2 * depth)

mutual

def write (layout : Layout) (depth : Nat) (out : String) : Json → String
  | null => out ++ "null"
  | bool b => out ++ (if b then "true" else "false")
  | int n => out ++ toString n
  | float x => out ++ numberStyle.render x
  | string s => writeString out s
  | array [] => out ++ "[]"
  | array (item :: items) =>
      let out := write layout (depth + 1) (writeBreak layout (depth + 1) (out.push '[')) item
      (writeBreak layout depth (writeItems layout (depth + 1) out items)).push ']'
  | object [] => out ++ "\x7b\x7d"
  | object (member :: members) =>
      let out := writeMembers layout (depth + 1) true (out.push '\x7b') (member :: members)
      (writeBreak layout depth out).push '\x7d'

def writeItems (layout : Layout) (depth : Nat) (out : String) : List Json → String
  | [] => out
  | item :: items =>
      let out := write layout depth (writeBreak layout depth (out.push ',')) item
      writeItems layout depth out items

def writeMembers (layout : Layout) (depth : Nat) (first : Bool) (out : String) :
    List (String × Json) → String
  | [] => out
  | (name, value) :: members =>
      if members.any (fun later => later.1 = name) then
        writeMembers layout depth first out members
      else
        let out := writeBreak layout depth (if first then out else out.push ',')
        let out := writeString out name ++ (if layout = .compact then ":" else ": ")
        writeMembers layout depth false (write layout depth out value) members

end

def compact (json : Json) : String :=
  json.write .compact 0 ""

def indented (json : Json) : String :=
  json.write .indented 0 ""

example : (object [("a", array [int 1, float 2.0]), ("b", null), ("a", object [])]).compact =
    "\x7b\"b\":null,\"a\":\x7b\x7d\x7d" := by
  decide +kernel

example : (array [float 1e16, float 1e-6, float 0.00001]).compact = "[1e+16,1e-6,0.00001]" := by
  decide +kernel

example : (object [("a", array [bool true, string "\n\x01"])]).indented =
    "\x7b\n  \"a\": [\n    true,\n    \"\\n\\u0001\"\n  ]\n\x7d" := by
  decide +kernel

end Json
end FlowTrace
