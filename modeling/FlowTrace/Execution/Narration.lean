import FlowTrace.Execution.Context

/-!
# Narration

A description may be a template with placeholders: a name in braces, blanks around it allowed.  The
template is cut at its opening braces; a piece behind one starts with a placeholder or does not, and
what it stands for is never expanded again.
-/

namespace FlowTrace

namespace Narration

def isNameStart (c : Char) : Bool :=
  c.isAlpha || c = '_'

def isNamePart (c : Char) : Bool :=
  c.isAlphanum || c = '_'

/-- Reads a placeholder behind its opening brace; gives the name and what follows it. -/
def placeholder? (piece : List Char) : Option (String × List Char) :=
  let inner := piece.dropWhile Text.isBlank
  let name := inner.takeWhile isNamePart
  match (inner.dropWhile isNamePart).dropWhile Text.isBlank with
  | '\x7d' :: rest => if name.head?.any isNameStart then some (String.ofList name, rest) else none
  | _ => none

/-- Replaces the placeholder at the start of a piece that stands behind an opening brace. -/
def expandPiece (lookup : String → Option String) (piece : List Char) : List Char :=
  match placeholder? piece with
  | some (name, rest) =>
      match lookup name with
      | some text => text.toList ++ rest
      | none => '\x7b' :: piece
  | none => '\x7b' :: piece

/-- Replaces every placeholder that has a text; all else stays as it is. -/
def expand (lookup : String → Option String) (template : List Char) : List Char :=
  match template.splitOn '\x7b' with
  | [] => []
  | first :: pieces => first ++ pieces.flatMap (expandPiece lookup)

end Narration

namespace Context

/-- What a placeholder stands for: the value at hand, else a variable, else, under the names for it,
the current value of the innermost loop. -/
def placeholderText? (context : Context) (value : Value) (name : String) : Option String :=
  if name = "value" then
    some value.display
  else
    match context.valueOf? name with
    | some bound => some bound.display
    | none =>
        if name = "i" || name = "index" || name = "iteration" then
          context.innermost?.map fun frame => formatNumber frame.current
        else
          none

def narrate (context : Context) (value : Value) (template : String) : String :=
  String.ofList (Narration.expand (context.placeholderText? value) template.toList)

end Context
end FlowTrace
