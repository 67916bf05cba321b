import FlowTrace.Json.Basic

/-!
# JSON documents

A document is well-formed JSON text as a tree.  It may hold parts that have no value, such as a
number too large for a double; these are harmless as long as nobody asks for them, so they stand in
the tree as `unreadable` leaves and every reader fails on them.

This file defines:
- `Document`, with `Document.toJson?` and the embedding `Json.toDocument`;
- readers of scalars, lists and tables;
- `Document.record?`, which reads the fields of a record;
- `Document.choice?`, which reads one of several names.
-/

namespace FlowTrace

/-- Well-formed JSON text as a tree. -/
inductive Document
  | null
  | bool (value : Bool)
  | int (value : Int)
  | float (value : Float)
  | string (value : String)
  | array (items : List Document)
  | object (members : List (String × Document))
  /-- A part without a value: a number beyond all doubles, a text with half a character, or a list
  or object nested too deeply. -/
  | unreadable
deriving Repr, Inhabited

mutual

/-- The value of a document, unless a part of it is unreadable. -/
def Document.toJson? : Document → Option Json
  | .null => some .null
  | .bool b => some (.bool b)
  | .int n => some (.int n)
  | .float x => some (.float x)
  | .string s => some (.string s)
  | .array items => (Document.itemsToJson? items).map .array
  | .object members => (Document.membersToJson? members).map .object
  | .unreadable => none

def Document.itemsToJson? : List Document → Option (List Json)
  | [] => some []
  | item :: items => do
      let first ← item.toJson?
      let rest ← Document.itemsToJson? items
      return first :: rest

def Document.membersToJson? : List (String × Document) → Option (List (String × Json))
  | [] => some []
  | (name, value) :: members => do
      let first ← value.toJson?
      let rest ← Document.membersToJson? members
      return (name, first) :: rest

end

mutual

def Json.toDocument : Json → Document
  | .null => .null
  | .bool b => .bool b
  | .int n => .int n
  | .float x => .float x
  | .string s => .string s
  | .array items => .array (Json.itemsToDocument items)
  | .object members => .object (Json.membersToDocument members)

def Json.itemsToDocument : List Json → List Document
  | [] => []
  | item :: items => item.toDocument :: Json.itemsToDocument items

def Json.membersToDocument : List (String × Json) → List (String × Document)
  | [] => []
  | (name, value) :: members => (name, value.toDocument) :: Json.membersToDocument members

end

mutual

/-- A value is read back from its document unchanged. -/
@[simp] theorem Json.toJson?_toDocument : ∀ json : Json, json.toDocument.toJson? = some json
  | .null => rfl
  | .bool _ => rfl
  | .int _ => rfl
  | .float _ => rfl
  | .string _ => rfl
  | .array items => by
      simp [Json.toDocument, Document.toJson?, Json.itemsToJson?_itemsToDocument items]
  | .object members => by
      simp [Json.toDocument, Document.toJson?, Json.membersToJson?_membersToDocument members]

@[simp] theorem Json.itemsToJson?_itemsToDocument :
    ∀ items : List Json, Document.itemsToJson? (Json.itemsToDocument items) = some items
  | [] => rfl
  | item :: items => by
      simp [Json.itemsToDocument, Document.itemsToJson?, Json.toJson?_toDocument item,
        Json.itemsToJson?_itemsToDocument items]

@[simp] theorem Json.membersToJson?_membersToDocument :
    ∀ members : List (String × Json),
      Document.membersToJson? (Json.membersToDocument members) = some members
  | [] => rfl
  | (_, value) :: members => by
      simp [Json.membersToDocument, Document.membersToJson?, Json.toJson?_toDocument value,
        Json.membersToJson?_membersToDocument members]

end

namespace Document

/-! ## Scalars -/

def string? : Document → Option String
  | .string s => some s
  | _ => none

def number? : Document → Option Float
  | .int n => some (Number.ofInt n)
  | .float x => some x
  | _ => none

/-- Reads a natural number; it must be written without point and exponent. -/
def nat? : Document → Option Nat
  | .int n => if 0 ≤ n then some n.toNat else none
  | _ => none

def bool? : Document → Option Bool
  | .bool b => some b
  | _ => none

/-! ## Lists and objects -/

/-- Reads a list whose items are all readable by `item?`. -/
def list? {α : Type} (item? : Document → Option α) : Document → Option (List α)
  | .array items => items.mapM item?
  | _ => none

def members? (document : Document) : Option (List (String × Json)) :=
  match document with
  | .object members => membersToJson? members
  | _ => none

def nullable? {α : Type} (item? : Document → Option α) : Document → Option (Option α)
  | .null => some none
  | document => (item? document).map some

/-! ## Records and choices -/

/-- The member with one of the given names, if there is any; two of them are refused. -/
def field? (members : List (String × Document)) (names : List String) : Option (Option Document) :=
  match members.filter fun member => names.contains member.1 with
  | [] => some none
  | [member] => some (some member.2)
  | _ => none

/-- Reads the fields of a record, each of which may go by several names.  A record is written as an
object, where unknown members are passed over, or as the list of its fields in their order, where
fields at the end may be missing. -/
def record? (fields : List (List String)) : Document → Option (List (Option Document))
  | .object members => fields.mapM (field? members)
  | .array items =>
      if items.length ≤ fields.length then
        some ((List.range fields.length).map fun i => items[i]?)
      else
        none
  | _ => none

/-- Reads a name, written as a text or as an object whose only member has that name and is
`null`. -/
def choice? : Document → Option String
  | .string name => some name
  | .object [(name, .null)] => some name
  | _ => none

end Document
end FlowTrace
