/-!
# Handles

A handle is a named socket of a node.  Its kind says what passes through it: the order of
execution, or data of some sort.
-/

namespace FlowTrace

inductive HandleKind
  /-- The order of execution, never a value. -/
  | execution
  | number
  | array
  | boolean
  /-- Data of any sort. -/
  | any
deriving DecidableEq, Repr, Inhabited

namespace HandleKind

def all : List HandleKind :=
  [execution, number, array, boolean, any]

def name : HandleKind → String
  | execution => "execution"
  | number => "number"
  | array => "array"
  | boolean => "boolean"
  | any => "any"

def ofName? (name : String) : Option HandleKind :=
  all.find? (·.name = name)

def isExecution : HandleKind → Bool
  | execution => true
  | _ => false

/-- Whether an output of kind `source` may feed an input of kind `target`: execution goes with
execution only, and data of any sort goes with all data. -/
def compatible (source target : HandleKind) : Bool :=
  match source, target with
  | execution, execution => true
  | execution, _ => false
  | _, execution => false
  | any, _ => true
  | _, any => true
  | number, number => true
  | array, array => true
  | boolean, boolean => true
  | _, _ => false

end HandleKind

inductive Direction
  | input
  | output
deriving DecidableEq, Repr, Inhabited

namespace Direction

def all : List Direction :=
  [input, output]

def name : Direction → String
  | input => "input"
  | output => "output"

def ofName? (name : String) : Option Direction :=
  all.find? (·.name = name)

end Direction

structure Handle where
  id : String
  kind : HandleKind
  direction : Direction
deriving DecidableEq, Repr

namespace Handle

def input (id : String) (kind : HandleKind) : Handle :=
  ⟨id, kind, .input⟩

def output (id : String) (kind : HandleKind) : Handle :=
  ⟨id, kind, .output⟩

end Handle
end FlowTrace
