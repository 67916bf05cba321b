/-!
# Kinds of nodes

The thirteen kinds of nodes a graph is made of, and the tags they go by in an editor.
-/

namespace FlowTrace

inductive NodeKind
  | start
  | finish
  | forLoop
  | ifCondition
  | arrayAccess
  | arrayCompare
  | arraySwap
  | arrayHighlight
  | variableSet
  | variableGet
  | counterIncrement
  | updateDescription
  | pauseExecution
deriving DecidableEq, Repr, Inhabited

namespace NodeKind

/-- All kinds, in the order of the catalog. -/
def all : List NodeKind :=
  [start, finish, forLoop, ifCondition, arrayAccess, arrayCompare, arraySwap, arrayHighlight,
    variableSet, variableGet, counterIncrement, updateDescription, pauseExecution]

def tag : NodeKind → String
  | start => "start"
  | finish => "end"
  | forLoop => "for-loop"
  | ifCondition => "if-condition"
  | arrayAccess => "array-access"
  | arrayCompare => "array-compare"
  | arraySwap => "array-swap"
  | arrayHighlight => "array-highlight"
  | variableSet => "variable-set"
  | variableGet => "variable-get"
  | counterIncrement => "counter-increment"
  | updateDescription => "update-description"
  | pauseExecution => "pause-execution"

def ofTag? (tag : String) : Option NodeKind :=
  all.find? (·.tag = tag)

theorem ofTag?_tag (kind : NodeKind) : ofTag? kind.tag = some kind := by
  cases kind <;> decide

theorem tag_of_ofTag? {tag : String} {kind : NodeKind} (h : ofTag? tag = some kind) :
    kind.tag = tag := by
  simpa using List.find?_some h

end NodeKind
end FlowTrace
