import FlowTrace.Execution.Context
import FlowTrace.Execution.Index

/-!
# Reading inputs

An input reads the output that feeds it, else the literal among the parameters of its node.  Outputs
are computed when they are read, from the context of that moment, and may in turn read inputs.  A
chain of reads that comes back to a node it has passed gives the zero of the output there, so every
read ends.
-/

namespace FlowTrace

namespace Node

/-- The kind of an input; an unknown one takes any data. -/
def inputKind (node : Node) (handle : String) : HandleKind :=
  ((node.input? handle).map Handle.kind).getD .any

def outputKind (node : Node) (handle : String) : HandleKind :=
  ((node.output? handle).map Handle.kind).getD .any

/-- The comparator among the parameters of a node, or another where it is missing or unknown. -/
def comparator (node : Node) (otherwise : Comparator) : Comparator :=
  ((node.text? "operator").bind Comparator.ofSymbol?).getD otherwise

/-- Reads an input, or the zero of its kind where nothing supplies it. -/
def readOrZero (node : Node) (read : String → Option Value) (handle : String) : Value :=
  (read handle).getD (.zero (node.inputKind handle))

end Node

namespace Context

/-- The array that an array access looks into, and whether it is the working array. -/
def accessedArray (context : Context) : Option Value → Array Float × Bool
  | some (.array items) => (items, false)
  | _ => (context.array, true)

/-- The output of a node, if it has one at the moment, given how its inputs read. -/
def output? (context : Context) (node : Node) (read : String → Option Value) : Option Value :=
  match node.kind with
  | .forLoop =>
      match context.loopOf? node.id with
      | some frame => some (.number frame.current)
      | none => context.valueOf? (node.textOr "variable" "i")
  | .ifCondition =>
      let left := node.readOrZero read "left"
      let right := node.readOrZero read "right"
      some (.bool ((node.comparator .equal).holds left right))
  | .arrayAccess =>
      match context.reads.get? node.id with
      | some value => some value
      | none => do
          let i ← (node.readOrZero read "index").asIndex
          let x ← (context.accessedArray (read "array")).1[i]?
          return .number x
  | .arrayCompare => do
      let i ← (node.readOrZero read "i").asIndex
      let j ← (node.readOrZero read "j").asIndex
      let a ← context.array[i]?
      let b ← context.array[j]?
      return .bool ((node.comparator .greater).holds (.number a) (.number b))
  | .variableSet | .variableGet => context.valueOf? (node.textOr "name" "x")
  | .counterIncrement => context.valueOf? (node.textOr "name" "count")
  | .start | .finish | .arraySwap | .arrayHighlight | .updateDescription | .pauseExecution => none

/-- The output of a node, or the zero of its kind where it has none at the moment. -/
def output (context : Context) (node : Node) (handle : String) (read : String → Option Value) :
    Value :=
  (context.output? node read).getD (.zero (node.outputKind handle))

def inputLiteral? (context : Context) (node : Node) (handle : String) : Option Value :=
  (node.data.get? handle).bind context.literal?

end Context

namespace Index

def unvisited (index : Index) (visited : List NodeId) : List NodeId :=
  index.nodes.names.filter fun id => !visited.contains id

theorem mem_names_of_node? {index : Index} {id : NodeId} {node : Node}
    (h : index.node? id = some node) : id ∈ index.nodes.names := by
  unfold node? Table.get? at h
  unfold Table.names
  generalize index.nodes.entries = entries at h
  induction entries with
  | nil => simp at h
  | cons entry rest ih =>
      rw [List.lookup_cons] at h
      split at h
      · next heq => simp [eq_of_beq heq]
      · exact List.mem_cons_of_mem _ (ih h)

/-- A chain of reads that passes another node has fewer left to pass. -/
theorem length_unvisited_lt {index : Index} {visited : List NodeId} {id : NodeId} {node : Node}
    (hnode : index.node? id = some node) (hnew : ¬ visited.contains id = true) :
    (index.unvisited (id :: visited)).length < (index.unvisited visited).length := by
  have hsub : index.unvisited (id :: visited) =
      (index.unvisited visited).filter fun other => other ≠ id := by
    unfold unvisited
    rw [List.filter_filter]
    congr 1
    funext other
    simp
  rw [hsub]
  apply List.length_filter_lt_length_iff_exists.2
  refine ⟨id, List.mem_filter.2 ⟨mem_names_of_node? hnode, ?_⟩, ?_⟩
  · simpa using hnew
  · simp

/-- The value of an input, if something supplies it, for a chain of reads that has passed the
visited nodes. -/
def inputAfter? (index : Index) (context : Context) (visited : List NodeId) (node : Node)
    (handle : String) : Option Value :=
  match index.source? node.id handle with
  | none => context.inputLiteral? node handle
  | some (id, output) =>
      match _ : index.node? id with
      | none => context.inputLiteral? node handle
      | some producer =>
          if _ : visited.contains id then
            some (.zero (producer.outputKind output))
          else
            some (context.output producer output fun input =>
              index.inputAfter? context (id :: visited) producer input)
termination_by (index.unvisited visited).length
decreasing_by
  exact length_unvisited_lt (by assumption) (by assumption)

def input? (index : Index) (context : Context) (node : Node) (handle : String) : Option Value :=
  index.inputAfter? context [] node handle

/-- The value of an input; one that nothing supplies reads the zero of its kind. -/
def input (index : Index) (context : Context) (node : Node) (handle : String) : Value :=
  node.readOrZero (index.input? context node) handle

def isFed (index : Index) (node : Node) (handle : String) : Bool :=
  (index.source? node.id handle).isSome

end Index
end FlowTrace
