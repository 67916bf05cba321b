import FlowTrace.Graph.Basic

/-!
# The index of a graph

The look-ups that a run makes, prepared once: the node with an id, the node that an execution
output leads to, and the outputs that feed a data input.  Where a graph says something twice, the
first counts; a connection from an unknown node or output is passed over.
-/

namespace FlowTrace

structure Index where
  nodes : Table Node := ∅
  /-- The target of an execution output, by node and handle. -/
  targets : Table (Table NodeId) := ∅
  /-- The outputs that feed a data input, by node and handle, in the order of the connections. -/
  sources : Table (Table (List (NodeId × String))) := ∅

namespace Index

def pairAt? {α : Type} (table : Table (Table α)) (node : NodeId) (handle : String) : Option α :=
  (table.get? node).bind (·.get? handle)

def bindPair {α : Type} (table : Table (Table α)) (node : NodeId) (handle : String) (value : α) :
    Table (Table α) :=
  table.insert node (((table.get? node).getD ∅).insert handle value)

/-- Binds a pair of names that is free: the first binding wins. -/
def bindFirst {α : Type} (table : Table (Table α)) (node : NodeId) (handle : String) (value : α) :
    Table (Table α) :=
  bindPair table node handle ((pairAt? table node handle).getD value)

def listAt {α : Type} (table : Table (Table (List α))) (node : NodeId) (handle : String) : List α :=
  (pairAt? table node handle).getD []

def listLast {α : Type} (table : Table (Table (List α))) (node : NodeId) (handle : String)
    (item : α) : Table (Table (List α)) :=
  bindPair table node handle (listAt table node handle ++ [item])

def node? (index : Index) (id : NodeId) : Option Node :=
  index.nodes.get? id

def next? (index : Index) (node : NodeId) (handle : String) : Option NodeId :=
  pairAt? index.targets node handle

def producers (index : Index) (node : NodeId) (handle : String) : List (NodeId × String) :=
  listAt index.sources node handle

/-- The node and output that a data input reads from: the first that feed it. -/
def source? (index : Index) (node : NodeId) (handle : String) : Option (NodeId × String) :=
  (index.producers node handle).head?

def addNode (index : Index) (node : Node) : Index :=
  { index with nodes := index.nodes.insertIfNew node.id node }

/-- Adds a connection, by the kind of the output it starts at. -/
def addConnection (index : Index) (connection : Connection) : Index :=
  match (index.node? connection.source).bind (·.output? connection.sourceHandle) with
  | none => index
  | some output =>
      if output.kind.isExecution then
        { index with
          targets := bindFirst index.targets connection.source connection.sourceHandle
            connection.target }
      else
        { index with
          sources := listLast index.sources connection.target connection.targetHandle
            (connection.source, connection.sourceHandle) }

/-- Binding a pair of names changes what is held under that pair only. -/
theorem pairAt?_bindPair {α : Type} (table : Table (Table α)) (node other : NodeId)
    (handle name : String) (value : α) :
    pairAt? (bindPair table node handle value) other name =
      if other = node ∧ name = handle then some value else pairAt? table other name := by
  unfold pairAt? bindPair
  rw [Table.get?_insert]
  by_cases hnode : other = node
  · subst hnode
    cases h : table.get? other with
    | none => by_cases hname : name = handle <;> simp [Table.get?_insert, hname]
    | some inner => by_cases hname : name = handle <;> simp [Table.get?_insert, hname]
  · simp [hnode]

theorem pairAt?_bindFirst {α : Type} (table : Table (Table α)) (node other : NodeId)
    (handle name : String) (value : α) :
    pairAt? (bindFirst table node handle value) other name =
      if other = node ∧ name = handle then
        some ((pairAt? table node handle).getD value)
      else
        pairAt? table other name :=
  pairAt?_bindPair table node other handle name _

/-- One more item stands behind those listed under its pair of names; other lists stay as they are.
-/
theorem listAt_listLast {α : Type} (table : Table (Table (List α))) (node other : NodeId)
    (handle name : String) (item : α) :
    listAt (listLast table node handle item) other name =
      if other = node ∧ name = handle then
        listAt table node handle ++ [item]
      else
        listAt table other name := by
  unfold listAt listLast
  rw [pairAt?_bindPair]
  split <;> rfl

end Index

def Graph.index (graph : Graph) : Index :=
  graph.connections.foldl Index.addConnection (graph.nodes.foldl Index.addNode {})

end FlowTrace
