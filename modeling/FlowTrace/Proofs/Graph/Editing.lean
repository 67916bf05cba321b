import FlowTrace.Graph.Editing

/-!
# What an editing operation does

An editing operation changes a graph in one place, or fails and changes nothing.

* `Graph.without`, `Graph.withNode`, `Graph.withData`, `Graph.withConnection` and
  `Graph.withoutConnection` — the graphs that the operations leave;
* `Edit` and `Graph.edit` — the operations as calls, with the id that a call gives out;
* `Graph.Edited` and `Graph.edited_edit` — the effects that a call can have;
* `Graph.node?_without` and its companions — what is found in the graph after an operation.
-/

namespace FlowTrace

/-- Erasing the first item of one sort spares what a search for another sort finds. -/
theorem find?_eraseP {α : Type} {p q : α → Bool} {list : List α}
    (h : ∀ item, list.find? q = some item → p item = false) :
    (list.eraseP p).find? q = list.find? q := by
  induction list with
  | nil =>
      rfl
  | cons item rest ih =>
      cases hp : p item with
      | true =>
          -- The erased item is not the one that is searched for.
          have hq : q item = false := by
            cases hq : q item with
            | false => rfl
            | true => exact hp.symm.trans (h item (by simp [hq]))
          simp [hp, hq]
      | false =>
          cases hq : q item with
          | true => simp [hp, hq]
          | false =>
              have hrest := ih (fun found hfound => h found (by simpa [hq] using hfound))
              simpa [List.eraseP_cons, hp, hq] using hrest

/-- Changing an item leaves every view alone that the change does not show in. -/
theorem map_modifyFirst {α β : Type} {p : α → Bool} {f : α → α} {view : α → β}
    (hview : ∀ item, view (f item) = view item) (list : List α) :
    (modifyFirst p f list).map view = list.map view := by
  induction list with
  | nil =>
      rfl
  | cons item rest ih =>
      cases hp : p item with
      | true => simp [modifyFirst, hp, hview]
      | false => simp [modifyFirst, hp, ih]

/-- Nor does it show in such a view of what is found by such a view. -/
theorem find?_modifyFirst {α β : Type} {p q : α → Bool} {f : α → α} {view : α → β}
    (hsearch : ∀ item, q (f item) = q item) (hview : ∀ item, view (f item) = view item)
    (list : List α) : ((modifyFirst p f list).find? q).map view = (list.find? q).map view := by
  induction list with
  | nil =>
      rfl
  | cons item rest ih =>
      cases hp : p item with
      | true =>
          cases hq : q item <;> simp [modifyFirst, hp, hsearch, hq, hview]
      | false =>
          cases hq : q item <;> simp [modifyFirst, hp, hq, ih]

namespace Graph

variable {graph : Graph}

/-! ## The graphs that are left -/

def withNode (graph : Graph) (kind : NodeKind) (position : Position) : Graph :=
  { graph with
    nodes := graph.nodes ++
      [{ Node.new (numbered kind.tag (graph.nextNumber kind.tag)) kind with position }]
    counter := graph.nextNumber kind.tag }

/-- A graph without a node and the connections that touch it. -/
def without (graph : Graph) (id : NodeId) : Graph :=
  { graph with
    nodes := graph.nodes.eraseP (·.id = id)
    connections := graph.connections.filter fun c => c.source ≠ id && c.target ≠ id }

def withData (graph : Graph) (id : NodeId) (data : Table Json) : Graph :=
  { graph with
    nodes := modifyFirst (·.id = id) (fun node => { node with data := node.data.extend data })
      graph.nodes }

def withConnection (graph : Graph) (ends : Endpoints) : Graph :=
  { graph with
    connections := graph.connections ++
      [{ toEndpoints := ends, id := numbered "conn" (graph.nextNumber "conn") }]
    counter := graph.nextNumber "conn" }

def withoutConnection (graph : Graph) (id : ConnectionId) : Graph :=
  { graph with connections := graph.connections.eraseP (·.id = id) }

theorem removeNode_of_node? {id : NodeId} {node : Node} (hnode : graph.node? id = some node) :
    graph.removeNode id = .ok (graph.without id, node) := by
  simp only [removeNode, hnode]
  rfl

theorem updateNode_of_node? {id : NodeId} {node : Node} (hnode : graph.node? id = some node)
    (data : Table Json) : graph.updateNode id data = .ok (graph.withData id data) := by
  simp only [updateNode, hnode]
  rfl

theorem removeConnection_of_connection? {id : ConnectionId} {connection : Connection}
    (hconnection : graph.connection? id = some connection) :
    graph.removeConnection id = .ok (graph.withoutConnection id, connection) := by
  simp only [removeConnection, hconnection]
  rfl

theorem addConnection_of_free {ends : Endpoints} (hfree : graph.rejection? ends = none) :
    graph.addConnection ends =
      .ok (graph.withConnection ends, numbered "conn" (graph.nextNumber "conn")) := by
  simp only [addConnection, hfree]
  rfl

theorem addConnection_of_rejected {ends : Endpoints} {reason : Rejection}
    (hrejected : graph.rejection? ends = some reason) :
    graph.addConnection ends = .error reason := by
  simp only [addConnection, hrejected]

end Graph

/-! ## Calls -/

inductive Edit
  | addNode (kind : NodeKind) (position : Position)
  | removeNode (id : NodeId)
  | updateNode (id : NodeId) (data : Table Json)
  | addConnection (ends : Endpoints)
  | connect (ends : Endpoints)
  | removeConnection (id : ConnectionId)

namespace Graph

/-- The graph after a call, and the id that the call gives out.  A call that fails leaves the graph
as it was. -/
def edit (graph : Graph) : Edit → Graph × Option String
  | .addNode kind position => ((graph.addNode kind position).1, (graph.addNode kind position).2)
  | .removeNode id =>
      match graph.removeNode id with
      | .ok (smaller, _) => (smaller, none)
      | .error _ => (graph, none)
  | .updateNode id data =>
      match graph.updateNode id data with
      | .ok updated => (updated, none)
      | .error _ => (graph, none)
  | .addConnection ends =>
      match graph.addConnection ends with
      | .ok (larger, id) => (larger, some id)
      | .error _ => (graph, none)
  | .connect ends =>
      match graph.connect ends with
      | .ok (larger, id) => (larger, some id)
      | .error _ => (graph, none)
  | .removeConnection id =>
      match graph.removeConnection id with
      | .ok (smaller, _) => (smaller, none)
      | .error _ => (graph, none)

/-- The effects that a call can have. -/
inductive Edited (graph : Graph) : Graph × Option String → Prop where
  | unchanged : Edited graph (graph, none)
  | nodeAdded (kind : NodeKind) (position : Position) :
      Edited graph
        (graph.withNode kind position, some (numbered kind.tag (graph.nextNumber kind.tag)))
  | nodeRemoved (id : NodeId) : Edited graph (graph.without id, none)
  | nodeUpdated (id : NodeId) (data : Table Json) : Edited graph (graph.withData id data, none)
  | connectionAdded {ends : Endpoints} :
      graph.rejection? ends = none →
      Edited graph (graph.withConnection ends, some (numbered "conn" (graph.nextNumber "conn")))
  | connectionRemoved (id : ConnectionId) : Edited graph (graph.withoutConnection id, none)

/-- A call has one of the effects listed. -/
theorem edited_edit (graph : Graph) (edit : Edit) : graph.Edited (graph.edit edit) := by
  cases edit with
  | addNode kind position =>
      exact Edited.nodeAdded kind position
  | removeNode id =>
      cases hnode : graph.node? id with
      | none => simpa [Graph.edit, removeNode, hnode] using Edited.unchanged
      | some node =>
          simpa [Graph.edit, removeNode_of_node? hnode] using Edited.nodeRemoved id
  | updateNode id data =>
      cases hnode : graph.node? id with
      | none => simpa [Graph.edit, updateNode, hnode] using Edited.unchanged
      | some node =>
          simpa [Graph.edit, updateNode_of_node? hnode] using Edited.nodeUpdated id data
  | addConnection ends =>
      cases hfree : graph.rejection? ends with
      | none =>
          simpa [Graph.edit, addConnection_of_free hfree] using Edited.connectionAdded hfree
      | some reason =>
          simpa [Graph.edit, addConnection_of_rejected hfree] using Edited.unchanged
  | connect ends =>
      -- The same operation under another type of error.
      cases hfree : graph.rejection? ends with
      | none =>
          have hconnect : graph.connect ends =
              .ok (graph.withConnection ends, numbered "conn" (graph.nextNumber "conn")) := by
            rw [connect, addConnection_of_free hfree]
            rfl
          simpa [Graph.edit, hconnect] using Edited.connectionAdded hfree
      | some reason =>
          have hconnect : graph.connect ends = .error (.rejected reason) := by
            rw [connect, addConnection_of_rejected hfree]
            rfl
          simpa [Graph.edit, hconnect] using Edited.unchanged
  | removeConnection id =>
      cases hconnection : graph.connection? id with
      | none => simpa [Graph.edit, removeConnection, hconnection] using Edited.unchanged
      | some connection =>
          simpa [Graph.edit, removeConnection_of_connection? hconnection] using
            Edited.connectionRemoved id

/-! ## Look-ups -/

variable {graph : Graph}

/-- A node that is found is still found with one more node behind it. -/
theorem node?_withNode {kind : NodeKind} {position : Position} {id : NodeId} {node : Node}
    (hnode : graph.node? id = some node) :
    (graph.withNode kind position).node? id = some node := by
  have hfound : graph.nodes.find? (·.id = id) = some node := hnode
  simp [Graph.node?, withNode, List.find?_append, hfound]

theorem connections_without (graph : Graph) (id : NodeId) :
    (graph.without id).connections =
      graph.connections.filter fun c => c.source ≠ id && c.target ≠ id := rfl

/-- All nodes but the removed one are found as before. -/
theorem node?_without {id other : NodeId} (hne : other ≠ id) :
    (graph.without id).node? other = graph.node? other := by
  apply find?_eraseP
  intro node hfound
  have hid : node.id = other := node?_id hfound
  simpa [hid] using hne

/-- Parameters have no part in the kinds of the nodes that are found. -/
theorem kind_withData (graph : Graph) (id : NodeId) (data : Table Json) (other : NodeId) :
    ((graph.withData id data).node? other).map Node.kind =
      (graph.node? other).map Node.kind := by
  apply find?_modifyFirst
  · intro node
    rfl
  · intro node
    rfl

end Graph
end FlowTrace
