import FlowTrace.Execution.Index

/-!
# What the index of a graph finds

The index of a graph is filled by one pass over the nodes and one over the connections.  Its
look-ups agree with plain searches through the graph:

* `Graph.index_node?` — the node with an id is the first one in the list;
* `Graph.index_next?` — an execution output leads where its first connection leads;
* `Graph.exists_connection_of_next?` — hence every move along an output follows a stored connection;
* `Graph.index_producers` — a data input is fed by the data outputs connected to it, in their order;
* `Graph.index_source?` — hence it reads from the first of them;
* `Graph.feeds` — the connections from data outputs into an input, the first of which counts;
* `Index.Scans` and `Graph.index_scans` — all three look-ups answer like walks through the lists.
-/

namespace FlowTrace

namespace Index

/-! ## Adding nodes -/

/-- Of nodes with one id the first is found. -/
theorem node?_foldl_addNode (nodes : List Node) (id : NodeId) :
    ∀ index : Index,
      (nodes.foldl addNode index).node? id = (index.node? id).or (nodes.find? (·.id = id)) := by
  induction nodes with
  | nil =>
      intro index
      simp
  | cons node rest ih =>
      intro index
      have hadd : (index.addNode node).node? id =
          if id = node.id then some ((index.node? node.id).getD node) else index.node? id :=
        Table.get?_insertIfNew index.nodes node.id id node
      rw [List.foldl_cons, ih, hadd]
      by_cases hid : id = node.id
      · -- A node that was there before is not replaced.
        subst hid
        cases index.node? node.id <;> simp
      · have hne : ¬ node.id = id := fun h => hid h.symm
        simp [hid, hne]

/-- Nodes leave all that an index holds about connections as it is. -/
theorem connections_foldl_addNode (nodes : List Node) :
    ∀ index : Index, (nodes.foldl addNode index).targets = index.targets ∧
      (nodes.foldl addNode index).sources = index.sources := by
  induction nodes with
  | nil =>
      intro index
      exact ⟨rfl, rfl⟩
  | cons node rest ih =>
      intro index
      exact ih (index.addNode node)

/-! ## Adding connections -/

theorem node?_addConnection (index : Index) (connection : Connection) (id : NodeId) :
    (index.addConnection connection).node? id = index.node? id := by
  unfold addConnection
  split
  · rfl
  · split <;> rfl

theorem node?_foldl_addConnection (connections : List Connection) (id : NodeId) :
    ∀ index : Index, (connections.foldl addConnection index).node? id = index.node? id := by
  induction connections with
  | nil =>
      intro index
      rfl
  | cons connection rest ih =>
      intro index
      rw [List.foldl_cons, ih, node?_addConnection]

/-- Whether a handle is an execution output of the node that the index holds under an id. -/
def isExecutionOutput (index : Index) (id : NodeId) (handle : String) : Bool :=
  (index.node? id).any (·.isExecutionOutput handle)

theorem isExecutionOutput_addConnection (index : Index) (connection : Connection) (id : NodeId)
    (handle : String) :
    (index.addConnection connection).isExecutionOutput id handle =
      index.isExecutionOutput id handle := by
  unfold isExecutionOutput
  rw [node?_addConnection]

/-- The first connection from an execution output is kept; all others are dropped. -/
theorem next?_addConnection (index : Index) (connection : Connection) (id : NodeId)
    (handle : String) :
    (index.addConnection connection).next? id handle =
      if connection.leaves id handle = true ∧ index.isExecutionOutput id handle = true then
        some ((index.next? id handle).getD connection.target)
      else
        index.next? id handle := by
  -- A connection is kept or dropped at its own source, so the two places are compared first.
  by_cases hleaves : id = connection.source ∧ handle = connection.sourceHandle
  · rcases hleaves with ⟨rfl, rfl⟩
    have hself : connection.leaves connection.source connection.sourceHandle = true := by
      simp [Connection.leaves]
    unfold addConnection isExecutionOutput Node.isExecutionOutput
    cases hnode : index.node? connection.source with
    | none =>
        simp
    | some node =>
        cases houtput : node.output? connection.sourceHandle with
        | none =>
            simp [houtput]
        | some output =>
            cases hkind : output.kind.isExecution with
            | true =>
                simp [houtput, hkind, hself, next?, pairAt?_bindFirst]
            | false =>
                simp [houtput, hkind, next?]
  · have hother : ¬ (connection.leaves id handle = true ∧
        index.isExecutionOutput id handle = true) := by
      intro h
      have hsame : connection.source = id ∧ connection.sourceHandle = handle := by
        simpa [Connection.leaves] using h.1
      exact hleaves ⟨hsame.1.symm, hsame.2.symm⟩
    rw [if_neg hother]
    unfold addConnection
    split
    · rfl
    · split
      · simp only [next?, pairAt?_bindFirst, if_neg hleaves]
      · rfl

/-- An execution output leads where the first of several connections leads. -/
theorem next?_foldl_addConnection (connections : List Connection) (id : NodeId) (handle : String) :
    ∀ index : Index,
      (connections.foldl addConnection index).next? id handle =
        (index.next? id handle).or
          (if index.isExecutionOutput id handle = true then
            (connections.find? (·.leaves id handle)).map (·.target)
          else
            none) := by
  induction connections with
  | nil =>
      intro index
      simp
  | cons connection rest ih =>
      intro index
      rw [List.foldl_cons, ih, isExecutionOutput_addConnection, next?_addConnection]
      by_cases hexec : index.isExecutionOutput id handle = true
      · by_cases hleaves : connection.leaves id handle = true
        · -- The first connection counts: one found already hides this one, and this one the rest.
          cases index.next? id handle <;> simp [hexec, hleaves]
        · simp [hexec, hleaves]
      · simp [hexec]

/-- Whether a connection starts at a data output of the node that the index holds under an id. -/
def carriesData (index : Index) (ends : Endpoints) : Bool :=
  (index.node? ends.source).any (·.isDataOutput ends.sourceHandle)

theorem carriesData_addConnection (index : Index) (connection : Connection) (ends : Endpoints) :
    (index.addConnection connection).carriesData ends = index.carriesData ends := by
  unfold carriesData
  rw [node?_addConnection]

/-- A connection from a data output feeds its input behind those that do already. -/
theorem producers_addConnection (index : Index) (connection : Connection) (id : NodeId)
    (handle : String) :
    (index.addConnection connection).producers id handle =
      if (connection.enters id handle && index.carriesData connection.toEndpoints) = true then
        index.producers id handle ++ [(connection.source, connection.sourceHandle)]
      else
        index.producers id handle := by
  unfold addConnection carriesData Node.isDataOutput
  cases hnode : index.node? connection.source with
  | none =>
      simp
  | some node =>
      cases houtput : node.output? connection.sourceHandle with
      | none =>
          simp [houtput]
      | some output =>
          cases hkind : output.kind.isExecution with
          | true =>
              simp [houtput, hkind, producers]
          | false =>
              -- The entry is made at the target, so the two inputs are compared.
              by_cases hsame : id = connection.target ∧ handle = connection.targetHandle
              · rcases hsame with ⟨rfl, rfl⟩
                have hself :
                    connection.enters connection.target connection.targetHandle = true := by
                  simp [Connection.enters]
                simp [houtput, hkind, producers, listAt_listLast, hself]
              · have hother : connection.enters id handle = false := by
                  rw [Bool.eq_false_iff]
                  intro henters
                  have hends : connection.target = id ∧ connection.targetHandle = handle := by
                    simpa [Connection.enters] using henters
                  exact hsame ⟨hends.1.symm, hends.2.symm⟩
                simp [houtput, hkind, producers, listAt_listLast, hother, hsame]

/-- The producers of an input are listed in the order of the connections. -/
theorem producers_foldl_addConnection (connections : List Connection) (id : NodeId)
    (handle : String) :
    ∀ index : Index,
      (connections.foldl addConnection index).producers id handle =
        index.producers id handle ++
          (connections.filter fun c => c.enters id handle && index.carriesData c.toEndpoints).map
            fun c => (c.source, c.sourceHandle) := by
  induction connections with
  | nil =>
      intro index
      simp
  | cons connection rest ih =>
      intro index
      have hcarries : (index.addConnection connection).carriesData = index.carriesData := by
        funext ends
        exact carriesData_addConnection index connection ends
      rw [List.foldl_cons, ih, hcarries, producers_addConnection]
      cases hfeeds : connection.enters id handle && index.carriesData connection.toEndpoints with
      | true => simp [hfeeds]
      | false => simp [hfeeds]

end Index

namespace Graph

/-- Some node is found under the id of each node. -/
theorem isSome_node?_of_mem {graph : Graph} {node : Node} (hmem : node ∈ graph.nodes) :
    (graph.node? node.id).isSome = true := by
  simpa [Graph.node?] using ⟨node, hmem, rfl⟩

/-- The index finds the first node with an id. -/
@[simp] theorem index_node? (graph : Graph) (id : NodeId) :
    graph.index.node? id = graph.node? id := by
  unfold Graph.index
  rw [Index.node?_foldl_addConnection, Index.node?_foldl_addNode]
  simp [Index.node?, Graph.node?]

/-- An execution output leads where its first connection leads; any other handle leads nowhere. -/
theorem index_next? (graph : Graph) (id : NodeId) (handle : String) :
    graph.index.next? id handle =
      if (graph.node? id).any (·.isExecutionOutput handle) = true then
        (graph.connections.find? (·.leaves id handle)).map (·.target)
      else
        none := by
  have hnode : (graph.nodes.foldl Index.addNode {}).node? id = graph.node? id := by
    rw [Index.node?_foldl_addNode]
    simp [Index.node?, Graph.node?]
  have hempty : (graph.nodes.foldl Index.addNode {}).next? id handle = none := by
    have htargets := (Index.connections_foldl_addNode graph.nodes {}).1
    simp [Index.next?, htargets, Index.pairAt?]
  unfold Graph.index
  rw [Index.next?_foldl_addConnection, hempty, Index.isExecutionOutput, hnode]
  simp

def carriesData (graph : Graph) (ends : Endpoints) : Bool :=
  (graph.node? ends.source).any (·.isDataOutput ends.sourceHandle)

/-- A data input is fed by the data outputs that are connected to it, in the order of the
connections. -/
theorem index_producers (graph : Graph) (id : NodeId) (handle : String) :
    graph.index.producers id handle =
      (graph.connections.filter fun c => c.enters id handle && graph.carriesData c.toEndpoints).map
        fun c => (c.source, c.sourceHandle) := by
  have hcarries : (graph.nodes.foldl Index.addNode {}).carriesData = graph.carriesData := by
    funext ends
    unfold Index.carriesData carriesData
    rw [Index.node?_foldl_addNode]
    simp [Index.node?, Graph.node?]
  have hempty : (graph.nodes.foldl Index.addNode {}).producers id handle = [] := by
    have hsources := (Index.connections_foldl_addNode graph.nodes {}).2
    simp [Index.producers, hsources, Index.listAt, Index.pairAt?]
  unfold Graph.index
  rw [Index.producers_foldl_addConnection, hempty, hcarries]
  simp

/-- A data input reads from the first data output that is connected to it. -/
theorem index_source? (graph : Graph) (id : NodeId) (handle : String) :
    graph.index.source? id handle =
      (graph.connections.find? fun c => c.enters id handle && graph.carriesData c.toEndpoints).map
        fun c => (c.source, c.sourceHandle) := by
  unfold Index.source?
  rw [index_producers, List.head?_map, List.head?_filter]

/-- The ends of the connections from data outputs into an input, in their order. -/
def feeds (graph : Graph) (node : NodeId) (handle : String) : List Endpoints :=
  (graph.connections.map Connection.toEndpoints).filter fun ends =>
    ends.target = node && ends.targetHandle = handle && graph.carriesData ends

/-- The first connection that feeds an input says where it reads from. -/
theorem index_source?_eq_head? (graph : Graph) (id : NodeId) (handle : String) :
    graph.index.source? id handle =
      (graph.feeds id handle).head?.map fun ends => (ends.source, ends.sourceHandle) := by
  rw [index_source?, feeds, List.head?_filter, List.find?_map, Option.map_map]
  rfl

theorem exists_connection_of_next? {graph : Graph} {id next : NodeId} {handle : String} :
    graph.index.next? id handle = some next →
      ∃ connection ∈ graph.connections, ∃ node,
        connection.source = id ∧ connection.sourceHandle = handle ∧ connection.target = next ∧
          graph.node? id = some node ∧ node.isExecutionOutput handle = true := by
  intro h
  rw [index_next?] at h
  cases hnode : graph.node? id with
  | none =>
      simp [hnode] at h
  | some node =>
      have hexec : node.isExecutionOutput handle = true := by
        cases hcase : node.isExecutionOutput handle with
        | true => rfl
        | false => simp [hnode, hcase] at h
      have hfound : (graph.connections.find? (·.leaves id handle)).map (·.target) = some next := by
        simpa [hnode, hexec] using h
      rcases Option.map_eq_some_iff.1 hfound with ⟨connection, hfind, htarget⟩
      have hleaves : connection.source = id ∧ connection.sourceHandle = handle := by
        simpa [Connection.leaves] using List.find?_some hfind
      exact ⟨connection, List.mem_of_find?_eq_some hfind, node, hleaves.1, hleaves.2, htarget, rfl,
        hexec⟩

theorem exists_connection_of_source? {graph : Graph} {id producer : NodeId}
    {handle output : String} :
    graph.index.source? id handle = some (producer, output) →
      ∃ connection ∈ graph.connections, ∃ node,
        connection.target = id ∧ connection.targetHandle = handle ∧
          connection.source = producer ∧ connection.sourceHandle = output ∧
          graph.node? producer = some node ∧ node.isDataOutput output = true := by
  intro h
  rw [index_source?] at h
  rcases Option.map_eq_some_iff.1 h with ⟨connection, hfind, hends⟩
  obtain ⟨rfl, rfl⟩ := Prod.mk.inj hends
  have hfeeds : (connection.target = id ∧ connection.targetHandle = handle) ∧
      graph.carriesData connection.toEndpoints = true := by
    simpa [Connection.enters] using List.find?_some hfind
  rcases (Option.any_eq_true _ _).1 hfeeds.2 with ⟨node, hnode, hdata⟩
  exact ⟨connection, List.mem_of_find?_eq_some hfind, node, hfeeds.1.1, hfeeds.1.2, rfl, rfl, hnode,
    hdata⟩

end Graph

/-! ## Walks through the lists -/

/-- An index answers like walks through the lists of a graph, whatever stands in them.  The node
with an id is the first one.  An output leads to the target of the first connection that starts at
it, provided that it is an execution output of the node with its id.  An input reads from the start
of the first connection into it that starts at a data output of a node that is there; so the node it
reads from is found. -/
structure Index.Scans (index : Index) (graph : Graph) : Prop where
  node : ∀ id, index.node? id = graph.nodes.find? (·.id = id)
  next : ∀ id handle, index.next? id handle =
    if (graph.nodes.find? (·.id = id)).any (·.isExecutionOutput handle) = true then
      (graph.connections.find? fun c => c.source = id && c.sourceHandle = handle).map (·.target)
    else
      none
  source : ∀ id handle, index.source? id handle =
    (graph.connections.find? fun c => c.target = id && c.targetHandle = handle &&
      (graph.nodes.find? (·.id = c.source)).any (·.isDataOutput c.sourceHandle)).map
        fun c => (c.source, c.sourceHandle)
  found : ∀ id handle producer output, index.source? id handle = some (producer, output) →
    ∃ node, index.node? producer = some node ∧ node.isDataOutput output = true

namespace Graph

/-- The index of every graph answers like walks through its lists. -/
theorem index_scans (graph : Graph) : graph.index.Scans graph where
  node id := graph.index_node? id
  next id handle := graph.index_next? id handle
  source id handle := graph.index_source? id handle
  found id handle producer output hsource := by
    rcases exists_connection_of_source? hsource with ⟨-, -, node, -, -, -, -, hnode, hdata⟩
    exact ⟨node, (graph.index_node? producer).trans hnode, hdata⟩

-- In front of the connection that counts stand those from an unknown node, from an unknown output
-- and from an execution output; behind it stands another one that would do.
example :
    let graph : Graph :=
      { nodes := [Node.new "a" .arrayAccess, Node.new "a" .start, Node.new "b" .ifCondition]
        connections :=
          [⟨⟨"lost", "value", "b", "left"⟩, "1"⟩, ⟨⟨"a", "result", "b", "left"⟩, "2"⟩,
            ⟨⟨"a", execOut, "b", "left"⟩, "3"⟩, ⟨⟨"a", "value", "b", "left"⟩, "4"⟩,
            ⟨⟨"a", execOut, "lost", execIn⟩, "5"⟩, ⟨⟨"b", "result", "b", "left"⟩, "6"⟩] }
    (graph.index.node? "a").map Node.kind = some .arrayAccess ∧
      graph.index.next? "a" execOut = some "b" ∧
      graph.index.source? "b" "left" = some ("a", "value") := by
  decide +kernel

end Graph
end FlowTrace
