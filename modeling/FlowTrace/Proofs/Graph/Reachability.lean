import FlowTrace.Graph.Reachability

/-!
# What reachability collects

The ids collected from an id on contain it and are closed: with the id of a node they contain the
ids that the node needs directly.

* `Graph.mem_neighbours_iff` — what a node needs directly, in terms of the connections;
* `Graph.mem_reachFrom_of_neighbour` — a round leaves no need of its frontier behind;
* `Graph.mem_reachable_of_neighbour` — the ids reached are closed.
-/

namespace FlowTrace

namespace Graph

variable {graph : Graph}

/-- A node needs the targets of its execution outputs and the sources of its data inputs. -/
theorem mem_neighbours_iff {id other : NodeId} :
    other ∈ graph.neighbours id ↔
      ∃ node, graph.node? id = some node ∧ ∃ connection ∈ graph.connections,
        (connection.source = id ∧ node.isExecutionOutput connection.sourceHandle = true ∧
          connection.target = other) ∨
        (connection.target = id ∧ node.isDataInput connection.targetHandle = true ∧
          connection.source = other) := by
  unfold neighbours
  cases graph.node? id with
  | none =>
      simp
  | some node =>
      simp only [List.mem_append, List.mem_map, List.mem_filter, Bool.and_eq_true,
        decide_eq_true_eq, Option.some.injEq, exists_eq_left']
      constructor
      · rintro (⟨connection, ⟨hmem, hsource, hexec⟩, htarget⟩ |
          ⟨connection, ⟨hmem, htarget, hdata⟩, hsource⟩)
        · exact ⟨connection, hmem, Or.inl ⟨hsource, hexec, htarget⟩⟩
        · exact ⟨connection, hmem, Or.inr ⟨htarget, hdata, hsource⟩⟩
      · rintro ⟨connection, hmem, ⟨hsource, hexec, htarget⟩ | ⟨htarget, hdata, hsource⟩⟩
        · exact Or.inl ⟨connection, ⟨hmem, hsource, hexec⟩, htarget⟩
        · exact Or.inr ⟨connection, ⟨hmem, htarget, hdata⟩, hsource⟩

theorem mem_reachFrom_of_mem {unvisited : List Node} {frontier : List NodeId} {id : NodeId}
    (hmem : id ∈ frontier) : id ∈ graph.reachFrom unvisited frontier := by
  rw [reachFrom]
  split
  · exact hmem
  · exact List.mem_append_left _ hmem

/-- The needs of every unvisited node that is reached are reached as well. -/
theorem mem_reachFrom_of_neighbour {id other : NodeId} (hneeds : other ∈ graph.neighbours id)
    (unvisited : List Node) (frontier : List NodeId) :
    id ∈ graph.reachFrom unvisited frontier → (∃ node ∈ unvisited, node.id = id) →
      other ∈ graph.reachFrom unvisited frontier := by
  fun_induction reachFrom graph unvisited frontier with
  | case1 unvisited frontier hnone =>
      -- The last frontier meets no unvisited node.
      rintro hmem ⟨node, hnode, rfl⟩
      have hwithin : node ∈ within frontier unvisited :=
        List.mem_filter.2 ⟨hnode, by simpa using hmem⟩
      simp [hnone] at hwithin
  | case2 unvisited frontier _ ih =>
      rintro hmem ⟨node, hnode, rfl⟩
      by_cases hfrontier : node.id ∈ frontier
      · -- This round visits the node, so its needs are in the next frontier.
        have hwithin : node ∈ within frontier unvisited :=
          List.mem_filter.2 ⟨hnode, by simpa using hfrontier⟩
        have hnext : other ∈ (within frontier unvisited).flatMap fun node =>
            graph.neighbours node.id :=
          List.mem_flatMap.2 ⟨node, hwithin, hneeds⟩
        exact List.mem_append_right _ (mem_reachFrom_of_mem hnext)
      · have hbeyond : node ∈ beyond frontier unvisited :=
          List.mem_filter.2 ⟨hnode, by simpa using hfrontier⟩
        have hlater := (List.mem_append.1 hmem).resolve_left hfrontier
        exact List.mem_append_right _ (ih hlater ⟨node, hbeyond, rfl⟩)

theorem self_mem_reachable (graph : Graph) (id : NodeId) : id ∈ graph.reachable id :=
  mem_reachFrom_of_mem (List.mem_singleton_self id)

/-- With an id, the ids that its node needs are reached. -/
theorem mem_reachable_of_neighbour {start id other : NodeId} (hmem : id ∈ graph.reachable start)
    (hneeds : other ∈ graph.neighbours id) : other ∈ graph.reachable start := by
  rcases mem_neighbours_iff.1 hneeds with ⟨node, hnode, -⟩
  exact mem_reachFrom_of_neighbour hneeds graph.nodes [start] hmem
    ⟨node, mem_of_node? hnode, node?_id hnode⟩

end Graph
end FlowTrace
