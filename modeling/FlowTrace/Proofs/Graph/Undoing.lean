import FlowTrace.Proofs.Graph.Authoring
import FlowTrace.Proofs.Graph.Rebuilding

/-!
# Undoing an edit

What has been added last can be removed again.  For connections this restores the graph, and the
other way round a connection that was removed can be drawn once more.  For nodes it restores the
graph as long as nothing was connected to the new id before there was a node with it: a new id is
compared with the ids in use, but not with the ends of connections, and these may name no node.

* `Graph.removeNode_of_split` and `Graph.removeConnection_of_split` — removing takes the first item
  with an id out of its list;
* `Graph.looseEnds` and `Graph.Isolated` — ends of connections that name no node, and ids that
  nothing is connected to;
* `Graph.isolated_withNode_iff` — a new node is isolated if and only if its id was no loose end;
* `Graph.forall_isolated_below_iff` — the graphs in which this is so of every new node;
* `Graph.regular_readded` — the rules allow a connection to move to the end of the list.
-/

namespace FlowTrace

/-! ## The first item of its sort -/

section FirstItem

variable {α : Type} {p : α → Bool} {before after : List α} {item : α}

theorem find?_of_split (hbefore : ∀ other ∈ before, p other = false) (hitem : p item = true) :
    (before ++ item :: after).find? p = some item := by
  have hnone : before.find? p = none := by
    apply List.find?_eq_none.2
    intro other hother
    simp [hbefore other hother]
  simp [List.find?_append, hnone, hitem]

theorem eraseP_of_split (hbefore : ∀ other ∈ before, p other = false) (hitem : p item = true) :
    (before ++ item :: after).eraseP p = before ++ after := by
  have hkept : ∀ other ∈ before, ¬ p other = true := by
    intro other hother
    simp [hbefore other hother]
  simp [List.eraseP_append_right _ hkept, hitem]

end FirstItem

namespace Graph

variable {graph : Graph} {ends : Endpoints}

/-- Removing a node takes the first one with its id out of the list. -/
theorem removeNode_of_split {before after : List Node} {node : Node}
    (hsplit : graph.nodes = before ++ node :: after)
    (hfirst : ∀ other ∈ before, other.id ≠ node.id) :
    graph.removeNode node.id =
      .ok ({ graph with
        nodes := before ++ after
        connections := graph.connections.filter fun c =>
          c.source ≠ node.id && c.target ≠ node.id }, node) := by
  have hbefore : ∀ other ∈ before, decide (other.id = node.id) = false := by
    simpa using hfirst
  have hfound : graph.node? node.id = some node := by
    rw [Graph.node?, hsplit]
    exact find?_of_split hbefore (by simp)
  rw [removeNode_of_node? hfound, without, hsplit, eraseP_of_split hbefore (by simp)]

/-- Removing a connection takes the first one with its id out of the list. -/
theorem removeConnection_of_split {before after : List Connection} {connection : Connection}
    (hsplit : graph.connections = before ++ connection :: after)
    (hfirst : ∀ other ∈ before, other.id ≠ connection.id) :
    graph.removeConnection connection.id =
      .ok ({ graph with connections := before ++ after }, connection) := by
  have hbefore : ∀ other ∈ before, decide (other.id = connection.id) = false := by
    simpa using hfirst
  have hfound : graph.connection? connection.id = some connection := by
    rw [connection?, hsplit]
    exact find?_of_split hbefore (by simp)
  rw [removeConnection_of_connection? hfound, withoutConnection, hsplit,
    eraseP_of_split hbefore (by simp)]

/-- No node and no connection has the id that comes next. -/
theorem ne_numbered (graph : Graph) (stem : String) :
    (∀ node ∈ graph.nodes, node.id ≠ numbered stem (graph.nextNumber stem)) ∧
      ∀ connection ∈ graph.connections,
        connection.id ≠ numbered stem (graph.nextNumber stem) :=
  not_mem_ids_iff.1 (graph.nextNumber_unused stem)

/-! ## Nodes -/

/-- Nothing is connected to an id. -/
def Isolated (graph : Graph) (id : NodeId) : Prop :=
  ∀ connection ∈ graph.connections, connection.source ≠ id ∧ connection.target ≠ id

/-- The ends of connections that name no node. -/
def looseEnds (graph : Graph) : List NodeId :=
  (graph.connections.flatMap fun c => [c.source, c.target]).filter fun id =>
    (graph.node? id).isNone

/-- A loose end names no node, and something is connected to it. -/
theorem mem_looseEnds_iff {id : NodeId} :
    id ∈ graph.looseEnds ↔ graph.node? id = none ∧ ¬ graph.Isolated id := by
  have htouched : ¬ graph.Isolated id ↔
      ∃ connection ∈ graph.connections, connection.source = id ∨ connection.target = id := by
    simp only [Isolated, not_forall, exists_prop, ne_eq, not_and_or, not_not]
  rw [htouched, looseEnds, List.mem_filter, Option.isNone_iff_eq_none, and_comm]
  simp [eq_comm]

/-- Sound connections have no loose ends. -/
theorem looseEnds_eq_nil (hfaults : graph.connectionFaults = []) : graph.looseEnds = [] := by
  apply List.eq_nil_iff_forall_not_mem.2
  intro id hmem
  rcases mem_looseEnds_iff.1 hmem with ⟨hnone, htouched⟩
  apply htouched
  intro connection hconnection
  have hfound : ∀ other, other = connection.source ∨ other = connection.target → other ≠ id := by
    rintro other hend rfl
    simpa [hnone] using isSome_of_end hfaults hconnection hend
  exact ⟨hfound _ (Or.inl rfl), hfound _ (Or.inr rfl)⟩

theorem node?_numbered (graph : Graph) (stem : String) :
    graph.node? (numbered stem (graph.nextNumber stem)) = none := by
  apply List.find?_eq_none.2
  intro node hmem
  simpa using (graph.ne_numbered stem).1 node hmem

/-- A new node is isolated if and only if its id was no loose end. -/
theorem isolated_withNode_iff (graph : Graph) (kind : NodeKind) (position : Position) :
    (graph.withNode kind position).Isolated (numbered kind.tag (graph.nextNumber kind.tag)) ↔
      numbered kind.tag (graph.nextNumber kind.tag) ∉ graph.looseEnds := by
  -- The connections are those that there were before.
  have hsame : (graph.withNode kind position).Isolated
      (numbered kind.tag (graph.nextNumber kind.tag)) ↔
        graph.Isolated (numbered kind.tag (graph.nextNumber kind.tag)) := Iff.rfl
  rw [hsame, mem_looseEnds_iff, and_iff_right (graph.node?_numbered kind.tag), not_not]

theorem filter_untouched_eq_self_iff {id : NodeId} :
    (graph.connections.filter fun c => c.source ≠ id && c.target ≠ id) = graph.connections ↔
      graph.Isolated id := by
  simp [List.filter_eq_self, Isolated]

/-- As far as numbers stay below a bound, new nodes come isolated whatever the counter says: this is
so if and only if no loose end is an id that a new node can get with a number below the bound. -/
theorem forall_isolated_below_iff (graph : Graph) (bound : Nat) :
    (∀ counter (kind : NodeKind) position, { graph with counter }.nextNumber kind.tag < bound →
      ∃ larger id, { graph with counter }.addNode kind position = (larger, id) ∧
        larger.Isolated id) ↔
    ∀ (kind : NodeKind) number, 0 < number → number < bound →
      numbered kind.tag number ∈ graph.looseEnds → numbered kind.tag number ∈ graph.ids := by
  constructor
  · intro hisolated kind number hpos hbound hloose
    by_contra hunused
    obtain ⟨counter, rfl⟩ : ∃ counter, number = counter + 1 := ⟨number - 1, by omega⟩
    -- The loose end is the next id once the counter stands right before its number.
    have hnext : { graph with counter }.nextNumber kind.tag = counter + 1 :=
      nextNumber_of_unused hunused
    rcases hisolated counter kind {} (hnext ▸ hbound) with ⟨larger, id, hadded, hnew⟩
    obtain ⟨rfl, rfl⟩ := Prod.mk.inj hadded
    have hclear := (isolated_withNode_iff { graph with counter } kind {}).1 hnew
    rw [hnext] at hclear
    exact hclear hloose
  · intro hclear counter kind position hbound
    refine ⟨_, _, rfl, (isolated_withNode_iff { graph with counter } kind position).2 ?_⟩
    intro hloose
    have hcounted := counter_lt_nextNumber { graph with counter } kind.tag
    have hpos : 0 < { graph with counter }.nextNumber kind.tag :=
      Nat.lt_of_le_of_lt (Nat.zero_le counter) hcounted
    exact nextNumber_unused { graph with counter } kind.tag (hclear kind _ hpos hbound hloose)

/-- Whatever the counter says, new nodes come isolated: this is so if and only if no loose end is an
id that a new node can get. -/
theorem forall_isolated_iff (graph : Graph) :
    (∀ counter kind position, ∃ larger id,
      { graph with counter }.addNode kind position = (larger, id) ∧ larger.Isolated id) ↔
    ∀ (kind : NodeKind) number, 0 < number → numbered kind.tag number ∈ graph.looseEnds →
      numbered kind.tag number ∈ graph.ids := by
  constructor
  · intro hisolated kind number hpos
    exact (forall_isolated_below_iff graph (number + 1)).1
      (fun counter kind position _ => hisolated counter kind position)
      kind number hpos (Nat.lt_succ_self number)
  · -- Every number is below some bound.
    intro hclear counter kind position
    exact (forall_isolated_below_iff graph ({ graph with counter }.nextNumber kind.tag + 1)).2
      (fun kind number hpos _ => hclear kind number hpos)
      counter kind position (Nat.lt_succ_self _)

/-- Adding a node and removing it again restores the nodes.  The new node is isolated, and the
connections are restored too, if and only if no connection had a loose end with the new id.  A graph
takes in every new node like this, whatever its counter says, if and only if no loose end is an id
that a node can get; as long as the numbers fit into a word of 64 bits, only loose ends with such
numbers are in the way.  A graph without faulty connections has no loose ends at all. -/
theorem added_node_isolated_iff (graph : Graph) :
    (∀ kind position, ∃ larger id smaller node,
      graph.addNode kind position = (larger, id) ∧ larger.removeNode id = .ok (smaller, node) ∧
      smaller.nodes = graph.nodes ∧ (larger.Isolated id ↔ id ∉ graph.looseEnds) ∧
      (smaller.connections = graph.connections ↔ id ∉ graph.looseEnds)) ∧
    ((∀ counter kind position, ∃ larger id,
        { graph with counter }.addNode kind position = (larger, id) ∧ larger.Isolated id) ↔
      ∀ (kind : NodeKind) number, 0 < number → numbered kind.tag number ∈ graph.looseEnds →
        numbered kind.tag number ∈ graph.ids) ∧
    ((∀ counter (kind : NodeKind) position,
        { graph with counter }.nextNumber kind.tag < UInt64.size → ∃ larger id,
          { graph with counter }.addNode kind position = (larger, id) ∧ larger.Isolated id) ↔
      ∀ (kind : NodeKind) number, 0 < number → number < UInt64.size →
        numbered kind.tag number ∈ graph.looseEnds → numbered kind.tag number ∈ graph.ids) ∧
    (graph.connectionFaults = [] → graph.looseEnds = []) := by
  refine ⟨?_, forall_isolated_iff graph, forall_isolated_below_iff graph UInt64.size,
    looseEnds_eq_nil⟩
  intro kind position
  have hnodes : (graph.withNode kind position).nodes = graph.nodes ++
      [{ Node.new (numbered kind.tag (graph.nextNumber kind.tag)) kind with position }] := rfl
  have hremoved := removeNode_of_split hnodes (graph.ne_numbered kind.tag).1
  have hisolated := isolated_withNode_iff graph kind position
  exact ⟨_, _, _, _, rfl, hremoved, List.append_nil _, hisolated,
    filter_untouched_eq_self_iff.trans hisolated⟩

/-- An end node, and a connection to it from an id without a node. -/
def looseLine (source : NodeId) : Graph where
  nodes := [Node.new "finish" .finish]
  connections := [⟨⟨source, execOut, "finish", execIn⟩, "1"⟩]

/-- A loose end has a number that the new node does not get, though with another state of the
counter a node gets it; and another graph has no loose ends. -/
theorem added_node_isolated_iff_samples :
    ("start-1" ∉ (looseLine "start-3").looseEnds ∧
      ∃ larger id smaller node, (looseLine "start-3").addNode .start {} = (larger, id) ∧
        larger.removeNode id = .ok (smaller, node) ∧ larger.Isolated id ∧
        smaller.connections = (looseLine "start-3").connections) ∧
    (¬ ∀ counter (kind : NodeKind) position,
      { looseLine "start-3" with counter }.nextNumber kind.tag < UInt64.size → ∃ larger id,
        { looseLine "start-3" with counter }.addNode kind position = (larger, id) ∧
          larger.Isolated id) ∧
    (sharedReads.connectionFaults = [] ∧ sharedReads.looseEnds = []) := by
  have hclear : "start-1" ∉ (looseLine "start-3").looseEnds := by decide
  have hloose : numbered NodeKind.start.tag 3 ∈ (looseLine "start-3").looseEnds := by decide
  have hunused : numbered NodeKind.start.tag 3 ∉ (looseLine "start-3").ids := by decide
  have hfaults : sharedReads.connectionFaults = [] := by decide +kernel
  rcases added_node_isolated_iff (looseLine "start-3") with ⟨hadding, -, hwords, -⟩
  rcases hadding .start {} with
    ⟨larger, id, smaller, node, hadded, hremoved, -, hisolated, hconnections⟩
  have hid : id = "start-1" := (congrArg Prod.snd hadded).symm
  subst hid
  refine ⟨⟨hclear, larger, _, smaller, node, hadded, hremoved, hisolated.2 hclear,
    hconnections.2 hclear⟩, ?_, hfaults, (added_node_isolated_iff sharedReads).2.2.2 hfaults⟩
  intro hall
  exact hunused (hwords.1 hall .start 3 (by decide) (by decide) hloose)

/-- Where the loose end has the id that comes next, the connection gets a node at that end that
nobody connected, and it is gone once the node is removed again. -/
theorem loose_end_adopted :
    ∃ larger smaller node, (looseLine "start-1").addNode .start {} = (larger, "start-1") ∧
      (∃ connection ∈ larger.connections, connection.source = "start-1") ∧
      larger.validate.isValid = true ∧
      larger.removeNode "start-1" = .ok (smaller, node) ∧
      smaller.nodes = (looseLine "start-1").nodes ∧
      smaller.connections ≠ (looseLine "start-1").connections := by
  exact ⟨_, _, _, rfl, ⟨_, List.mem_singleton_self _, rfl⟩, by decide +kernel, rfl, rfl, by decide⟩

/-! ## Connections -/

/-- The rules allow a connection to move to the end of the list. -/
theorem regular_readded {before after : List Endpoints}
    (hregular : graph.Regular (before ++ ends :: after)) :
    graph.Regular (before ++ after) ∧ graph.Regular (before ++ after ++ [ends]) := by
  have hperm : (before ++ after ++ [ends]).Perm (before ++ ends :: after) :=
    (List.perm_append_singleton ends (before ++ after)).trans List.perm_middle.symm
  have hmoved := (regular_perm hperm).2 hregular
  exact ⟨hmoved.of_append, hmoved⟩

/-- A graph without faulty connections stays without them when one is taken out, and then accepts it
again. -/
theorem readded_of_split {before after : List Connection} {connection : Connection}
    (hfaults : graph.connectionFaults = [])
    (hsplit : graph.connections = before ++ connection :: after) :
    { graph with connections := before ++ after }.connectionFaults = [] ∧
      { graph with connections := before ++ after }.rejection? connection.toEndpoints = none := by
  have hends : graph.connections.map Connection.toEndpoints =
      before.map Connection.toEndpoints ++
        connection.toEndpoints :: after.map Connection.toEndpoints := by
    simp [hsplit]
  have hregular := connectionFaults_eq_nil_iff_regular.1 hfaults
  rw [hends] at hregular
  rcases regular_readded hregular with ⟨hrest, hmoved⟩
  -- The rules ask about nodes only, and these are the same with and without the connection.
  have hsmaller : { graph with connections := before ++ after }.Regular
      ((before ++ after).map Connection.toEndpoints) := by
    rw [List.map_append]
    exact (regular_of_nodes (by rfl)).2 hrest
  refine ⟨connectionFaults_eq_nil_iff_regular.2 hsmaller, ?_⟩
  apply (addConnection_accepts_iff hsmaller).2
  rw [List.map_append]
  exact (regular_of_nodes (by rfl)).2 hmoved

/-- A connection is added if and only if there is no objection. -/
theorem addConnection_eq_ok_iff {larger : Graph} {id : ConnectionId} :
    graph.addConnection ends = .ok (larger, id) ↔
      graph.rejection? ends = none ∧ larger = graph.withConnection ends ∧
        id = numbered "conn" (graph.nextNumber "conn") := by
  cases hfree : graph.rejection? ends with
  | none => simp [addConnection_of_free hfree, eq_comm]
  | some reason => simp [addConnection_of_rejected hfree]

/-- Removing a connection that was just added restores the graph, the counter apart.  In a graph
with distinct ids and without faulty connections, every connection can be taken out by its id, with
all others left in their order, and can then be added again without any fault. -/
theorem connections_undone :
    (∀ (graph larger : Graph) (ends : Endpoints) (id : ConnectionId),
      graph.addConnection ends = .ok (larger, id) →
      larger.connections = graph.connections ++ [⟨ends, id⟩] ∧
        larger.removeConnection id = .ok ({ graph with counter := larger.counter }, ⟨ends, id⟩)) ∧
    (∀ (graph : Graph) (connection : Connection), graph.connectionFaults = [] →
      (graph.connections.map Connection.id).Nodup → connection ∈ graph.connections →
      ∃ before after smaller again id, graph.connections = before ++ connection :: after ∧
        smaller = { graph with connections := before ++ after } ∧
        graph.removeConnection connection.id = .ok (smaller, connection) ∧
        smaller.addConnection connection.toEndpoints = .ok (again, id) ∧
        again.nodes = graph.nodes ∧
        again.connections = before ++ after ++ [⟨connection.toEndpoints, id⟩] ∧
        again.connectionFaults = []) := by
  constructor
  · intro graph larger ends id hadded
    obtain ⟨-, rfl, rfl⟩ := addConnection_eq_ok_iff.1 hadded
    have hconnections : (graph.withConnection ends).connections = graph.connections ++
        [⟨ends, numbered "conn" (graph.nextNumber "conn")⟩] := rfl
    refine ⟨hconnections, ?_⟩
    have hremoved := removeConnection_of_split hconnections (graph.ne_numbered "conn").2
    rw [List.append_nil] at hremoved
    exact hremoved
  · intro graph connection hfaults hids hmem
    obtain ⟨before, after, hsplit⟩ := List.append_of_mem hmem
    -- Distinct ids make the connection the first one with its id.
    have hfirst : ∀ other ∈ before, other.id ≠ connection.id := by
      rw [hsplit, List.map_append, List.nodup_append] at hids
      intro other hother
      exact hids.2.2 _ (List.mem_map_of_mem hother) _ List.mem_cons_self
    rcases readded_of_split hfaults hsplit with ⟨hsmaller, hfree⟩
    exact ⟨before, after, _, _, _, hsplit, rfl, removeConnection_of_split hsplit hfirst,
      addConnection_of_free hfree, rfl, rfl, connectionFaults_withConnection hsmaller hfree⟩

/-- A connection that is added and taken back, and one from the middle of the list that goes and
comes again. -/
theorem connections_undone_sharedReads :
    (∃ larger, sharedReads.addConnection ⟨"read", "value", "swap", "i"⟩ = .ok (larger, "conn-1") ∧
      larger.removeConnection "conn-1" =
        .ok ({ sharedReads with counter := larger.counter },
          ⟨⟨"read", "value", "swap", "i"⟩, "conn-1"⟩)) ∧
    (sharedReads.connectionFaults = [] ∧ (sharedReads.connections.map Connection.id).Nodup ∧
      ⟨⟨"check", "true", "swap", execIn⟩, "4"⟩ ∈ sharedReads.connections ∧
      ∃ smaller again id,
        sharedReads.removeConnection "4" =
          .ok (smaller, ⟨⟨"check", "true", "swap", execIn⟩, "4"⟩) ∧
        smaller.addConnection ⟨"check", "true", "swap", execIn⟩ = .ok (again, id) ∧
        again.connectionFaults = []) := by
  have hadded : sharedReads.addConnection ⟨"read", "value", "swap", "i"⟩ =
      .ok (sharedReads.withConnection ⟨"read", "value", "swap", "i"⟩, "conn-1") := by
    decide +kernel
  have hfaults : sharedReads.connectionFaults = [] := by decide +kernel
  have hids : (sharedReads.connections.map Connection.id).Nodup := by decide
  have hmem : ⟨⟨"check", "true", "swap", execIn⟩, "4"⟩ ∈ sharedReads.connections := by decide
  rcases connections_undone.2 sharedReads _ hfaults hids hmem with
    ⟨-, -, smaller, again, id, -, -, hremoved, hagain, -, -, hsound⟩
  exact ⟨⟨_, hadded, (connections_undone.1 _ _ _ _ hadded).2⟩,
    ⟨hfaults, hids, hmem, smaller, again, id, hremoved, hagain, hsound⟩⟩

end Graph
end FlowTrace
