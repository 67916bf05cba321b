import FlowTrace.Graph.Validation
import FlowTrace.Proofs.Execution.Agreement
import FlowTrace.Proofs.Execution.LoopStack
import FlowTrace.Proofs.Graph.Editing
import FlowTrace.Proofs.Graph.Reachability
import Mathlib.Data.List.Find

/-!
# Nodes that a run cannot need

Validation warns about nodes that are not reachable from the start node.  A run never looks at such
a node: whatever it performs or reads from is reachable.  So removing the node, together with the
connections that touch it, changes no run.

* `Graph.target_mem_reachable` and `Graph.source_mem_reachable` — the reachable ids are closed under
  what a run does;
* `Graph.agreeOn_without` — the indexes with and without an unreachable node agree on them;
* `Graph.execute?_without` — hence the runs are the same.
-/

namespace FlowTrace

/-- The inputs that a node reads are among its data inputs. -/
theorem Node.isDataInput_of_mem_reads {node : Node} {handle : String} (hmem : handle ∈ node.reads) :
    node.isDataInput handle = true := by
  -- The catalog is finite, so its tables are looked through kind by kind.
  have hall : ∀ kind : NodeKind, ∀ name ∈ kind.dataInputs.map Prod.fst,
      (kind.template.input? name).any (!·.kind.isExecution) = true := by
    intro kind
    cases kind <;> decide
  exact hall node.kind handle hmem

namespace Graph

variable {graph : Graph} {start id : NodeId}

/-! ## Reachable ids are closed under what a run does -/

/-- Where a connection leads from an execution output of a reachable node is reachable. -/
theorem target_mem_reachable {node : Node} {connection : Connection}
    (hmem : connection ∈ graph.connections) (hsource : connection.source ∈ graph.reachable start)
    (hnode : graph.node? connection.source = some node)
    (hexec : node.isExecutionOutput connection.sourceHandle = true) :
    connection.target ∈ graph.reachable start := by
  have hneeds : connection.target ∈ graph.neighbours connection.source :=
    mem_neighbours_iff.2 ⟨node, hnode, connection, hmem, Or.inl ⟨rfl, hexec, rfl⟩⟩
  exact mem_reachable_of_neighbour hsource hneeds

/-- Where a connection into a data input of a reachable node comes from is reachable. -/
theorem source_mem_reachable {node : Node} {connection : Connection}
    (hmem : connection ∈ graph.connections) (htarget : connection.target ∈ graph.reachable start)
    (hnode : graph.node? connection.target = some node)
    (hreads : connection.targetHandle ∈ node.reads) :
    connection.source ∈ graph.reachable start := by
  have hdata := Node.isDataInput_of_mem_reads hreads
  have hneeds : connection.source ∈ graph.neighbours connection.target :=
    mem_neighbours_iff.2 ⟨node, hnode, connection, hmem, Or.inr ⟨rfl, hdata, rfl⟩⟩
  exact mem_reachable_of_neighbour htarget hneeds

/-! ## Without an unreachable node -/

/-- A reachable node is found as before. -/
theorem node?_without_of_mem (hid : id ∉ graph.reachable start) {other : NodeId}
    (hmem : other ∈ graph.reachable start) :
    (graph.without id).node? other = graph.node? other := by
  apply node?_without
  rintro rfl
  exact hid hmem

/-- An execution output of a reachable node leads where it led before. -/
theorem next?_without (hid : id ∉ graph.reachable start) {other : NodeId} (handle : String)
    (hmem : other ∈ graph.reachable start) :
    (graph.without id).index.next? other handle = graph.index.next? other handle := by
  rw [index_next?, index_next?, node?_without_of_mem hid hmem]
  cases hnode : graph.node? other with
  | none =>
      rfl
  | some node =>
      cases hexec : node.isExecutionOutput handle with
      | false =>
          simp [hexec]
      | true =>
          -- No connection out of this handle touches the node that is gone.
          have hkept : ∀ connection ∈ graph.connections,
              connection.leaves other handle = true →
                connection.source ≠ id ∧ connection.target ≠ id := by
            intro connection hconnection hleaves
            have hends : connection.source = other ∧ connection.sourceHandle = handle := by
              simpa [Connection.leaves] using hleaves
            rcases hends with ⟨rfl, rfl⟩
            have htarget := target_mem_reachable hconnection hmem hnode hexec
            exact ⟨fun h => hid (h ▸ hmem), fun h => hid (h ▸ htarget)⟩
          have hfind : (graph.without id).connections.find? (·.leaves other handle) =
              graph.connections.find? (·.leaves other handle) := by
            rw [connections_without, List.find?_filter]
            apply List.find?_congr
            intro connection hconnection
            cases hleaves : connection.leaves other handle with
            | false => simp
            | true => simp [hkept connection hconnection hleaves]
          rw [hfind]

/-- A data input of a reachable node reads from where it read before. -/
theorem source?_without (hid : id ∉ graph.reachable start) {other : NodeId} {node : Node}
    {handle : String} (hmem : other ∈ graph.reachable start)
    (hnode : graph.node? other = some node) (hreads : handle ∈ node.reads) :
    (graph.without id).index.source? other handle = graph.index.source? other handle := by
  -- The connections into this input all come from reachable nodes, which are found as before.
  have hkept : ∀ connection ∈ graph.connections, connection.enters other handle = true →
      connection.source ≠ id ∧ connection.target ≠ id ∧
        (graph.without id).carriesData connection.toEndpoints =
          graph.carriesData connection.toEndpoints := by
    intro connection hconnection henters
    have hends : connection.target = other ∧ connection.targetHandle = handle := by
      simpa [Connection.enters] using henters
    rcases hends with ⟨rfl, rfl⟩
    have hsource := source_mem_reachable hconnection hmem hnode hreads
    refine ⟨fun h => hid (h ▸ hsource), fun h => hid (h ▸ hmem), ?_⟩
    unfold carriesData
    rw [node?_without_of_mem hid hsource]
  have hfind : ((graph.without id).connections.find? fun c =>
        c.enters other handle && (graph.without id).carriesData c.toEndpoints) =
      graph.connections.find? fun c =>
        c.enters other handle && graph.carriesData c.toEndpoints := by
    rw [connections_without, List.find?_filter]
    apply List.find?_congr
    intro connection hconnection
    cases henters : connection.enters other handle with
    | false => simp
    | true =>
        rcases hkept connection hconnection henters with ⟨hsource, htarget, hcarries⟩
        simp [hsource, htarget, hcarries]
  rw [index_source?, index_source?, hfind]

/-- With and without an unreachable node the reachable ids look the same. -/
theorem agreeOn_without (hid : id ∉ graph.reachable start) :
    graph.index.AgreeOn (graph.without id).index (· ∈ graph.reachable start) := by
  refine ⟨?_, ?_, ?_, ?_, ?_, ?_⟩
  · intro other node hnode
    exact index_node?_id hnode
  · intro other hmem
    simpa using node?_without_of_mem hid hmem
  · intro other handle hmem
    exact next?_without hid handle hmem
  · intro other node hmem hnode handle hreads
    exact source?_without hid hmem (by simpa using hnode) hreads
  · intro other target handle hmem hnext
    rcases exists_connection_of_next? hnext with
      ⟨connection, hconnection, node, rfl, rfl, rfl, hnode, hexec⟩
    exact target_mem_reachable hconnection hmem hnode hexec
  · intro other producer node output hmem hnode handle hreads hsource
    rcases exists_connection_of_source? hsource with
      ⟨connection, hconnection, -, rfl, rfl, rfl, rfl, -, -⟩
    exact source_mem_reachable hconnection hmem (by simpa using hnode) hreads

/-- The first start node stays the first. -/
theorem exists_starts_without {first : Node} {others : List Node}
    (hstarts : graph.nodesOfKind .start = first :: others) (hne : first.id ≠ id) :
    ∃ rest, (graph.without id).nodesOfKind .start = first :: rest := by
  have hfirst : graph.nodes.find? (·.kind = .start) = some first := by
    rw [← List.head?_filter]
    exact congrArg List.head? hstarts
  have hkept : (graph.without id).nodes.find? (·.kind = .start) = some first := by
    rw [← hfirst]
    apply find?_eraseP
    intro found hfound
    cases hfirst.symm.trans hfound
    simpa using hne
  have hhead : ((graph.without id).nodesOfKind .start).head? = some first := by
    rw [← hkept]
    exact List.head?_filter
  exact ⟨_, (List.head?_eq_some_iff.1 hhead).choose_spec⟩

/-- A run never notices that an unreachable node is gone. -/
theorem execute?_without {first : Node} {others : List Node}
    (hstarts : graph.nodesOfKind .start = first :: others)
    (hid : id ∉ graph.reachable first.id) (array : Array Float) (settings : Settings)
    (moves : Nat) :
    (graph.without id).execute? array settings moves = graph.execute? array settings moves := by
  have hself := graph.self_mem_reachable first.id
  have hne : first.id ≠ id := by
    rintro rfl
    exact hid hself
  rcases exists_starts_without hstarts hne with ⟨rest, hrest⟩
  have hconfined : (initialState first array settings).Confined
      (· ∈ graph.reachable first.id) := by
    refine ⟨hself, ?_⟩
    intro frame hframe
    cases hframe
  simp only [execute?, hstarts, hrest,
    (agreeOn_without hid).runFor_eq settings.stepLimit moves hconfined]

/-- A node that validation warns about as unreachable can be removed, together with the connections
that touch it and with nothing else: each run takes the same moves to the same outcome, and so ends
if and only if it ended before. -/
theorem execute?_removeNode (graph : Graph) (id : NodeId) (kind : NodeKind)
    (hwarned : Warning.unreachable id kind ∈ graph.validate.warnings) :
    ∃ smaller node, graph.removeNode id = .ok (smaller, node) ∧
      smaller.nodes = graph.nodes.eraseP (·.id = id) ∧
      smaller.connections = graph.connections.filter (fun c => c.source ≠ id && c.target ≠ id) ∧
      ∀ array settings moves,
        smaller.execute? array settings moves = graph.execute? array settings moves := by
  have hunreachable : Warning.unreachable id kind ∈ graph.unreachableWarnings := by
    rcases List.mem_append.1 hwarned with hmem | hmem
    · exact hmem
    · -- The other warnings are about inputs.
      simp [unresolvedWarnings] at hmem
  unfold unreachableWarnings at hunreachable
  cases hstarts : graph.nodesOfKind .start with
  | nil =>
      simp [hstarts] at hunreachable
  | cons first others =>
      simp only [hstarts, List.mem_map, List.mem_filter] at hunreachable
      rcases hunreachable with ⟨node, ⟨hmem, hout⟩, hsame⟩
      cases hsame
      have hid : node.id ∉ graph.reachable first.id := by simpa using hout
      rcases Option.isSome_iff_exists.1 (isSome_node?_of_mem hmem) with ⟨found, hfound⟩
      refine ⟨graph.without node.id, found, removeNode_of_node? hfound, rfl, rfl, ?_⟩
      intro array settings moves
      exact execute?_without hstarts hid array settings moves

/-- A swap that leads to the end node but that nothing leads to. -/
def idleSwap : Graph where
  nodes := [Node.new "begin" .start, Node.new "idle" .arraySwap, Node.new "finish" .finish]
  connections :=
    [⟨⟨"idle", execOut, "finish", execIn⟩, "1"⟩, ⟨⟨"begin", execOut, "finish", execIn⟩, "2"⟩]

/-- The swap goes with its connection, and the run from the start to the end stays. -/
theorem execute?_removeNode_idleSwap :
    Warning.unreachable "idle" .arraySwap ∈ idleSwap.validate.warnings ∧
      ∃ smaller node outcome, idleSwap.removeNode "idle" = .ok (smaller, node) ∧
        smaller.nodes = [Node.new "begin" .start, Node.new "finish" .finish] ∧
        smaller.connections = [⟨⟨"begin", execOut, "finish", execIn⟩, "2"⟩] ∧
        smaller.execute? #[2.0, 1.0] {} 3 = some outcome ∧ outcome.completed = true ∧
        smaller.execute? #[2.0, 1.0] {} 3 = idleSwap.execute? #[2.0, 1.0] {} 3 := by
  have hwarned : Warning.unreachable "idle" .arraySwap ∈ idleSwap.validate.warnings := by
    decide +kernel
  have hends : (idleSwap.execute? #[2.0, 1.0] {} 3).isSome = true := by decide +kernel
  have hdone : ∀ outcome ∈ idleSwap.execute? #[2.0, 1.0] {} 3, outcome.completed = true := by
    decide +kernel
  rcases execute?_removeNode idleSwap "idle" .arraySwap hwarned with
    ⟨smaller, node, hremoved, hnodes, hconnections, hsame⟩
  rcases Option.isSome_iff_exists.1 hends with ⟨outcome, houtcome⟩
  exact ⟨hwarned, smaller, node, outcome, hremoved, hnodes.trans rfl, hconnections.trans rfl,
    (hsame _ _ _).trans houtcome, hdone outcome houtcome, hsame _ _ _⟩

end Graph
end FlowTrace
