import FlowTrace.Proofs.Execution.Ending
import FlowTrace.Proofs.Graph.Wiring

/-!
# Runs that come to a node that is not there

A run is broken off at a missing node only where a connection of the graph dangles, and the error
names the two ends of that connection.  Validation finds such connections, so it is sound for runs:

* `Graph.Led` — a run stands at a node of the graph, or where an execution output has led it;
* `Graph.error_of_ended` — the errors that a run can end with;
* `Graph.next?_of_mem` — in a graph without faulty connections every execution connection counts.
-/

namespace FlowTrace

namespace Graph

variable {graph : Graph} {array : Array Float} {settings : Settings}

/-! ## Where a run has been led -/

/-- A run stands at a node of the graph, or where an execution output of the node before led it. -/
def Led (graph : Graph) (state : State) : Prop :=
  (graph.node? state.current).isSome = true ∨
    ∃ handle, graph.index.next? state.previous handle = some state.current

/-- Throughout a run, each node that it stands at was led to. -/
theorem stateAt?_led {moves : Nat} {state : State} :
    graph.stateAt? array settings moves = some state → graph.Led state := by
  apply stateAt?_invariant
  · intro start others hstarts
    have hstart : start ∈ graph.nodesOfKind .start := by simp [hstarts]
    have hmem : start ∈ graph.nodes := (List.mem_filter.1 hstart).1
    -- A start node may share its id, but then another node is found under it.
    exact Or.inl (isSome_node?_of_mem hmem)
  · intro state next _ hstep
    cases State.move_of_step hstep with
    | @onward node handle _ _ _ _ hnext =>
        exact Or.inr ⟨handle, hnext⟩
    | @returned node loopNode _ _ _ _ _ _ _ _ hloop =>
        -- The loop to go back to has just been looked up.
        have hfound := index_node?_self hloop
        exact Or.inl (by simpa using congrArg Option.isSome hfound)

/-! ## Errors -/

/-- A run is broken off for one of two reasons: its limit, or a node that is not there. -/
theorem error_of_ended {moves : Nat} {state : State} {run : Run} {error : RunError}
    (hstate : graph.stateAt? array settings moves = some state)
    (hended : state.step graph.index settings.stepLimit = .ended run)
    (herror : run.outcome.error = some error) :
    (∃ limit, settings.stepLimit = some limit ∧ error = .stepLimitExceeded limit) ∨
      (error = .nodeNotFound state.current state.previous ∧ graph.node? state.current = none) := by
  -- Performing a node sets no error.
  have hnone : ∀ node, (graph.index.perform state.run.context node).context.error = none := by
    intro node
    have hframed := graph.index.framed_perform state.run.context node
    exact hframed.error.trans (stateAt?_unfinished hstate).error
  cases State.move_of_step hended with
  | @limitReached limit hlimit =>
      cases herror
      exact Or.inl ⟨limit, hlimit, rfl⟩
  | nodeMissing _ hmissing =>
      cases herror
      exact Or.inr ⟨rfl, by simpa using hmissing⟩
  | finished => cases (hnone _).symm.trans herror
  | pathEnded => cases (hnone _).symm.trans herror
  | loopLost => cases (hnone _).symm.trans herror

/-- A connection of the graph that orders execution and leads from one id to another. -/
def Connects (graph : Graph) (source target : NodeId) : Prop :=
  ∃ connection ∈ graph.connections, connection.source = source ∧ connection.target = target ∧
    graph.ordersExecution connection.toEndpoints = true

theorem connects_of_next? {id next : NodeId} {handle : String}
    (hnext : graph.index.next? id handle = some next) : graph.Connects id next := by
  rcases exists_ordering_of_next? hnext with ⟨connection, hmem, hsource, -, htarget, horders⟩
  exact ⟨connection, hmem, hsource, htarget, horders⟩

/-- A missing node is the dangling end of a connection, and the error names its other end. -/
theorem connects_of_nodeNotFound {moves : Nat} {outcome : Outcome} {node source : NodeId}
    (houtcome : graph.execute? array settings moves = some outcome)
    (herror : outcome.error = some (.nodeNotFound node source)) :
    graph.node? node = none ∧ graph.Connects source node := by
  rcases execute?_eq_some_iff.1 houtcome with
    ⟨-, rfl⟩ | ⟨before, -, state, run, hstate, hended, rfl⟩
  · cases herror
  · rcases error_of_ended hstate hended herror with ⟨limit, -, hother⟩ | ⟨hsame, hmissing⟩
    · cases hother
    · cases hsame
      refine ⟨hmissing, ?_⟩
      rcases stateAt?_led hstate with hfound | ⟨handle, hnext⟩
      · simp [hmissing] at hfound
      · exact connects_of_next? hnext

/-! ## Valid graphs -/

/-- In a graph without faulty connections no connection dangles. -/
theorem Connects.isSome_node? (hfaults : graph.connectionFaults = []) {source target : NodeId}
    (h : graph.Connects source target) : (graph.node? target).isSome = true := by
  rcases h with ⟨connection, hmem, -, rfl, -⟩
  exact isSome_of_end hfaults hmem (Or.inr rfl)

/-- In a graph without faulty connections the index follows every connection that orders
execution. -/
theorem next?_of_mem (hfaults : graph.connectionFaults = []) {connection : Connection}
    (hmem : connection ∈ graph.connections)
    (horders : graph.ordersExecution connection.toEndpoints = true) :
    graph.index.next? connection.source connection.sourceHandle = some connection.target := by
  have hpairs := (connectionFaults_eq_nil_iff.1 hfaults).2
  rcases List.append_of_mem hmem with ⟨earlier, later, hsplit⟩
  -- No connection in front leaves by the same handle, so this one is found first.
  have hfirst : ∀ other ∈ earlier,
      other.leaves connection.source connection.sourceHandle = false := by
    intro other hother
    rw [hsplit] at hpairs
    have hapart := (List.pairwise_append.1 hpairs).2.2 other hother connection List.mem_cons_self
    exact (hapart.2 horders).1
  have hfind : graph.connections.find? (·.leaves connection.source connection.sourceHandle) =
      some connection := by
    rw [List.find?_eq_some_iff_append]
    refine ⟨by simp [Connection.leaves], earlier, later, hsplit, ?_⟩
    intro other hother
    simp [hfirst other hother]
  have hexec : (graph.node? connection.source).any
      (·.isExecutionOutput connection.sourceHandle) = true := horders
  rw [index_next?, if_pos hexec, hfind]
  rfl

/-- A run that is broken off at a missing node shows a connection that dangles.  A valid graph has
none: its runs end without an error or at their limit, and they follow every connection that orders
execution. -/
theorem validation_sound (graph : Graph) :
    (∀ array settings moves outcome node source,
      graph.execute? array settings moves = some outcome →
      outcome.error = some (.nodeNotFound node source) →
      (∀ other ∈ graph.nodes, other.id ≠ node) ∧ graph.Connects source node) ∧
    (graph.validate.isValid = true →
      (∀ array settings moves outcome,
        graph.execute? array settings moves = some outcome →
        outcome.error = none ∨
          ∃ limit, settings.stepLimit = some limit ∧
            outcome.error = some (.stepLimitExceeded limit)) ∧
      ∀ connection ∈ graph.connections,
        graph.ordersExecution connection.toEndpoints = true →
        graph.index.next? connection.source connection.sourceHandle =
          some connection.target) := by
  constructor
  · intro array settings moves outcome node source houtcome herror
    rcases connects_of_nodeNotFound houtcome herror with ⟨hmissing, hconnects⟩
    refine ⟨?_, hconnects⟩
    intro other hmem hid
    have hnone := List.find?_eq_none.1 hmissing other hmem
    simp [hid] at hnone
  · intro hvalid
    rcases isValid_validate_iff.1 hvalid with ⟨⟨start, hstart⟩, -, hfaults⟩
    refine ⟨?_, fun connection hmem horders => next?_of_mem hfaults hmem horders⟩
    intro array settings moves outcome houtcome
    cases herror : outcome.error with
    | none => exact Or.inl rfl
    | some error =>
        right
        rcases execute?_eq_some_iff.1 houtcome with
          ⟨hnone, -⟩ | ⟨before, -, state, run, hstate, hended, rfl⟩
        · cases hstart.symm.trans hnone
        · rcases error_of_ended hstate hended herror with ⟨limit, hlimit, rfl⟩ | ⟨rfl, -⟩
          · exact ⟨limit, hlimit, rfl⟩
          · -- The connection that led here dangles, which validation rules out.
            rcases connects_of_nodeNotFound houtcome herror with ⟨hmissing, hconnects⟩
            have hfound := hconnects.isSome_node? hfaults
            simp [hmissing] at hfound

/-- A start node whose connection leads to no node. -/
def strayStart : Graph where
  nodes := [Node.new "begin" .start, Node.new "finish" .finish]
  connections := [⟨⟨"begin", execOut, "middle", execIn⟩, "1"⟩]

/-- The run from a stray start node is broken off at the missing node, and the run over nested loops
follows the connection into the outer loop. -/
theorem validation_sound_samples :
    (∃ outcome, strayStart.execute? #[] {} 2 = some outcome ∧
      outcome.error = some (.nodeNotFound "middle" "begin") ∧
      strayStart.Connects "begin" "middle") ∧
    nestedSwaps.index.next? "begin" execOut = some "rows" := by
  have hends : (strayStart.execute? #[] {} 2).isSome = true := by decide +kernel
  have hmissing : ∀ outcome ∈ strayStart.execute? #[] {} 2,
      outcome.error = some (.nodeNotFound "middle" "begin") := by
    decide +kernel
  rcases Option.isSome_iff_exists.1 hends with ⟨outcome, houtcome⟩
  have herror := hmissing outcome houtcome
  have hstray := (validation_sound strayStart).1 #[] {} 2 outcome "middle" "begin" houtcome herror
  have hvalid : nestedSwaps.validate.isValid = true := by decide +kernel
  have hfollows := ((validation_sound nestedSwaps).2 hvalid).2
    ⟨⟨"begin", execOut, "rows", execIn⟩, "1"⟩ (by decide +kernel) (by decide +kernel)
  exact ⟨⟨outcome, houtcome, herror, hstray.2⟩, hfollows⟩

end Graph
end FlowTrace
