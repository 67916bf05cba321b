import FlowTrace.Proofs.Execution.KeptReads
import FlowTrace.Proofs.Execution.StepLimit

/-!
# Where the steps of a trace come from

A move records the step of the node that it performs, and possibly one more about the end of a path.
So a step that reports what a node did can be traced back to the move that recorded it, and the
first step of all is that of the first node performed.

* `Index.stepOf` — the step of a node;
* `State.Recorded` and `State.grows_step` — what a move adds to the trace;
* `Graph.exists_turn_of_step` — a step that a node has to report comes from a turn of one;
* `Graph.beforeStart` — the nodes in front of the first start node;
* `Graph.run_begins_at_start_iff` — the start node has the first turn if and only if none of these
  has its id.
-/

namespace FlowTrace

def Index.stepOf (index : Index) (context : Context) (node : Node) : Step :=
  (index.perform context node).draft.snapshot (index.perform context node).context.array

def Event.isAboutPath : Event → Bool
  | .pathEnded | .loopBodyComplete | .error => true
  | _ => false

namespace State

variable {index : Index} {stepLimit : Option Nat} {state : State} {node : Node}

/-- The steps that a move adds to the trace: the step of the node that it performs and perhaps one
about the end of the path; or one about the end of the run if it performs none. -/
inductive Recorded (index : Index) (stepLimit : Option Nat) (state : State) : List Step → Prop where
  | performed {node : Node} {more : List Step} :
      state.Performs index stepLimit node →
      (∀ step ∈ more, ∃ event, event.isAboutPath = true ∧ step.isEvent event = true) →
      Recorded index stepLimit state (index.stepOf state.run.context node :: more)
  | failed {step : Step} :
      (∀ node, ¬ state.Performs index stepLimit node) → step.isEvent .error = true →
      Recorded index stepLimit state [step]

/-- A run that goes on with a move adds the steps recorded to its trace. -/
def Grows (index : Index) (stepLimit : Option Nat) (state : State) (run : Run) : Prop :=
  ∃ steps, run.trace.toList = state.run.trace.toList ++ steps ∧
    Recorded index stepLimit state steps

theorem grows_performed (h : state.Performs index stepLimit node) :
    state.Grows index stepLimit (state.run.performed index node) := by
  refine ⟨[index.stepOf state.run.context node], ?_, .performed h ?_⟩
  · simp [Index.stepOf]
  · simp

theorem grows_record {draft : Draft} {event : Event} (h : state.Performs index stepLimit node)
    (hreports : draft.Reports event) (hevent : event.isAboutPath = true) :
    state.Grows index stepLimit ((state.run.performed index node).record draft) := by
  refine ⟨[index.stepOf state.run.context node,
    draft.snapshot (index.perform state.run.context node).context.array], ?_, .performed h ?_⟩
  · simp [Index.stepOf]
  · intro step hmem
    rw [List.mem_singleton.1 hmem]
    exact ⟨event, hevent, (Step.isEvent_snapshot_iff hreports).2 rfl⟩

theorem grows_fail (error : RunError) (hnone : ∀ node, ¬ state.Performs index stepLimit node) :
    state.Grows index stepLimit (state.run.fail error) := by
  refine ⟨[(Run.failureDraft state.run.context error).snapshot state.run.context.array], ?_,
    .failed hnone ?_⟩
  · simp
  · exact (Step.isEvent_snapshot_iff (Run.reports_failure state.run.context error)).2 rfl

/-- Every move adds the steps that it records, and changes none before them. -/
theorem grows_step (index : Index) (stepLimit : Option Nat) (state : State) :
    state.Grows index stepLimit (state.step index stepLimit).run := by
  have hmove := move_step index stepLimit state
  generalize state.step index stepLimit = progress at hmove
  cases hmove with
  | limitReached hlimit hle => exact grows_fail _ (not_performs_of_limit hlimit hle)
  | nodeMissing _ hmissing => exact grows_fail _ (not_performs_of_missing hmissing)
  | finished hwithin hnode => exact grows_performed ⟨hwithin, hnode⟩
  | onward hwithin hnode => exact grows_performed ⟨hwithin, hnode⟩
  | pathEnded hwithin hnode =>
      exact grows_record ⟨hwithin, hnode⟩ (Run.reports_pathEnded _ _) rfl
  | returned hwithin hnode =>
      exact grows_record ⟨hwithin, hnode⟩ (Run.reports_bodyComplete _ _) rfl
  | loopLost hwithin hnode =>
      exact grows_record ⟨hwithin, hnode⟩ (Run.reports_bodyComplete _ _) rfl

/-- Of the steps that a move records, only the first can report what a node did. -/
theorem Recorded.eq_stepOf {steps earlier later : List Step} {step : Step} {event : Event}
    (h : Recorded index stepLimit state steps) (hsteps : steps = earlier ++ step :: later)
    (hevent : step.isEvent event = true) (hnode : event.isAboutPath = false) :
    earlier = [] ∧ ∃ node, state.Performs index stepLimit node ∧
      step = index.stepOf state.run.context node := by
  cases h with
  | @performed node more hperforms hmore =>
      cases earlier with
      | nil => exact ⟨rfl, node, hperforms, (List.cons.inj hsteps).1.symm⟩
      | cons first rest =>
          -- What a move records behind the step of its node is about the path.
          have hmem : step ∈ more := by simp [(List.cons.inj hsteps).2]
          rcases hmore step hmem with ⟨other, hpath, hother⟩
          cases Step.eq_of_isEvent hevent hother
          cases hnode.symm.trans hpath
  | @failed last _ herror =>
      have hmem : step ∈ [last] := by simp [hsteps]
      cases List.mem_singleton.1 hmem
      cases Step.eq_of_isEvent hevent herror
      cases hnode

end State

namespace Graph

variable {graph : Graph} {array : Array Float} {settings : Settings}

/-- A step that a node has to report was recorded at a turn of one, right behind what had been
recorded before. -/
theorem exists_turn_of_step {step : Step} {event : Event} (hevent : step.isEvent event = true)
    (hnode : event.isAboutPath = false) :
    ∀ {moves : Nat} {run : Run} {earlier later : List Step},
      graph.runAfter? array settings moves = some run →
      run.trace.toList = earlier ++ step :: later →
      ∃ before < moves, ∃ state node, graph.stateAt? array settings before = some state ∧
        state.Performs graph.index settings.stepLimit node ∧
        step = graph.index.stepOf state.run.context node ∧
        earlier = state.run.trace.toList := by
  intro moves
  induction moves with
  | zero =>
      intro run earlier later hrun hsteps
      rcases Option.map_eq_some_iff.1 hrun with ⟨state, hstate, rfl⟩
      rcases stateAt?_zero.1 hstate with ⟨start, others, -, rfl⟩
      simp [initialState] at hsteps
  | succ moves ih =>
      intro run earlier later hrun hsteps
      rcases runAfter?_succ.1 hrun with ⟨state, hstate, rfl⟩
      rcases state.grows_step graph.index settings.stepLimit with ⟨steps, hgrown, hrecorded⟩
      -- The step was there before the last move, or the last move has recorded it.
      rcases List.append_eq_append_iff.1 (hgrown.symm.trans hsteps) with
        ⟨front, rfl, hlast⟩ | ⟨back, hbefore, hrest⟩
      · obtain ⟨rfl, node, hperforms, rfl⟩ := hrecorded.eq_stepOf hlast hevent hnode
        exact ⟨moves, Nat.lt_succ_self moves, state, node, hstate, hperforms, rfl, by simp⟩
      · cases back with
        | nil =>
            have hlast : steps = [] ++ step :: later := by simpa using hrest.symm
            obtain ⟨-, node, hperforms, rfl⟩ := hrecorded.eq_stepOf hlast hevent hnode
            exact ⟨moves, Nat.lt_succ_self moves, state, node, hstate, hperforms, rfl,
              by simp [hbefore]⟩
        | cons first rest =>
            cases (List.cons.inj hrest).1
            rcases ih (runAfter?_of_stateAt? hstate) hbefore with
              ⟨before, hlt, found, node, hfound⟩
            exact ⟨before, Nat.lt_succ_of_lt hlt, found, node, hfound⟩

/-! ## The first step -/

/-- The first step of a run is the step of the node that the first move performs. -/
theorem head?_trace_of_runAfter? {first : State} {node : Node}
    (hfirst : graph.stateAt? array settings 0 = some first)
    (hperforms : first.Performs graph.index settings.stepLimit node) :
    ∀ {moves : Nat} {run : Run}, graph.runAfter? array settings (moves + 1) = some run →
      run.trace.toList.head? = some (graph.index.stepOf first.run.context node) := by
  intro moves
  induction moves with
  | zero =>
      intro run hrun
      rcases runAfter?_succ.1 hrun with ⟨state, hstate, rfl⟩
      cases hfirst.symm.trans hstate
      rcases stateAt?_zero.1 hfirst with ⟨start, others, -, rfl⟩
      rcases State.grows_step graph.index settings.stepLimit (initialState start array settings)
        with ⟨steps, hgrown, hrecorded⟩
      have hempty : (initialState start array settings).run.trace.toList = [] := rfl
      rw [hgrown, hempty]
      cases hrecorded with
      | performed hother =>
          cases hperforms.unique hother
          rfl
      | failed hnone => exact absurd hperforms (hnone node)
  | succ moves ih =>
      intro run hrun
      rcases runAfter?_succ.1 hrun with ⟨state, hstate, rfl⟩
      rcases state.grows_step graph.index settings.stepLimit with ⟨steps, hgrown, -⟩
      have hhead := ih (runAfter?_of_stateAt? hstate)
      rw [hgrown, List.head?_append, hhead]
      rfl

/-- The nodes in front of the first start node. -/
def beforeStart (graph : Graph) : List Node :=
  graph.nodes.takeWhile (·.kind ≠ .start)

section Start

variable {start node : Node} {others : List Node}

/-- The list of nodes begins with those in front of the first start node, and that one is next. -/
theorem nodes_eq_of_start (hstart : graph.nodesOfKind .start = start :: others) :
    start.kind = .start ∧ ∃ behind, graph.nodes = graph.beforeStart ++ start :: behind := by
  rcases List.filter_eq_cons_iff.1 hstart with ⟨before, behind, hnodes, hbefore, hkind, -⟩
  have hfirst : start.kind = .start := by simpa using hkind
  have hfront : graph.beforeStart = before := by
    unfold beforeStart
    rw [hnodes, List.takeWhile_append_of_pos (by simpa using hbefore)]
    simp [hfirst]
  exact ⟨hfirst, behind, by rw [hfront, hnodes]⟩

/-- The first node with the id of the start node stands in front of it, or is the start node. -/
theorem mem_beforeStart_or_eq (hstart : graph.nodesOfKind .start = start :: others)
    (hnode : graph.node? start.id = some node) :
    (node ∈ graph.beforeStart ∧ node.id = start.id) ∨
      (node = start ∧ ∀ earlier ∈ graph.beforeStart, earlier.id ≠ start.id) := by
  obtain ⟨-, behind, hnodes⟩ := nodes_eq_of_start hstart
  cases hfront : graph.beforeStart.find? (·.id = start.id) with
  | some found =>
      have hsame : found = node := by
        unfold node? at hnode
        rw [hnodes, List.find?_append, hfront] at hnode
        exact Option.some.inj hnode
      subst hsame
      exact Or.inl ⟨List.mem_of_find?_eq_some hfront, node?_id hnode⟩
  | none =>
      refine Or.inr ⟨?_, by simpa using hfront⟩
      unfold node? at hnode
      rw [hnodes, List.find?_append, hfront] at hnode
      simpa [eq_comm] using hnode

/-- The node found under the id of the start node is a start node only if it is that one. -/
theorem eq_start_iff (hstart : graph.nodesOfKind .start = start :: others)
    (hnode : graph.node? start.id = some node) :
    (node.kind = .start ↔ ∀ earlier ∈ graph.beforeStart, earlier.id ≠ start.id) ∧
      (node = start ↔ ∀ earlier ∈ graph.beforeStart, earlier.id ≠ start.id) := by
  have hkind := (nodes_eq_of_start hstart).1
  rcases mem_beforeStart_or_eq hstart hnode with ⟨hmem, hid⟩ | ⟨rfl, hclear⟩
  · -- A node in front of the first start node is of another kind.
    have hother : node.kind ≠ .start := by simpa using List.mem_takeWhile_imp hmem
    have hshared : ¬ ∀ earlier ∈ graph.beforeStart, earlier.id ≠ start.id :=
      fun hclear => hclear node hmem hid
    refine ⟨iff_of_false hother hshared, iff_of_false ?_ hshared⟩
    rintro rfl
    exact hother hkind
  · exact ⟨iff_of_true hkind hclear, iff_of_true rfl hclear⟩

end Start

end Graph

/-- Only a start node reports that a run was started. -/
theorem Index.isEvent_started_stepOf (index : Index) (context : Context) (node : Node) :
    (index.stepOf context node).isEvent .started = true ↔ node.kind = .start := by
  rcases index.perform_reports context node with ⟨event, hmem, hreports⟩
  have hstarted : event = .started ↔ node.kind = .start := by
    revert hmem
    cases node.kind <;> cases event <;> decide
  rw [stepOf, Step.isEvent_snapshot_iff hreports, eq_comm, hstarted]

namespace Graph

/-- A run over a graph with a start node begins at the first node that has the id of the first start
node.  That is the start node itself, and the first step of the trace reports the start of the run,
if and only if no node in front of it has its id. -/
theorem run_begins_at_start_iff (graph : Graph) (array : Array Float) (settings : Settings)
    (start : Node) (others : List Node) (hstart : graph.nodesOfKind .start = start :: others)
    (hlimit : Allows settings.stepLimit 1) :
    (∃ state node, graph.stateAt? array settings 0 = some state ∧
      graph.node? start.id = some node ∧ state.Performs graph.index settings.stepLimit node ∧
      (node = start ↔ ∀ earlier ∈ graph.beforeStart, earlier.id ≠ start.id)) ∧
    (∀ moves run, graph.runAfter? array settings (moves + 1) = some run →
      ∃ first rest, run.trace.toList = first :: rest ∧
        (first.isEvent .started = true ↔
          ∀ earlier ∈ graph.beforeStart, earlier.id ≠ start.id)) ∧
    (∀ moves outcome, graph.execute? array settings moves = some outcome →
      ∃ first rest, outcome.steps = first :: rest ∧
        (first.isEvent .started = true ↔
          ∀ earlier ∈ graph.beforeStart, earlier.id ≠ start.id)) := by
  have hinitial : graph.stateAt? array settings 0 = some (initialState start array settings) :=
    stateAt?_zero.2 ⟨start, others, hstart, rfl⟩
  obtain ⟨node, hnode⟩ : ∃ node, graph.node? start.id = some node := by
    obtain ⟨-, behind, hnodes⟩ := nodes_eq_of_start hstart
    exact Option.isSome_iff_exists.1 (isSome_node?_of_mem (by simp [hnodes]))
  -- The run stands at the id of the start node, and what it performs is found by that id.
  have hperforms : (initialState start array settings).Performs graph.index settings.stepLimit
      node := by
    refine ⟨?_, by simpa [initialState] using hnode⟩
    intro limit hsome
    exact hlimit limit hsome
  obtain ⟨hkind, hself⟩ := eq_start_iff hstart hnode
  have hruns : ∀ moves run, graph.runAfter? array settings (moves + 1) = some run →
      ∃ first rest, run.trace.toList = first :: rest ∧
        (first.isEvent .started = true ↔
          ∀ earlier ∈ graph.beforeStart, earlier.id ≠ start.id) := by
    intro moves run hrun
    have hhead := head?_trace_of_runAfter? hinitial hperforms hrun
    obtain ⟨rest, hsteps⟩ := List.head?_eq_some_iff.1 hhead
    exact ⟨_, rest, hsteps, (graph.index.isEvent_started_stepOf _ node).trans hkind⟩
  refine ⟨⟨_, node, hinitial, hnode, hperforms, hself⟩, hruns, ?_⟩
  intro moves outcome houtcome
  rcases execute?_eq_some_iff.1 houtcome with
    ⟨hnone, -⟩ | ⟨before, -, last, run, hlast, hended, rfl⟩
  · cases hstart.symm.trans hnone
  · exact hruns before run (runAfter?_succ.2 ⟨last, hlast, by rw [hended]; rfl⟩)

/-- An end node and two nodes of one id in front of it on the path; which of them stands first in
the list of nodes is left open. -/
def sharedId (first second : NodeKind) : Graph where
  nodes := [Node.new "b" .finish, Node.new "a" first, Node.new "a" second]
  connections := [⟨⟨"a", execOut, "b", execIn⟩, "1"⟩]

/-- Where the start node stands in front of the other node with its id, the run begins there, also
if the limit leaves room for one step only. -/
theorem run_begins_at_start_iff_sharedId :
    (sharedId .start .pauseExecution).nodesOfKind .start = [Node.new "a" .start] ∧
      Allows (some 1) 1 ∧
      ∃ outcome first rest,
        (sharedId .start .pauseExecution).execute? #[] ⟨some 1, []⟩ 2 = some outcome ∧
          outcome.steps = first :: rest ∧ first.isEvent .started = true := by
  have hstart : (sharedId .start .pauseExecution).nodesOfKind .start = [Node.new "a" .start] := by
    decide +kernel
  have hlimit : Allows (some 1) 1 := by
    intro limit hsome
    cases hsome
    exact Nat.le_refl 1
  have hclear : ∀ earlier ∈ (sharedId .start .pauseExecution).beforeStart, earlier.id ≠ "a" := by
    decide +kernel
  have hends : ((sharedId .start .pauseExecution).execute? #[] ⟨some 1, []⟩ 2).isSome = true := by
    decide +kernel
  rcases Option.isSome_iff_exists.1 hends with ⟨outcome, houtcome⟩
  obtain ⟨first, rest, hsteps, hstarted⟩ := (run_begins_at_start_iff (sharedId .start
    .pauseExecution) #[] ⟨some 1, []⟩ _ [] hstart hlimit).2.2 2 outcome houtcome
  exact ⟨hstart, hlimit, outcome, first, rest, houtcome, hsteps, hstarted.2 hclear⟩

/-- Where the other node stands in front, a graph that passes validation is run without ever coming
to its start node: the run begins with a pause. -/
theorem shared_id_hides_start :
    (sharedId .pauseExecution .start).validate.isValid = true ∧
      (sharedId .pauseExecution .start).nodesOfKind .start = [Node.new "a" .start] ∧
      ∃ outcome first last,
        (sharedId .pauseExecution .start).execute? #[] {} 2 = some outcome ∧
          outcome.steps = [first, last] ∧ first.isEvent .pause = true ∧
          first.isEvent .started = false ∧ last.isEvent .completed = true := by
  have hshown : ((sharedId .pauseExecution .start).execute? #[] {} 2).map (fun outcome =>
      outcome.steps.map fun step =>
        (step.isEvent .pause, step.isEvent .started, step.isEvent .completed)) =
          some [(true, false, false), (false, false, true)] := by
    decide +kernel
  rcases Option.map_eq_some_iff.1 hshown with ⟨outcome, houtcome, hsteps⟩
  rcases List.map_eq_cons_iff.1 hsteps with ⟨first, rest, hfirst, hpause, hrest⟩
  rcases List.map_eq_singleton_iff.1 hrest with ⟨last, rfl, hlast⟩
  obtain ⟨hpaused, hstarted, -⟩ : first.isEvent .pause = true ∧ first.isEvent .started = false ∧
      first.isEvent .completed = false := by
    simpa using hpause
  obtain ⟨-, -, hcompleted⟩ : last.isEvent .pause = false ∧ last.isEvent .started = false ∧
      last.isEvent .completed = true := by
    simpa using hlast
  exact ⟨by decide +kernel, by decide +kernel, outcome, first, last, houtcome, hfirst, hpaused,
    hstarted, hcompleted⟩

end Graph
end FlowTrace
