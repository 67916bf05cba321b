import FlowTrace.Proofs.Execution.LoopStack

/-!
# How a run can end

A run ends in one of four ways, and the last step of its trace tells which.  Until then it is
unfinished: neither completed nor broken off, and no step recorded so far reports an ending.

* `Outcome.Shows` — what an outcome shows after each ending;
* `Run.Unfinished` — what holds of a run before its last move, kept by every move that goes on.
-/

namespace FlowTrace

inductive Ending
  | noStart
  | completed
  | pathEnded
  | failed
deriving DecidableEq, Repr

def Event.isFinal : Event → Bool
  | .completed | .pathEnded | .error => true
  | _ => false

def Step.isFinal (step : Step) : Bool :=
  step.isEvent .completed || step.isEvent .pathEnded || step.isEvent .error

/-- What an outcome shows of a run that began with an array, after each ending. -/
def Outcome.Shows (outcome : Outcome) (array : Array Float) : Ending → Prop
  | .noStart =>
      outcome.error = some .missingStart ∧ outcome.steps = [] ∧ outcome.completed = false ∧
        outcome.finalArray = array
  | .completed =>
      outcome.completed = true ∧ outcome.error = none ∧
        ∃ last, outcome.steps.getLast? = some last ∧ last.isEvent .completed = true ∧
          last.metadata.get? "variables" =
            some (.object (outcome.bindings.map Value.toJson).entries)
  | .pathEnded =>
      outcome.completed = false ∧ outcome.error = none ∧
        ∃ last, outcome.steps.getLast? = some last ∧ last.isEvent .pathEnded = true
  | .failed =>
      outcome.completed = false ∧
        ∃ error, outcome.error = some error ∧
          ((∃ node source, error = .nodeNotFound node source) ∨
            ∃ limit, error = .stepLimitExceeded limit) ∧
          ∃ last, outcome.steps.getLast? = some last ∧ last.isEvent .error = true ∧
            last.isError = true ∧
            last.metadata.get? "errorMessage" = some (.string error.message) ∧
            last.description = "Error: " ++ error.message

/-- No outcome shows two endings. -/
theorem Outcome.Shows.unique {outcome : Outcome} {array : Array Float} {first second : Ending} :
    outcome.Shows array first → outcome.Shows array second → first = second := by
  intro hfirst hsecond
  -- The error, the flag and the event of the last step tell any two endings apart.
  cases first <;> cases second
  case noStart.noStart | completed.completed | pathEnded.pathEnded | failed.failed => rfl
  case noStart.completed | noStart.pathEnded | completed.noStart | pathEnded.noStart |
      completed.pathEnded | pathEnded.completed =>
    simp_all [Shows]
  case noStart.failed | completed.failed | pathEnded.failed =>
    rcases hsecond with ⟨hcompleted, error, herror, (⟨node, source, rfl⟩ | ⟨limit, rfl⟩), -⟩ <;>
      simp_all [Shows]
  case failed.noStart | failed.completed | failed.pathEnded =>
    rcases hfirst with ⟨hcompleted, error, herror, (⟨node, source, rfl⟩ | ⟨limit, rfl⟩), -⟩ <;>
      simp_all [Shows]

/-! ## Steps that report an ending -/

theorem Step.isFinal_snapshot {draft : Draft} {event : Event} {array : Array Float}
    (hreports : draft.Reports event) : (draft.snapshot array).isFinal = event.isFinal := by
  have hshown : ∀ other, (draft.snapshot array).isEvent other = decide (other = event) := by
    intro other
    exact Bool.eq_iff_iff.2 (by simp [Step.isEvent_snapshot_iff hreports])
  cases event <;> simp [Step.isFinal, hshown, Event.isFinal]

/-- Only an end node reports the end of a run. -/
theorem NodeKind.isFinal_of_mem_events {kind : NodeKind} (hkind : kind ≠ .finish) :
    ∀ event ∈ kind.events, event.isFinal = false := by
  cases kind with
  | finish => exact absurd rfl hkind
  | _ => decide

/-- Only an end node records a step that reports an ending. -/
theorem Index.isFinal_perform (index : Index) (context : Context) {node : Node}
    (hkind : node.kind ≠ .finish) (array : Array Float) :
    ((index.perform context node).draft.snapshot array).isFinal = false := by
  rcases index.perform_reports context node with ⟨event, hmem, hreports⟩
  rw [Step.isFinal_snapshot hreports]
  exact NodeKind.isFinal_of_mem_events hkind event hmem

/-! ## Before the last move -/

structure Run.Unfinished (run : Run) : Prop where
  completed : run.context.completed = false
  error : run.context.error = none
  steps : ∀ step ∈ run.trace.toList, step.isFinal = false

namespace Run.Unfinished

variable {run : Run}

theorem record {draft : Draft} (h : run.Unfinished)
    (hfinal : (draft.snapshot run.context.array).isFinal = false) :
    (run.record draft).Unfinished := by
  refine ⟨h.completed, h.error, ?_⟩
  intro step hmem
  have hcases : step ∈ run.trace.toList ∨ step = draft.snapshot run.context.array := by
    simpa using hmem
  rcases hcases with hold | rfl
  · exact h.steps step hold
  · exact hfinal

/-- A node that is left by an output leaves the run unfinished. -/
theorem performed {index : Index} {node : Node} {handle : String} (h : run.Unfinished) :
    (index.perform run.context node).exit = some handle →
      (run.performed index node).Unfinished := by
  intro hexit
  have hframed := index.framed_perform run.context node
  have hkind : node.kind ≠ .finish := by
    intro hend
    have hnone := hframed.exit.2 hend
    rw [hexit] at hnone
    cases hnone
  -- Only an end node completes a run, and no node sets an error.
  have hopen : Run.Unfinished { run with context := (index.perform run.context node).context } :=
    ⟨(hframed.completed hkind).trans h.completed, hframed.error.trans h.error, h.steps⟩
  exact hopen.record (index.isFinal_perform _ hkind _)

/-- A move that goes on leaves the run unfinished. -/
theorem step {state next : State} {index : Index} {stepLimit : Option Nat}
    (h : state.run.Unfinished) :
    state.step index stepLimit = .running next → next.run.Unfinished := by
  intro hstep
  have hmove := State.move_of_step hstep
  cases hmove with
  | onward _ _ hexit =>
      exact h.performed hexit
  | returned _ _ hexit =>
      refine (h.performed hexit).record ?_
      rw [Step.isFinal_snapshot (Run.reports_bodyComplete _ _)]
      rfl

end Run.Unfinished

namespace Graph

variable {graph : Graph} {array : Array Float} {settings : Settings}

/-- A run that goes on has not ended. -/
theorem stateAt?_unfinished {moves : Nat} {state : State} :
    graph.stateAt? array settings moves = some state → state.run.Unfinished := by
  apply stateAt?_invariant
  · intro start others _
    refine ⟨rfl, rfl, ?_⟩
    intro step hmem
    simp [initialState] at hmem
  · intro state next h hstep
    exact h.step hstep

end Graph

/-! ## The last move -/

namespace Run.Unfinished

variable {run : Run}

/-- Breaking a run off leaves a step that tells why. -/
theorem shows_fail (h : run.Unfinished) (array : Array Float) {error : RunError}
    (herror : (∃ node source, error = .nodeNotFound node source) ∨
      ∃ limit, error = .stepLimitExceeded limit) :
    (run.fail error).outcome.Shows array .failed := by
  refine ⟨h.completed, error, rfl, herror,
    (Run.failureDraft run.context error).snapshot run.context.array, ?_, ?_, ?_, ?_, ?_⟩
  · simp [Run.outcome]
  · exact (Step.isEvent_snapshot_iff (Run.reports_failure run.context error)).2 rfl
  · simp [Step.isError_snapshot, Run.failureDraft, Json.bool?]
  · simp [Run.failureDraft]
  · rfl

/-- The path that ends outside of loops leaves a step that says so. -/
theorem shows_pathEnded (h : run.Unfinished) (array : Array Float) (node : Node)
    (handle : String) :
    (run.record (Run.pathEndedDraft node handle)).outcome.Shows array .pathEnded := by
  refine ⟨h.completed, h.error, (Run.pathEndedDraft node handle).snapshot run.context.array, ?_, ?_⟩
  · simp [Run.outcome]
  · exact (Step.isEvent_snapshot_iff (Run.reports_pathEnded node handle)).2 rfl

/-- An end node leaves a step that lists the variables. -/
theorem shows_completed (h : run.Unfinished) (array : Array Float) {index : Index} {node : Node}
    (hkind : node.kind = .finish) :
    (run.performed index node).outcome.Shows array .completed := by
  have hend := index.perform_of_finish run.context node hkind
  have hreports : run.context.performEnd.draft.Reports .completed := by
    simp [Context.performEnd, Draft.Reports]
  refine ⟨?_, ?_, run.context.performEnd.draft.snapshot run.context.array, ?_, ?_, ?_⟩
  · simp [Run.outcome, hend, Context.performEnd]
  · simpa [Run.outcome, hend, Context.performEnd] using h.error
  · simp [Run.outcome, hend, Context.performEnd]
  · exact (Step.isEvent_snapshot_iff hreports).2 rfl
  · simp [Run.outcome, hend, Context.performEnd, Context.bindingsJson]

end Run.Unfinished

namespace Graph

variable {graph : Graph} {array : Array Float} {settings : Settings}

/-- The move that ends a run shows one of the endings, and records its step last. -/
theorem exists_shows_of_ended {moves : Nat} {state : State} {run : Run}
    (hstate : graph.stateAt? array settings moves = some state)
    (hended : state.step graph.index settings.stepLimit = .ended run) :
    (∃ ending, run.outcome.Shows array ending) ∧
      ∀ step ∈ run.outcome.steps.dropLast, step.isFinal = false := by
  -- Up to its last move the run has recorded no ending, so the one recorded now is the only one.
  have hopen := stateAt?_unfinished hstate
  have hmove := State.move_of_step hended
  cases hmove with
  | limitReached =>
      refine ⟨⟨.failed, hopen.shows_fail array (Or.inr ⟨_, rfl⟩)⟩, ?_⟩
      simpa [Run.outcome] using hopen.steps
  | nodeMissing =>
      refine ⟨⟨.failed, hopen.shows_fail array (Or.inl ⟨_, _, rfl⟩)⟩, ?_⟩
      simpa [Run.outcome] using hopen.steps
  | @finished node _ _ hexit =>
      have hkind := (graph.index.framed_perform state.run.context node).exit.1 hexit
      refine ⟨⟨.completed, hopen.shows_completed array hkind⟩, ?_⟩
      simpa [Run.outcome] using hopen.steps
  | @pathEnded node handle _ _ hexit =>
      refine ⟨⟨.pathEnded, (hopen.performed hexit).shows_pathEnded array node handle⟩, ?_⟩
      simpa [Run.outcome] using (hopen.performed hexit).steps
  | @loopLost node handle frame outer _ hnode _ _ hloops hlost =>
      exact absurd hlost ((stateAt?_soundStack hstate).not_lost (index_node?_self hnode) hloops)

/-- A dead end inside of a loop leads back to the innermost loop. -/
theorem step_of_deadEnd {moves : Nat} {state : State} {node : Node} {handle : String}
    {frame : LoopFrame} {outer : List LoopFrame}
    (hstate : graph.stateAt? array settings moves = some state)
    (hwithin : state.WithinLimit settings.stepLimit)
    (hnode : graph.index.node? state.current = some node)
    (hexit : (graph.index.perform state.run.context node).exit = some handle)
    (hnext : graph.index.next? node.id handle = none)
    (hloops : (graph.index.perform state.run.context node).context.loops = frame :: outer) :
    ∃ next, state.step graph.index settings.stepLimit = .running next ∧
      next.current = frame.node := by
  have hfound := (stateAt?_soundStack hstate).not_lost (index_node?_self hnode) hloops
  have hmove := State.move_step graph.index settings.stepLimit state
  generalize state.step graph.index settings.stepLimit = progress at hmove
  -- Each of the other outcomes contradicts one of the assumptions.
  cases hmove with
  | limitReached hlimit hle =>
      exact absurd (hwithin _ hlimit) (Nat.not_lt.2 hle)
  | nodeMissing _ hmissing =>
      rw [hnode] at hmissing
      cases hmissing
  | finished _ hsame hnone =>
      cases hnode.symm.trans hsame
      cases hexit.symm.trans hnone
  | onward _ hsame hout htarget =>
      cases hnode.symm.trans hsame
      cases hexit.symm.trans hout
      cases hnext.symm.trans htarget
  | pathEnded _ hsame _ _ hempty =>
      cases hnode.symm.trans hsame
      cases hloops.symm.trans hempty
  | returned _ hsame _ _ hcons hloop =>
      cases hnode.symm.trans hsame
      cases hloops.symm.trans hcons
      exact ⟨_, rfl, index_node?_id hloop⟩
  | loopLost _ hsame _ _ hcons hlost =>
      cases hnode.symm.trans hsame
      cases hloops.symm.trans hcons
      exact absurd hlost hfound

/-- Every run that ends does so in exactly one of the four ways, and no step but the last reports an
ending; a dead end inside of a loop goes back to that loop and ends nothing. -/
theorem execute?_shows_ending (graph : Graph) (array : Array Float) (settings : Settings) :
    (∀ moves outcome, graph.execute? array settings moves = some outcome →
      (∃! ending, outcome.Shows array ending) ∧
        ∀ step ∈ outcome.steps.dropLast, step.isFinal = false) ∧
    (∀ moves state node handle frame outer,
      graph.stateAt? array settings moves = some state →
      state.WithinLimit settings.stepLimit →
      graph.index.node? state.current = some node →
      (graph.index.perform state.run.context node).exit = some handle →
      graph.index.next? node.id handle = none →
      (graph.index.perform state.run.context node).context.loops = frame :: outer →
      ∃ next, state.step graph.index settings.stepLimit = .running next ∧
        next.current = frame.node) := by
  constructor
  · intro moves outcome houtcome
    have hshown : (∃ ending, outcome.Shows array ending) ∧
        ∀ step ∈ outcome.steps.dropLast, step.isFinal = false := by
      rcases execute?_eq_some_iff.1 houtcome with
        ⟨-, rfl⟩ | ⟨before, -, last, run, hlast, hended, rfl⟩
      · -- Without a start node nothing is recorded.
        refine ⟨⟨.noStart, rfl, rfl, rfl, rfl⟩, ?_⟩
        simp [Run.outcome]
      · exact exists_shows_of_ended hlast hended
    rcases hshown with ⟨⟨ending, hending⟩, hearlier⟩
    refine ⟨⟨ending, hending, ?_⟩, hearlier⟩
    intro other hother
    exact hother.unique hending
  · intro moves state node handle frame outer hstate hwithin hnode hexit hnext hloops
    exact step_of_deadEnd hstate hwithin hnode hexit hnext hloops

/-- The run over nested loops ends at the end node; after the dead end behind its first swap it goes
on with the inner loop. -/
theorem execute?_shows_ending_nestedSwaps :
    (∃ outcome, nestedSwaps.execute? #[2.0, 1.0] {} 15 = some outcome ∧ outcome.completed = true ∧
      (∃! ending, outcome.Shows #[2.0, 1.0] ending) ∧
      ∀ step ∈ outcome.steps.dropLast, step.isFinal = false) ∧
    ∃ state next, nestedSwaps.stateAt? #[2.0, 1.0] {} 3 = some state ∧ state.current = "swap" ∧
      state.step nestedSwaps.index none = .running next ∧ next.current = "columns" := by
  have hshows := execute?_shows_ending nestedSwaps #[2.0, 1.0] {}
  have hends : (nestedSwaps.execute? #[2.0, 1.0] {} 15).isSome = true := by decide +kernel
  have hdone : ∀ outcome ∈ nestedSwaps.execute? #[2.0, 1.0] {} 15, outcome.completed = true := by
    decide +kernel
  have hlasts : (nestedSwaps.stateAt? #[2.0, 1.0] {} 3).isSome = true := by decide +kernel
  have hdeadEnd : ∀ state ∈ nestedSwaps.stateAt? #[2.0, 1.0] {} 3,
      state.current = "swap" ∧
      nestedSwaps.index.node? state.current = some (Node.new "swap" .arraySwap) ∧
      (nestedSwaps.index.perform state.run.context (Node.new "swap" .arraySwap)).exit =
        some execOut ∧
      nestedSwaps.index.next? "swap" execOut = none ∧
      (nestedSwaps.index.perform state.run.context (Node.new "swap" .arraySwap)).context.loops =
        [⟨"columns", "i", 0.0, 2.0, 0⟩, ⟨"rows", "i", 0.0, 2.0, 0⟩] := by
    decide +kernel
  rcases Option.isSome_iff_exists.1 hends with ⟨outcome, houtcome⟩
  rcases Option.isSome_iff_exists.1 hlasts with ⟨state, hstate⟩
  rcases hdeadEnd state hstate with ⟨hcurrent, hnode, hexit, hnext, hloops⟩
  refine ⟨⟨outcome, houtcome, hdone outcome houtcome, hshows.1 15 outcome houtcome⟩, ?_⟩
  rcases hshows.2 3 state _ _ _ _ hstate (fun _ hlimit => nomatch hlimit) hnode hexit hnext
    hloops with ⟨next, hstep, htarget⟩
  exact ⟨state, next, hstate, hcurrent, hstep, htarget⟩

end Graph
end FlowTrace
