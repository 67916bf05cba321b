import FlowTrace.Proofs.Execution.LoopStack
import Mathlib.Data.List.Chain

/-!
# What follows the end of an iteration

A dead end inside of a loop records that an iteration has ended and goes back to the loop.  Whatever
the graph looks like, the next step of the trace is the answer of that very loop: its next iteration
or its completion, unless the run is broken off at its limit first.

* `Step.AnsweredBy` — a step that reports the end of an iteration has its answer in the next one;
* `State.Answered` — this holds of the steps recorded so far, and where the last of them still
  waits for its answer the run stands at the loop that gives it;
* `State.Answered.step` and `State.Answered.ended` — what a move makes of it;
* `Graph.iteration_end_answered` — the same for the trace of a whole run.
-/

namespace FlowTrace

namespace Step

/-- A step that reports the beginning or the end of an iteration of a loop, as its event says.
Iterations are counted from one. -/
structure MarksIteration (step : Step) (event : Event) (loop : NodeId) (number : Nat) : Prop where
  reported : step.isEvent event = true
  loop : step.metadata.get? "loopNodeId" = some (.string loop)
  number : step.metadata.get? "loopIteration" = some (.ofNat number)

/-- A step that reports that a loop is completed or skipped, as its event says, and after how many
iterations. -/
structure ClosesLoop (step : Step) (event : Event) (count : Nat) : Prop where
  reported : step.isEvent event = true
  count : step.metadata.get? "iterations" = some (.ofNat count)

/-- If a step reports the end of an iteration, the next one opens the following iteration of the
same loop or reports its completion after as many. -/
def AnsweredBy (step next : Step) : Prop :=
  step.isEvent .loopBodyComplete = true →
    ∃ loop number, step.MarksIteration .loopBodyComplete loop number ∧
      (next.MarksIteration .loopIteration loop (number + 1) ∨
        next.ClosesLoop .loopComplete number)

end Step

/-! ## The steps of a loop -/

/-- The first step of an iteration tells its loop and its number. -/
theorem Context.marksIteration_iterate (context : Context) (frame : LoopFrame)
    (outer : List LoopFrame) (array : Array Float) :
    ((context.iterate frame outer).draft.snapshot array).MarksIteration .loopIteration frame.node
      (frame.iteration + 1) := by
  refine ⟨?_, ?_, ?_⟩
  · exact (Step.isEvent_snapshot_iff (context.reports_iterate frame outer)).2 rfl
  · simp [Context.iterate, Context.iterationDraft]
  · have hfact : ({ context with loops := frame :: outer } : Context).loopFacts.get?
        "loopIteration" = some (.ofNat (frame.iteration + 1)) :=
      Context.get?_loopFacts_iteration rfl
    simp [Context.iterate, hfact]

/-- The last step of a loop tells how many iterations it had. -/
theorem Context.closesLoop_finished (context : Context) (frame : LoopFrame)
    (array : Array Float) :
    ((context.effectVia "complete" (finishedDraft frame)).draft.snapshot array).ClosesLoop
      .loopComplete frame.iteration := by
  refine ⟨?_, ?_⟩
  · exact (Step.isEvent_snapshot_iff (context.reports_finished frame)).2 rfl
  · simp [finishedDraft]

/-- The step that ends an iteration tells its loop and its number. -/
theorem Run.marksIteration_bodyComplete {context : Context} {frame : LoopFrame}
    {outer : List LoopFrame} (hloops : context.loops = frame :: outer) (array : Array Float) :
    ((bodyCompleteDraft context frame).snapshot array).MarksIteration .loopBodyComplete frame.node
      (frame.iteration + 1) := by
  refine ⟨?_, ?_, ?_⟩
  · exact (Step.isEvent_snapshot_iff (reports_bodyComplete context frame)).2 rfl
  · simp [bodyCompleteDraft]
  · simp [bodyCompleteDraft, Context.get?_loopFacts_iteration hloops]

/-- No node reports the end of an iteration. -/
theorem Index.perform_not_bodyComplete (index : Index) (context : Context) (node : Node)
    (array : Array Float) :
    ((index.perform context node).draft.snapshot array).isEvent .loopBodyComplete = false := by
  rcases index.perform_reports context node with ⟨event, hmem, hreports⟩
  apply Step.isEvent_snapshot_of_ne hreports
  rintro rfl
  revert hmem
  cases node.kind <;> decide

/-! ## Runs without an open question -/

/-- Every end of an iteration in the trace has its answer. -/
structure Run.Settled (run : Run) : Prop where
  chain : run.trace.toList.IsChain Step.AnsweredBy
  last : ∀ step ∈ run.trace.toList.getLast?, step.isEvent .loopBodyComplete = false

namespace Run.Settled

variable {run : Run}

/-- Behind a settled trace any step may stand. -/
theorem chain_record (h : run.Settled) (draft : Draft) :
    (run.record draft).trace.toList.IsChain Step.AnsweredBy := by
  have hjoin : ∀ step ∈ run.trace.toList.getLast?,
      ∀ next ∈ [draft.snapshot run.context.array].head?, step.AnsweredBy next := by
    intro step hlast next _ hevent
    rw [h.last step hlast] at hevent
    cases hevent
  simpa using h.chain.append (List.isChain_singleton _) hjoin

theorem record {draft : Draft} {event : Event} (h : run.Settled) (hreports : draft.Reports event)
    (hevent : event ≠ .loopBodyComplete) : (run.record draft).Settled := by
  refine ⟨h.chain_record draft, ?_⟩
  intro step hlast
  have hstep : draft.snapshot run.context.array = step := by simpa using hlast
  rw [← hstep]
  exact Step.isEvent_snapshot_of_ne hreports hevent.symm

end Run.Settled

namespace State

/-- A run that waits for a loop to answer a step: it stands at the innermost loop, whose iteration
the step has ended. -/
def Awaits (state : State) (step : Step) : Prop :=
  ∃ frame outer, state.run.context.loops = frame :: outer ∧ state.current = frame.node ∧
    step.MarksIteration .loopBodyComplete frame.node (frame.iteration + 1)

/-- Every end of an iteration has its answer, or it was recorded last and the run stands at the loop
that gives the answer. -/
structure Answered (state : State) : Prop where
  chain : state.run.trace.toList.IsChain Step.AnsweredBy
  last : ∀ step ∈ state.run.trace.toList.getLast?, step.isEvent .loopBodyComplete = true →
    state.Awaits step

/-- The loop that a run waits for is found. -/
theorem Awaits.exists_loop {index : Index} {state : State} {step : Step} (h : state.Awaits step)
    (hstack : SoundStack index state.run.context.loops) :
    ∃ node, index.node? state.current = some node ∧ node.kind = .forLoop := by
  rcases h with ⟨frame, outer, hloops, hcurrent, -⟩
  rw [hcurrent]
  exact hstack.found frame (by simp [hloops])

/-- The loop that a run waits for answers with its next iteration or its completion. -/
theorem Awaits.answeredBy_perform {graph : Graph} {state : State} {step : Step} {node : Node}
    (h : state.Awaits step) (hstack : SoundStack graph.index state.run.context.loops)
    (hnode : graph.index.node? state.current = some node) (array : Array Float) :
    step.AnsweredBy ((graph.index.perform state.run.context node).draft.snapshot array) := by
  intro _
  have hkind : node.kind = .forLoop := by
    rcases h.exists_loop hstack with ⟨found, hfound, hkind⟩
    cases hnode.symm.trans hfound
    exact hkind
  rcases h with ⟨frame, outer, hloops, hcurrent, hends⟩
  have hframe : frame.node = node.id := by
    rw [← hcurrent, Graph.index_node?_id hnode]
  refine ⟨frame.node, frame.iteration + 1, hends, ?_⟩
  -- The frame on top is the one that the loop finds, so nothing above it is given up.
  have htop : ∀ {inner rest : List LoopFrame} {own : LoopFrame},
      state.run.context.loops = inner ++ own :: rest →
      (∀ other ∈ inner, other.node ≠ node.id) → own = frame := by
    intro inner rest own hsplit hinner
    cases inner with
    | nil =>
        rw [hloops] at hsplit
        exact (List.cons.inj hsplit).1.symm
    | cons first inner =>
        rw [hloops] at hsplit
        cases hsplit
        exact absurd hframe (hinner _ List.mem_cons_self)
  have hvisit := graph.index.loopVisit_perform state.run.context node hkind
  generalize graph.index.perform state.run.context node = effect at hvisit
  cases hvisit with
  | entered hfresh => exact absurd hframe (hfresh frame (by simp [hloops]))
  | skipped hfresh => exact absurd hframe (hfresh frame (by simp [hloops]))
  | iterated hsplit _ hinner =>
      cases htop hsplit hinner
      exact Or.inl (Context.marksIteration_iterate _ frame.next _ array)
  | completed hsplit _ hinner =>
      cases htop hsplit hinner
      exact Or.inr (Context.closesLoop_finished _ frame.next array)

namespace Answered

variable {graph : Graph} {stepLimit : Option Nat} {state : State}

/-- Performing the node that the run stands at settles the trace. -/
theorem performed (h : state.Answered) (hstack : SoundStack graph.index state.run.context.loops)
    {node : Node} (hnode : graph.index.node? state.current = some node) :
    (state.run.performed graph.index node).Settled := by
  have hjoin : ∀ step ∈ state.run.trace.toList.getLast?,
      step.AnsweredBy ((graph.index.perform state.run.context node).draft.snapshot
        (graph.index.perform state.run.context node).context.array) := by
    intro step hlast hevent
    exact (h.last step hlast hevent).answeredBy_perform hstack hnode _ hevent
  refine ⟨?_, ?_⟩
  · simpa using h.chain.append (List.isChain_singleton _) (by simpa using hjoin)
  · intro step hlast
    have hstep : (graph.index.perform state.run.context node).draft.snapshot
        (graph.index.perform state.run.context node).context.array = step := by
      simpa using hlast
    rw [← hstep]
    exact graph.index.perform_not_bodyComplete _ node _

/-- A move answers the question that was open, and leaves at most one open itself. -/
theorem step {next : State} (h : state.Answered)
    (hstack : SoundStack graph.index state.run.context.loops)
    (hstep : state.step graph.index stepLimit = .running next) : next.Answered := by
  cases move_of_step hstep with
  | onward _ hnode =>
      have hsettled := h.performed hstack hnode
      refine ⟨hsettled.chain, ?_⟩
      intro step hlast hevent
      rw [hsettled.last step hlast] at hevent
      cases hevent
  | @returned node loopNode handle frame outer _ hnode _ _ hloops hloop =>
      refine ⟨(h.performed hstack hnode).chain_record _, ?_⟩
      intro step hlast _
      -- The step that was recorded last ends an iteration of the loop that comes next.
      have hends := Run.marksIteration_bodyComplete hloops
        (graph.index.perform state.run.context node).context.array
      have hlastStep : (Run.bodyCompleteDraft (graph.index.perform state.run.context node).context
          frame).snapshot (graph.index.perform state.run.context node).context.array = step := by
        simpa using hlast
      exact ⟨frame, outer, hloops, Graph.index_node?_id hloop, hlastStep ▸ hends⟩

/-- A run that ends leaves no question open unless it is broken off at its limit. -/
theorem ended {run : Run} (h : state.Answered)
    (hstack : SoundStack graph.index state.run.context.loops)
    (hended : state.step graph.index stepLimit = .ended run) :
    run.Settled ∨ ∃ limit, run = state.run.fail (.stepLimitExceeded limit) := by
  cases move_of_step hended with
  | limitReached => exact Or.inr ⟨_, rfl⟩
  | nodeMissing _ hmissing =>
      -- A loop that the run waits for would not be missing.
      have hsettled : state.run.Settled := by
        refine ⟨h.chain, ?_⟩
        intro step hlast
        rw [Bool.eq_false_iff]
        intro hevent
        rcases (h.last step hlast hevent).exists_loop hstack with ⟨node, hnode, -⟩
        cases hmissing.symm.trans hnode
      have hfailed := hsettled.record (Run.reports_failure state.run.context
        (.nodeNotFound state.current state.previous)) (by decide)
      exact Or.inl ⟨hfailed.chain, hfailed.last⟩
  | finished _ hnode =>
      exact Or.inl (h.performed hstack hnode)
  | pathEnded _ hnode =>
      exact Or.inl ((h.performed hstack hnode).record (Run.reports_pathEnded _ _) (by decide))
  | loopLost _ hnode _ _ hloops hlost =>
      exact absurd hlost (hstack.not_lost (Graph.index_node?_self hnode) hloops)

end Answered
end State

/-! ## Whole runs -/

inductive LoopAnswer
  | nextIteration
  | completion
  | limit
deriving DecidableEq, Repr

/-- What the step behind the end of an iteration shows for each answer, and what comes after it if
the run was broken off. -/
def Outcome.Answers (outcome : Outcome) (loop : NodeId) (number : Nat) (next : Step)
    (rest : List Step) : LoopAnswer → Prop
  | .nextIteration => next.MarksIteration .loopIteration loop (number + 1)
  | .completion => next.ClosesLoop .loopComplete number
  | .limit =>
      next.isEvent .error = true ∧ rest = [] ∧ ∃ limit,
        outcome.error = some (.stepLimitExceeded limit) ∧
        next.metadata.get? "errorMessage" =
          some (.string (RunError.message (.stepLimitExceeded limit)))

namespace Outcome.Answers

variable {outcome : Outcome} {loop : NodeId} {number : Nat} {next : Step} {rest : List Step}

/-- No step gives two answers. -/
theorem unique {first second : LoopAnswer} (hfirst : outcome.Answers loop number next rest first)
    (hsecond : outcome.Answers loop number next rest second) : first = second := by
  -- The three answers show different events.
  have hevent : ∀ answer, outcome.Answers loop number next rest answer →
      next.isEvent (match answer with
        | .nextIteration => .loopIteration
        | .completion => .loopComplete
        | .limit => .error) = true := by
    intro answer hanswer
    cases answer with
    | nextIteration => exact hanswer.reported
    | completion => exact hanswer.reported
    | limit => exact hanswer.1
  have hsame := Step.eq_of_isEvent (hevent first hfirst) (hevent second hsecond)
  revert hsame
  cases first <;> cases second <;> decide

theorem existsUnique {answer : LoopAnswer} (h : outcome.Answers loop number next rest answer) :
    ∃! answer, outcome.Answers loop number next rest answer := by
  refine ⟨answer, h, ?_⟩
  intro other hother
  exact unique hother h

/-- The answer of a loop is one of the three. -/
theorem of_answeredBy {step : Step} (h : step.AnsweredBy next)
    (hevent : step.isEvent .loopBodyComplete = true) :
    ∃ loop number, step.MarksIteration .loopBodyComplete loop number ∧
      ∃! answer, outcome.Answers loop number next rest answer := by
  rcases h hevent with ⟨loop, number, hends, hopens | hcompletes⟩
  · have hanswer : outcome.Answers loop number next rest .nextIteration := hopens
    exact ⟨loop, number, hends, hanswer.existsUnique⟩
  · have hanswer : outcome.Answers loop number next rest .completion := hcompletes
    exact ⟨loop, number, hends, hanswer.existsUnique⟩

end Outcome.Answers

/-- Each step that reports the end of an iteration names its loop and the number of the iteration,
and the step right behind it gives exactly one of the three answers. -/
def Outcome.IsAnswered (outcome : Outcome) : Prop :=
  ∀ earlier step later, outcome.steps = earlier ++ step :: later →
    step.isEvent .loopBodyComplete = true →
    ∃ loop number, step.MarksIteration .loopBodyComplete loop number ∧
      ∃ next rest, later = next :: rest ∧
        ∃! answer, outcome.Answers loop number next rest answer

/-- A settled run answers each end of an iteration. -/
theorem Run.Settled.isAnswered {run : Run} (h : run.Settled) : run.outcome.IsAnswered := by
  intro earlier step later hsteps hevent
  have htrace : run.trace.toList = earlier ++ step :: later := hsteps
  cases later with
  | nil =>
      -- The last step of a settled trace ends no iteration.
      have hquiet := h.last step (by simp [htrace])
      cases hquiet.symm.trans hevent
  | cons next rest =>
      have hnext := List.isChain_iff_forall_rel_of_append_cons_cons.1 h.chain htrace
      rcases Outcome.Answers.of_answeredBy hnext hevent with ⟨loop, number, hends, hanswer⟩
      exact ⟨loop, number, hends, next, rest, rfl, hanswer⟩

/-- Where a run is broken off at its limit, the step that says so answers a question left open. -/
theorem State.Answered.isAnswered_limit {state : State} (h : state.Answered) (limit : Nat) :
    (state.run.fail (.stepLimitExceeded limit)).outcome.IsAnswered := by
  intro earlier step later hsteps hevent
  have hreports := Run.reports_failure state.run.context (.stepLimitExceeded limit)
  have htrace : state.run.trace.toList ++
      [(Run.failureDraft state.run.context (.stepLimitExceeded limit)).snapshot
        state.run.context.array] = earlier ++ step :: later := by
    simpa [Run.outcome] using hsteps
  rcases Step.split_concat htrace with ⟨-, -, rfl⟩ | ⟨between, rfl, hbefore⟩
  · cases (Step.isEvent_snapshot_iff hreports).1 hevent
  · cases between with
    | nil =>
        -- The end of an iteration was recorded last, and the limit came before the loop's turn.
        rcases h.last step (by simp [hbefore]) hevent with ⟨frame, outer, -, -, hends⟩
        have hanswer : (state.run.fail (.stepLimitExceeded limit)).outcome.Answers frame.node
            (frame.iteration + 1)
            ((Run.failureDraft state.run.context (.stepLimitExceeded limit)).snapshot
              state.run.context.array) [] .limit := by
          refine ⟨(Step.isEvent_snapshot_iff hreports).2 rfl, rfl, limit, rfl, ?_⟩
          simp [Run.failureDraft]
        exact ⟨frame.node, frame.iteration + 1, hends, _, [], rfl, hanswer.existsUnique⟩
    | cons next rest =>
        have hnext := List.isChain_iff_forall_rel_of_append_cons_cons.1 h.chain hbefore
        rcases Outcome.Answers.of_answeredBy hnext hevent with ⟨loop, number, hends, hanswer⟩
        exact ⟨loop, number, hends, next, _, rfl, hanswer⟩

namespace Graph

variable {graph : Graph} {array : Array Float} {settings : Settings}

/-- Throughout a run every end of an iteration has its answer, or the run waits for it. -/
theorem stateAt?_answered {moves : Nat} {state : State}
    (hstate : graph.stateAt? array settings moves = some state) : state.Answered := by
  have hboth : SoundStack graph.index state.run.context.loops ∧ state.Answered := by
    revert hstate
    apply stateAt?_invariant
    · intro start others _
      refine ⟨SoundStack.nil, ?_, ?_⟩
      · simp [initialState]
      · simp [initialState]
    · rintro state next ⟨hstack, hanswered⟩ hstep
      refine ⟨?_, hanswered.step hstack hstep⟩
      simpa [hstep] using soundStack_step settings.stepLimit hstack
  exact hboth.2

/-- Whatever the graph looks like, in the trace of a run that ends each end of an iteration is
answered right behind it: by the next iteration of the same loop, by the completion of the loop
after as many iterations, or by the last step of all, which reports that the run was broken off at
its limit. -/
theorem iteration_end_answered (graph : Graph) (array : Array Float) (settings : Settings)
    (moves : Nat) (outcome : Outcome)
    (houtcome : graph.execute? array settings moves = some outcome) : outcome.IsAnswered := by
  rcases execute?_eq_some_iff.1 houtcome with
    ⟨-, rfl⟩ | ⟨before, -, last, run, hlast, hended, rfl⟩
  · -- Without a start node nothing is recorded.
    intro earlier step later hsteps
    simp [Run.outcome] at hsteps
  · have hanswered := stateAt?_answered hlast
    rcases hanswered.ended (stateAt?_soundStack hlast) hended with hsettled | ⟨limit, rfl⟩
    · exact hsettled.isAnswered
    · exact hanswered.isAnswered_limit limit

/-- The run over nested loops ends iterations of both; with a limit of five steps it is broken off
right behind the first end of one. -/
theorem iteration_end_answered_nestedSwaps :
    (∃ outcome, nestedSwaps.execute? #[2.0, 1.0] {} 15 = some outcome ∧ outcome.completed = true ∧
      outcome.steps.any (·.isEvent .loopBodyComplete) = true ∧ outcome.IsAnswered) ∧
    ∃ outcome step last, nestedSwaps.execute? #[2.0, 1.0] ⟨some 5, []⟩ 15 = some outcome ∧
      outcome.steps.drop 4 = [step, last] ∧ step.isEvent .loopBodyComplete = true ∧
      last.isEvent .error = true ∧ outcome.IsAnswered := by
  have hends : ((nestedSwaps.execute? #[2.0, 1.0] {} 15).map fun outcome =>
      (outcome.completed, outcome.steps.any (·.isEvent .loopBodyComplete))) =
        some (true, true) := by
    decide +kernel
  have hlimited : ((nestedSwaps.execute? #[2.0, 1.0] ⟨some 5, []⟩ 15).map fun outcome =>
      (outcome.steps.drop 4).map fun step =>
        (step.isEvent .loopBodyComplete, step.isEvent .error)) =
          some [(true, false), (false, true)] := by
    decide +kernel
  rcases Option.map_eq_some_iff.1 hends with ⟨outcome, houtcome, hshown⟩
  rcases Option.map_eq_some_iff.1 hlimited with ⟨limited, hlimit, hlast⟩
  have hpair : ∃ step last, limited.steps.drop 4 = [step, last] ∧
      step.isEvent .loopBodyComplete = true ∧ last.isEvent .error = true := by
    rcases List.map_eq_cons_iff.1 hlast with ⟨step, rest, hsteps, hstep, hrest⟩
    rcases List.map_eq_singleton_iff.1 hrest with ⟨last, rfl, herror⟩
    exact ⟨step, last, hsteps, congrArg Prod.fst hstep, congrArg Prod.snd herror⟩
  rcases hpair with ⟨step, last, hsteps, hstep, herror⟩
  exact ⟨⟨outcome, houtcome, congrArg Prod.fst hshown, congrArg Prod.snd hshown,
      iteration_end_answered nestedSwaps #[2.0, 1.0] {} 15 outcome houtcome⟩,
    limited, step, last, hlimit, hsteps, hstep, herror,
      iteration_end_answered nestedSwaps #[2.0, 1.0] ⟨some 5, []⟩ 15 limited hlimit⟩

end Graph
end FlowTrace
