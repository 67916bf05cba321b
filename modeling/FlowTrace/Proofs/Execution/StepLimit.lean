import FlowTrace.Proofs.Execution.Ending
import FlowTrace.Proofs.Execution.Termination

/-!
# Step limits

A limit on the number of steps breaks a run off and does nothing else.  Two runs that differ in
their limits alone pass through the same states until the tighter limit is reached, and since every
move records at least one step, it is reached sooner or later unless the run ends by itself.

* `State.step_eq_of_withinLimit` — a limit that is not reached makes no difference to a move;
* `Graph.stateAt?_of_tighter` and `Graph.stateAt?_of_size_le` — hence the states of one run are
  states of the other;
* `Graph.exists_outcome_of_limit` — a run with a limit ends;
* `Graph.eq_or_cutOff` — a tighter limit leaves the outcome alone or cuts the trace short.
-/

namespace FlowTrace

/-- A limit, if there is one, that allows at least a number of steps. -/
def Allows (stepLimit : Option Nat) (count : Nat) : Prop :=
  ∀ limit, stepLimit = some limit → count ≤ limit

theorem allows_none (count : Nat) : Allows none count := by
  intro limit hlimit
  cases hlimit

/-- The steps of a run without the one that reports that it was broken off at its limit. -/
def Outcome.stepsBeforeLimit (outcome : Outcome) : List Step :=
  match outcome.error with
  | some (.stepLimitExceeded _) => outcome.steps.dropLast
  | _ => outcome.steps

namespace State

variable {index : Index} {stepLimit : Option Nat} {state next : State}

/-! ## What a move records -/

/-- A move that goes on records one step or two. -/
theorem size_of_running (hstep : state.step index stepLimit = .running next) :
    state.run.trace.size < next.run.trace.size ∧
      next.run.trace.size ≤ state.run.trace.size + 2 := by
  cases move_of_step hstep with
  | onward => simp
  | returned =>
      simp only [Run.trace_record, Run.trace_performed, Array.size_push]
      omega

theorem prefix_of_running (hstep : state.step index stepLimit = .running next) :
    state.run.trace.toList <+: next.run.trace.toList := by
  cases move_of_step hstep with
  | onward => simp
  | returned => simp

theorem withinLimit_of_running (hstep : state.step index stepLimit = .running next) :
    state.WithinLimit stepLimit := by
  cases move_of_step hstep with
  | onward hwithin => exact hwithin
  | returned hwithin => exact hwithin

/-! ## The limit of a move -/

theorem withinLimit_none (state : State) : state.WithinLimit none := by
  intro limit hlimit
  cases hlimit

theorem withinLimit_some_iff {limit : Nat} :
    state.WithinLimit (some limit) ↔ state.run.trace.size < limit := by
  simp [WithinLimit]

/-- A trace that a limit leaves room for is within every limit that allows as much. -/
theorem WithinLimit.of_tighter {count : Nat} (h : state.WithinLimit (some count))
    (hallows : Allows stepLimit count) : state.WithinLimit stepLimit := by
  intro limit hlimit
  have hcount : state.run.trace.size < count := h count rfl
  exact Nat.lt_of_lt_of_le hcount (hallows limit hlimit)

/-- A limit that is not reached makes no difference to a move. -/
theorem step_eq_of_withinLimit {other : Option Nat} (hfirst : state.WithinLimit stepLimit)
    (hsecond : state.WithinLimit other) : state.step index stepLimit = state.step index other := by
  have hnone := filter_eq_none_iff_withinLimit.2 hfirst
  have hother := filter_eq_none_iff_withinLimit.2 hsecond
  simp only [step, hnone, hother]

/-- A run with a limit ends, since each move uses up some of the steps that are left. -/
theorem halts_of_limit {limit : Nat} :
    ∀ (room : Nat) (state : State), limit ≤ state.run.trace.size + room →
      state.Halts index (some limit) := by
  -- The induction is on the steps that the limit leaves room for.
  intro room
  induction room with
  | zero =>
      intro state hroom
      apply halts_of_forall_running
      intro next hstep
      have hwithin := withinLimit_of_running hstep
      have hlt : state.run.trace.size < limit := withinLimit_some_iff.1 hwithin
      omega
  | succ room ih =>
      intro state hroom
      apply halts_of_forall_running
      intro next hstep
      have hgrown := (size_of_running hstep).1
      exact ih next (by omega)

/-- Whatever a move that ends a run records comes after the steps before it. -/
theorem prefix_stepsBeforeLimit {run : Run} (hopen : state.run.context.error = none)
    (hended : state.step index stepLimit = .ended run) :
    state.run.trace.toList <+: run.outcome.stepsBeforeLimit := by
  -- Only a run that was broken off has an error to show.
  have hnone : ∀ node, (index.perform state.run.context node).context.error = none := by
    intro node
    exact (index.framed_perform state.run.context node).error.trans hopen
  cases move_of_step hended with
  | limitReached => simp [Outcome.stepsBeforeLimit, Run.outcome]
  | nodeMissing => simp [Outcome.stepsBeforeLimit, Run.outcome]
  | finished => simp [Outcome.stepsBeforeLimit, Run.outcome, hnone]
  | pathEnded => simp [Outcome.stepsBeforeLimit, Run.outcome, hnone]
  | loopLost => simp [Outcome.stepsBeforeLimit, Run.outcome, hnone]

end State

namespace Graph

variable {graph : Graph} {array : Array Float} {settings : Settings}

/-! ## One run -/

theorem prefix_of_le {first last : Nat} {state other : State} (hle : first ≤ last)
    (hstate : graph.stateAt? array settings first = some state) :
    graph.stateAt? array settings last = some other →
      state.run.trace.toList <+: other.run.trace.toList := by
  induction last, hle using Nat.le_induction generalizing other with
  | base =>
      intro hother
      cases hstate.symm.trans hother
      exact List.prefix_refl _
  | succ last _ ih =>
      intro hother
      rcases stateAt?_succ.1 hother with ⟨middle, hmiddle, hstep⟩
      exact (ih hmiddle).trans (State.prefix_of_running hstep)

/-- No state comes after the one from which a run ends. -/
theorem le_of_ended {moves last : Nat} {state final : State} {run : Run}
    (hstate : graph.stateAt? array settings moves = some state)
    (hfinal : graph.stateAt? array settings last = some final)
    (hended : final.step graph.index settings.stepLimit = .ended run) : moves ≤ last := by
  by_contra hlater
  rcases exists_stateAt?_of_le (Nat.lt_of_not_le hlater) hstate with ⟨next, hnext⟩
  rcases stateAt?_succ.1 hnext with ⟨middle, hmiddle, hstep⟩
  cases hfinal.symm.trans hmiddle
  cases hended.symm.trans hstep

/-- A run that ends from a state has the outcome of that ending and no other. -/
theorem eq_outcome_of_ended {last moves : Nat} {final : State} {run : Run} {outcome : Outcome}
    (hfinal : graph.stateAt? array settings last = some final)
    (hended : final.step graph.index settings.stepLimit = .ended run)
    (houtcome : graph.execute? array settings moves = some outcome) : outcome = run.outcome := by
  rcases execute?_eq_some_iff.1 houtcome with
    ⟨hnone, -⟩ | ⟨before, -, state, other, hstate, hother, rfl⟩
  · simp [stateAt?, hnone] at hfinal
  · have hsame : before = last :=
      Nat.le_antisymm (le_of_ended hstate hfinal hended) (le_of_ended hfinal hstate hother)
    subst hsame
    cases hfinal.symm.trans hstate
    cases hended.symm.trans hother
    rfl

/-- Only an end node completes a run: it records one step, and the limit leaves room for it. -/
theorem size_of_completed {moves : Nat} {state : State} {run : Run}
    (hstate : graph.stateAt? array settings moves = some state)
    (hended : state.step graph.index settings.stepLimit = .ended run)
    (hcompleted : run.outcome.completed = true) :
    state.WithinLimit settings.stepLimit ∧
      run.outcome.steps.length = state.run.trace.size + 1 ∧ run.outcome.error = none := by
  have hopen := stateAt?_unfinished hstate
  have hfalse := hopen.completed
  cases State.move_of_step hended with
  | @finished node hwithin =>
      have herror := (graph.index.framed_perform state.run.context node).error.trans hopen.error
      exact ⟨hwithin, by simp [Run.outcome], herror⟩
  | limitReached => simp [Run.outcome, hfalse] at hcompleted
  | nodeMissing => simp [Run.outcome, hfalse] at hcompleted
  | pathEnded _ _ hexit =>
      have hstill := (hopen.performed hexit).completed
      cases hstill.symm.trans hcompleted
  | loopLost _ _ hexit =>
      have hstill := (hopen.performed hexit).completed
      cases hstill.symm.trans hcompleted

/-! ## Runs that differ in their limits -/

section Limits

variable {bindings : List (String × Value)} {limit : Nat} {stepLimit : Option Nat}

/-- As long as a limit is not reached, a looser one makes no difference. -/
theorem stateAt?_of_tighter (hallows : Allows stepLimit limit) {moves : Nat} {state : State} :
    graph.stateAt? array ⟨some limit, bindings⟩ moves = some state →
      graph.stateAt? array ⟨stepLimit, bindings⟩ moves = some state := by
  induction moves generalizing state with
  | zero =>
      intro hstate
      exact stateAt?_zero.2 (stateAt?_zero.1 hstate)
  | succ moves ih =>
      intro hstate
      rcases stateAt?_succ.1 hstate with ⟨middle, hmiddle, hstep⟩
      have hwithin := State.withinLimit_of_running hstep
      have hsame : middle.step graph.index stepLimit = .running state :=
        (State.step_eq_of_withinLimit (hwithin.of_tighter hallows) hwithin).trans hstep
      exact stateAt?_succ.2 ⟨middle, ih hmiddle, hsame⟩

/-- A run without a limit passes through the states of a run with one until the trace is as long as
the limit. -/
theorem stateAt?_of_size_le {moves : Nat} {state : State} :
    state.run.trace.size ≤ limit → graph.stateAt? array ⟨none, bindings⟩ moves = some state →
      graph.stateAt? array ⟨some limit, bindings⟩ moves = some state := by
  induction moves generalizing state with
  | zero =>
      intro _ hstate
      exact stateAt?_zero.2 (stateAt?_zero.1 hstate)
  | succ moves ih =>
      intro hsize hstate
      rcases stateAt?_succ.1 hstate with ⟨middle, hmiddle, hstep⟩
      have hgrown : middle.run.trace.size < limit :=
        Nat.lt_of_lt_of_le (State.size_of_running hstep).1 hsize
      have hwithin : middle.WithinLimit (some limit) := State.withinLimit_some_iff.2 hgrown
      have hsame : middle.step graph.index (some limit) = .running state :=
        (State.step_eq_of_withinLimit hwithin (State.withinLimit_of_running hstep)).trans hstep
      exact stateAt?_succ.2 ⟨middle, ih hgrown.le hmiddle, hsame⟩

/-- Between two moves the trace exceeds the limit by one step at most. -/
theorem size_le_of_limit {moves : Nat} {state : State} :
    graph.stateAt? array ⟨some limit, bindings⟩ moves = some state →
      state.run.trace.size ≤ limit + 1 := by
  apply stateAt?_invariant
  · intro start others _
    simp [initialState]
  · intro state next _ hstep
    have hwithin := State.withinLimit_of_running hstep
    have hlt : state.run.trace.size < limit := State.withinLimit_some_iff.1 hwithin
    have hgrown := (State.size_of_running hstep).2
    omega

/-- A run with a limit ends. -/
theorem exists_outcome_of_limit (graph : Graph) (array : Array Float)
    (bindings : List (String × Value)) (limit : Nat) :
    ∃ moves outcome, graph.execute? array ⟨some limit, bindings⟩ moves = some outcome := by
  cases hstarts : graph.nodesOfKind .start with
  | nil =>
      exact ⟨0, _, by simp only [execute?, hstarts]; rfl⟩
  | cons start others =>
      have hhalts : (initialState start array ⟨some limit, bindings⟩).Halts graph.index
          (some limit) :=
        State.halts_of_limit limit _ (Nat.le_add_left _ _)
      rcases hhalts with ⟨moves, run, hrun⟩
      exact ⟨moves, run.outcome, by simp [execute?, hstarts, hrun]⟩

/-- A run with a limit records at most two steps more. -/
theorem length_steps_le_of_limit {moves : Nat} {outcome : Outcome}
    (houtcome : graph.execute? array ⟨some limit, bindings⟩ moves = some outcome) :
    outcome.steps.length ≤ limit + 2 := by
  rcases execute?_eq_some_iff.1 houtcome with
    ⟨-, rfl⟩ | ⟨before, -, state, run, hstate, hended, rfl⟩
  · simp [Run.outcome]
  · have hlength : run.outcome.steps.length = run.trace.size := by simp [Run.outcome]
    have hsize := size_le_of_limit hstate
    -- Within the limit the last move may record two steps, and at the limit only one.
    have hlast : run.trace.size ≤ limit + 2 := by
      by_cases hwithin : state.run.trace.size < limit
      · have htwo := size_le_of_ended hended
        omega
      · cases State.move_of_step hended with
        | limitReached => simpa using hsize
        | nodeMissing hinside => exact absurd (hinside limit rfl) hwithin
        | finished hinside => exact absurd (hinside limit rfl) hwithin
        | pathEnded hinside => exact absurd (hinside limit rfl) hwithin
        | loopLost hinside => exact absurd (hinside limit rfl) hwithin
    omega

/-- A tighter limit leaves the outcome of a run alone, or breaks it off in a state that the run with
the looser limit comes through. -/
theorem eq_or_cutOff (hallows : Allows stepLimit limit) {moves others : Nat}
    {shorter longer : Outcome}
    (hshorter : graph.execute? array ⟨some limit, bindings⟩ moves = some shorter)
    (hlonger : graph.execute? array ⟨stepLimit, bindings⟩ others = some longer) :
    shorter = longer ∨
      (shorter.error = some (.stepLimitExceeded limit) ∧
        shorter.stepsBeforeLimit <+: longer.stepsBeforeLimit) := by
  rcases execute?_eq_some_iff.1 hshorter with
    ⟨hnone, hshown⟩ | ⟨before, -, state, run, hstate, hended, rfl⟩
  · -- Without a start node both runs have the same outcome.
    have hsame : longer = shorter := by
      have hmissing : graph.execute? array ⟨stepLimit, bindings⟩ others = some shorter := by
        simp only [execute?, hnone, hshown]
        rfl
      exact Option.some.inj (hlonger.symm.trans hmissing)
    exact Or.inl hsame.symm
  · have hthrough := stateAt?_of_tighter hallows hstate
    by_cases hwithin : state.WithinLimit (some limit)
    · -- The last move is the same in both runs.
      have hsame : state.step graph.index stepLimit = .ended run :=
        (State.step_eq_of_withinLimit (hwithin.of_tighter hallows) hwithin).trans hended
      exact Or.inl (eq_outcome_of_ended hthrough hsame hlonger).symm
    · cases State.move_of_step hended with
      | nodeMissing hinside => exact absurd hinside hwithin
      | finished hinside => exact absurd hinside hwithin
      | pathEnded hinside => exact absurd hinside hwithin
      | loopLost hinside => exact absurd hinside hwithin
      | limitReached hlimit =>
          cases hlimit
          have hcut : (state.run.fail (.stepLimitExceeded limit)).outcome.stepsBeforeLimit =
              state.run.trace.toList := by
            simp [Outcome.stepsBeforeLimit, Run.outcome]
          refine Or.inr ⟨rfl, ?_⟩
          rw [hcut]
          -- The other run goes on from here, and its trace only grows.
          rcases execute?_eq_some_iff.1 hlonger with
            ⟨hnone, -⟩ | ⟨last, -, final, other, hfinal, hother, rfl⟩
          · simp [stateAt?, hnone] at hthrough
          · have hle : before ≤ last := le_of_ended hthrough hfinal hother
            have hopen := (stateAt?_unfinished hfinal).error
            exact (prefix_of_le hle hthrough hfinal).trans
              (State.prefix_stepsBeforeLimit hopen hother)

/-- A run that completes without a limit completes with each limit that allows all of its steps. -/
theorem execute?_of_completed {moves : Nat} {outcome : Outcome}
    (houtcome : graph.execute? array ⟨none, bindings⟩ moves = some outcome)
    (hcompleted : outcome.completed = true) (hle : outcome.steps.length ≤ limit) :
    graph.execute? array ⟨some limit, bindings⟩ moves = some outcome := by
  rcases execute?_eq_some_iff.1 houtcome with
    ⟨-, rfl⟩ | ⟨before, hlt, state, run, hstate, hended, rfl⟩
  · cases hcompleted
  · have hlength := (size_of_completed hstate hended hcompleted).2.1
    have hroom : state.run.trace.size < limit := by omega
    have hwithin : state.WithinLimit (some limit) := State.withinLimit_some_iff.2 hroom
    have hsame : state.step graph.index (some limit) = .ended run :=
      (State.step_eq_of_withinLimit hwithin state.withinLimit_none).trans hended
    exact execute?_eq_some_iff.2
      (Or.inr ⟨before, hlt, state, run, stateAt?_of_size_le hroom.le hstate, hsame, rfl⟩)

/-- A run that completes was not broken off and has not recorded more steps than its limit. -/
theorem length_steps_le_of_completed {moves : Nat} {outcome : Outcome}
    (houtcome : graph.execute? array ⟨some limit, bindings⟩ moves = some outcome)
    (hcompleted : outcome.completed = true) :
    outcome.steps.length ≤ limit ∧ outcome.error = none := by
  rcases execute?_eq_some_iff.1 houtcome with
    ⟨-, rfl⟩ | ⟨before, -, state, run, hstate, hended, rfl⟩
  · cases hcompleted
  · rcases size_of_completed hstate hended hcompleted with ⟨hwithin, hlength, herror⟩
    have hroom : state.run.trace.size < limit := hwithin limit rfl
    exact ⟨by omega, herror⟩

end Limits

/-- A limit only truncates.  A run with a limit ends and exceeds it by two steps at most; a tighter
limit leaves the outcome alone or cuts the trace short; and a run that completes without a limit
completes with exactly those limits that allow all of its steps. -/
theorem stepLimit_truncates (graph : Graph) (array : Array Float)
    (bindings : List (String × Value)) :
    (∀ limit, ∃ moves outcome,
      graph.execute? array ⟨some limit, bindings⟩ moves = some outcome) ∧
    (∀ limit moves outcome,
      graph.execute? array ⟨some limit, bindings⟩ moves = some outcome →
      outcome.steps.length ≤ limit + 2) ∧
    (∀ limit stepLimit, Allows stepLimit limit → ∀ moves others shorter longer,
      graph.execute? array ⟨some limit, bindings⟩ moves = some shorter →
      graph.execute? array ⟨stepLimit, bindings⟩ others = some longer →
      shorter = longer ∨
        (shorter.error = some (.stepLimitExceeded limit) ∧
          shorter.stepsBeforeLimit <+: longer.stepsBeforeLimit)) ∧
    (∀ moves outcome, graph.execute? array ⟨none, bindings⟩ moves = some outcome →
      outcome.completed = true → ∀ limit,
      (∃ others limited, graph.execute? array ⟨some limit, bindings⟩ others = some limited ∧
        limited.completed = true) ↔ outcome.steps.length ≤ limit) := by
  refine ⟨?_, ?_, ?_, ?_⟩
  · exact exists_outcome_of_limit graph array bindings
  · intro limit moves outcome houtcome
    exact length_steps_le_of_limit houtcome
  · intro limit stepLimit hallows moves others shorter longer hshorter hlonger
    exact eq_or_cutOff hallows hshorter hlonger
  · intro moves outcome houtcome hcompleted limit
    constructor
    · rintro ⟨others, limited, hlimited, hdone⟩
      rcases length_steps_le_of_completed hlimited hdone with ⟨hlength, herror⟩
      rcases eq_or_cutOff (allows_none limit) hlimited houtcome with rfl | ⟨hcut, -⟩
      · exact hlength
      · cases herror.symm.trans hcut
    · intro hle
      exact ⟨moves, outcome, execute?_of_completed houtcome hcompleted hle, hcompleted⟩

/-- A limit of four steps breaks the run over nested loops off, and one of twenty-one lets it
complete. -/
theorem stepLimit_truncates_nestedSwaps :
    (∃ shorter longer,
      nestedSwaps.execute? #[2.0, 1.0] ⟨some 4, []⟩ 15 = some shorter ∧
      nestedSwaps.execute? #[2.0, 1.0] ⟨none, []⟩ 15 = some longer ∧ shorter ≠ longer ∧
      shorter.error = some (.stepLimitExceeded 4) ∧
      shorter.stepsBeforeLimit <+: longer.stepsBeforeLimit ∧ longer.steps.length = 21) ∧
    ∃ others limited,
      nestedSwaps.execute? #[2.0, 1.0] ⟨some 21, []⟩ others = some limited ∧
      limited.completed = true := by
  have htruncates := stepLimit_truncates nestedSwaps #[2.0, 1.0] []
  have hcut : (nestedSwaps.execute? #[2.0, 1.0] ⟨some 4, []⟩ 15).isSome = true := by
    decide +kernel
  have hends : (nestedSwaps.execute? #[2.0, 1.0] ⟨none, []⟩ 15).isSome = true := by decide +kernel
  have hopen : ∀ outcome ∈ nestedSwaps.execute? #[2.0, 1.0] ⟨some 4, []⟩ 15,
      outcome.completed = false := by
    decide +kernel
  have hdone : ∀ outcome ∈ nestedSwaps.execute? #[2.0, 1.0] ⟨none, []⟩ 15,
      outcome.completed = true ∧ outcome.steps.length = 21 := by
    decide +kernel
  rcases Option.isSome_iff_exists.1 hcut with ⟨shorter, hshorter⟩
  rcases Option.isSome_iff_exists.1 hends with ⟨longer, hlonger⟩
  rcases hdone longer hlonger with ⟨hcompleted, hlength⟩
  have hne : shorter ≠ longer := by
    rintro rfl
    cases (hopen shorter hshorter).symm.trans hcompleted
  rcases htruncates.2.2.1 4 none (allows_none 4) 15 15 shorter longer hshorter hlonger with
    hsame | ⟨herror, hprefix⟩
  · exact absurd hsame hne
  · refine ⟨⟨shorter, longer, hshorter, hlonger, hne, herror, hprefix, hlength⟩, ?_⟩
    exact (htruncates.2.2.2 15 longer hlonger hcompleted 21).2 (Nat.le_of_eq hlength)

end Graph
end FlowTrace
