import FlowTrace.Proofs.Execution.Effects
import FlowTrace.Proofs.Execution.Moves
import Mathlib.Data.List.Perm.Basic

/-!
# Playing a trace back

The steps of a trace are pictures of the working array.  Playing them back in order shows every
change of the array and nothing else: a swap that was carried out exchanges the two elements it
names, and every other step shows the array that the step before it left.

* `Step.Follows` — what a step shows of the array in front of it;
* `Replays` — a list of steps leads from one array to another, as the trace of a run does.
-/

namespace FlowTrace

/-- Whether a step reports a swap that was carried out. -/
def Step.isSwap (step : Step) : Bool :=
  step.isEvent .arraySwap && !step.isError

/-- A step that follows an array: a swap shows the array with the two elements exchanged that it
names, and any other step shows the array as it is. -/
def Step.Follows (array : Array Float) (step : Step) : Prop :=
  if step.isSwap = true then
    ∃ i j : Fin array.size,
      step.metadata.get? "i" = some (.ofNat i) ∧ step.metadata.get? "j" = some (.ofNat j) ∧
        step.values = (array.swap i j).toList
  else
    step.values = array.toList

/-- Playing steps back from one array leads to another; after each step the array is the one that
the step shows. -/
def Replays : Array Float → List Step → Array Float → Prop
  | first, [], last => last = first
  | first, step :: rest, last => step.Follows first ∧ Replays step.values.toArray rest last

namespace Replays

variable {first middle last : Array Float}

/-- Steps are played back one part after the other. -/
theorem append {earlier later : List Step} :
    Replays first earlier middle → Replays middle later last →
      Replays first (earlier ++ later) last := by
  intro hearlier hlater
  induction earlier generalizing first with
  | nil =>
      cases hearlier
      exact hlater
  | cons step rest ih =>
      exact ⟨hearlier.1, ih hearlier.2⟩

/-- A step that follows an array shows a permutation of it. -/
theorem perm_of_follows {step : Step} :
    step.Follows first → step.values.Perm first.toList := by
  intro hfollows
  unfold Step.Follows at hfollows
  split at hfollows
  · rcases hfollows with ⟨i, j, -, -, hvalues⟩
    rw [hvalues]
    exact (Array.swap_perm i.isLt j.isLt).toList
  · exact hfollows ▸ List.Perm.refl _

/-- Every picture that is played back, and the array at the end, is a permutation of the array at
the beginning. -/
theorem perm {steps : List Step} :
    Replays first steps last →
      (∀ step ∈ steps, step.values.Perm first.toList) ∧ last.toList.Perm first.toList := by
  intro hsteps
  induction steps generalizing first with
  | nil =>
      cases hsteps
      exact ⟨by simp, List.Perm.refl _⟩
  | cons step rest ih =>
      -- The rest is played back from what the first step shows.
      have hhead : step.values.Perm first.toList := perm_of_follows hsteps.1
      rcases ih hsteps.2 with ⟨hrest, hlast⟩
      refine ⟨?_, hlast.trans (by simpa using hhead)⟩
      intro other hmem
      rcases List.mem_cons.1 hmem with rfl | hmem
      · exact hhead
      · exact (hrest other hmem).trans (by simpa using hhead)

end Replays

/-! ## Single steps -/

/-- A step that reports anything but a swap shows the array as it is. -/
theorem Draft.follows_snapshot {draft : Draft} {event : Event} {array : Array Float}
    (hreports : draft.Reports event) (hevent : event ≠ .arraySwap) :
    (draft.snapshot array).Follows array := by
  have hswap : (draft.snapshot array).isSwap = false := by
    simp [Step.isSwap, Step.isEvent_snapshot_of_ne hreports hevent.symm]
  simp [Step.Follows, hswap]

/-- A step that is flagged as an error shows the array as it is. -/
theorem Draft.follows_of_isError {draft : Draft} {array : Array Float}
    (herror : (draft.snapshot array).isError = true) : (draft.snapshot array).Follows array := by
  simp [Step.Follows, Step.isSwap, herror]

/-- A step that reports a swap of two elements shows the array after it. -/
theorem Draft.follows_of_swap {draft : Draft} {array : Array Float} {i j : Fin array.size}
    (hreports : draft.Reports .arraySwap) (herror : draft.metadata.get? "error" = none)
    (hi : draft.metadata.get? "i" = some (.ofNat i))
    (hj : draft.metadata.get? "j" = some (.ofNat j)) :
    (draft.snapshot (array.swap i j)).Follows array := by
  have hswap : (draft.snapshot (array.swap i j)).isSwap = true := by
    simp [Step.isSwap, Step.isError, herror, Step.isEvent_snapshot_iff hreports]
  rw [Step.Follows, if_pos hswap]
  exact ⟨i, j, hi, hj, Draft.values_snapshot draft (array.swap i j)⟩

namespace Context

/-- A swap shows the exchange, or an error and no change. -/
theorem follows_performSwap (context : Context) (node : Node) (read : String → Value) :
    ((context.performSwap node read).draft.snapshot
      (context.performSwap node read).context.array).Follows context.array := by
  unfold performSwap
  split
  · next i j _ _ =>
      -- The facts about the innermost loop are laid over those of the swap and must spare them.
      have hfacts : ∀ (other : Context) (name : String),
          name = "i" ∨ name = "j" → other.loopFacts.get? name = none := by
        rintro other name (rfl | rfl) <;>
          exact other.get?_loopFacts_of_ne (by decide) (by decide) (by decide)
      refine Draft.follows_of_swap (i := i) (j := j) ?_ ?_ ?_ ?_
      · simp [Draft.Reports]
      · simp
      · simp [hfacts]
      · simp [hfacts]
  · refine Draft.follows_of_isError ?_
    simp [Step.isError_snapshot, outOfBounds, Json.bool?]

end Context

/-- The step of every node follows the array in front of it. -/
theorem Index.follows_perform (index : Index) (context : Context) (node : Node) :
    ((index.perform context node).draft.snapshot
      (index.perform context node).context.array).Follows context.array := by
  by_cases hkind : node.kind = .arraySwap
  · have hswap : index.perform context node =
        context.performSwap node (index.input context node) := by
      simp [Index.perform, hkind]
    rw [hswap]
    exact context.follows_performSwap node (index.input context node)
  · rcases index.perform_reports context node with ⟨event, hmem, hreports⟩
    -- No other kind of node reports a swap or touches the array.
    have hevent : event ≠ .arraySwap := by
      rintro rfl
      revert hkind hmem
      cases node.kind <;> decide
    rw [(index.framed_perform context node).array hkind]
    exact Draft.follows_snapshot hreports hevent

/-! ## Moves and runs -/

theorem Replays.single {draft : Draft} {first last : Array Float}
    (hfollows : (draft.snapshot last).Follows first) :
    Replays first [draft.snapshot last] last := by
  refine ⟨hfollows, ?_⟩
  simp [Replays]

/-- A recorded draft that reports no swap shows the array of the run. -/
theorem Replays.record {first : Array Float} {run : Run} {draft : Draft} {event : Event}
    (h : Replays first run.trace.toList run.context.array) (hreports : draft.Reports event)
    (hevent : event ≠ .arraySwap) :
    Replays first (run.record draft).trace.toList (run.record draft).context.array := by
  have hstep : Replays run.context.array [draft.snapshot run.context.array] run.context.array :=
    Replays.single (Draft.follows_snapshot hreports hevent)
  simpa using h.append hstep

/-- Performing a node adds a step that follows the array. -/
theorem Replays.performed {first : Array Float} {run : Run} (index : Index) (node : Node)
    (h : Replays first run.trace.toList run.context.array) :
    Replays first (run.performed index node).trace.toList
      (run.performed index node).context.array := by
  have hstep := Replays.single (index.follows_perform run.context node)
  simpa using h.append hstep

/-- What a move records leads from the array in front of it to the array behind it. -/
theorem Replays.step {first : Array Float} {state : State} (index : Index)
    (stepLimit : Option Nat) (h : Replays first state.run.trace.toList state.run.context.array) :
    Replays first (state.step index stepLimit).run.trace.toList
      (state.step index stepLimit).run.context.array := by
  have hmove := State.move_step index stepLimit state
  have hfail : ∀ error, Replays first (state.run.fail error).trace.toList
      (state.run.fail error).context.array := by
    intro error
    exact h.record (Run.reports_failure state.run.context error) (by decide)
  generalize state.step index stepLimit = progress at hmove
  cases hmove with
  | limitReached => exact hfail _
  | nodeMissing => exact hfail _
  | finished => exact h.performed index _
  | onward => exact h.performed index _
  | pathEnded => exact (h.performed index _).record (Run.reports_pathEnded _ _) (by decide)
  | returned => exact (h.performed index _).record (Run.reports_bodyComplete _ _) (by decide)
  | loopLost => exact (h.performed index _).record (Run.reports_bodyComplete _ _) (by decide)

namespace Graph

variable {graph : Graph} {array : Array Float} {settings : Settings}

/-- The trace of a run can be played back, move by move. -/
theorem stateAt?_replays {moves : Nat} {state : State} :
    graph.stateAt? array settings moves = some state →
      Replays array state.run.trace.toList state.run.context.array := by
  apply stateAt?_invariant
  · intro start others _
    simp [initialState, initialContext, Replays]
  · intro state next h hstep
    have hnext := h.step graph.index settings.stepLimit
    rw [hstep] at hnext
    exact hnext

/-- Playing the trace of a run back leads from the initial array to the final one, and every picture
on the way is a permutation of the initial array. -/
theorem execute?_replays (graph : Graph) (array : Array Float) (settings : Settings) (moves : Nat)
    (outcome : Outcome) (houtcome : graph.execute? array settings moves = some outcome) :
    Replays array outcome.steps outcome.finalArray ∧
      (∀ step ∈ outcome.steps, step.values.Perm array.toList) ∧
      outcome.finalArray.toList.Perm array.toList := by
  have hreplays : Replays array outcome.steps outcome.finalArray := by
    rcases execute?_eq_some_iff.1 houtcome with
      ⟨-, rfl⟩ | ⟨before, -, last, run, hlast, hended, rfl⟩
    · simp [Run.outcome, Replays, initialContext]
    · have hrun := (stateAt?_replays hlast).step graph.index settings.stepLimit
      rw [hended] at hrun
      exact hrun
  exact ⟨hreplays, hreplays.perm⟩

/-- The four swaps take the array to and fro. -/
theorem execute?_replays_nestedSwaps :
    ∃ outcome, nestedSwaps.execute? #[2.0, 1.0] {} 15 = some outcome ∧
      (outcome.steps.filter Step.isSwap).map Step.values =
        [[1.0, 2.0], [2.0, 1.0], [1.0, 2.0], [2.0, 1.0]] ∧
      Replays #[2.0, 1.0] outcome.steps outcome.finalArray ∧
      (∀ step ∈ outcome.steps, step.values.Perm [2.0, 1.0]) ∧
      outcome.finalArray.toList.Perm [2.0, 1.0] := by
  have hshown : ((nestedSwaps.execute? #[2.0, 1.0] {} 15).map
      fun outcome => (outcome.steps.filter Step.isSwap).map Step.values) =
        some [[1.0, 2.0], [2.0, 1.0], [1.0, 2.0], [2.0, 1.0]] := by
    decide +kernel
  rcases Option.map_eq_some_iff.1 hshown with ⟨outcome, houtcome, hswaps⟩
  exact ⟨outcome, houtcome, hswaps, execute?_replays nestedSwaps #[2.0, 1.0] {} 15 outcome houtcome⟩

end Graph
end FlowTrace
