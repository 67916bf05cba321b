import FlowTrace.Execution.Context
import FlowTrace.Table.Lemmas
import FlowTrace.Trace.Draft

/-!
# What a recorded step says

A step is read through its facts, its values and its flags.  This file follows them from the draft
to the step: which fact is found after a draft has been written, that the facts about the innermost
loop stay clear of all others, and that the picture shows the array as it is.
-/

namespace FlowTrace

namespace Draft

/-! ## Facts of a draft -/

@[simp] theorem get?_new (action : Action) (event : Event) (description name : String) :
    (Draft.new action event description).metadata.get? name =
      if name = "event" then some (.string event.name) else none := by
  simp [Draft.new, Table.get?_insert]

@[simp] theorem get?_note (draft : Draft) (name other : String) (value : Json) :
    (draft.note name value).metadata.get? other =
      if other = name then some value else draft.metadata.get? other :=
  Table.get?_insert draft.metadata name other value

@[simp] theorem get?_noteAll (draft : Draft) (facts : Table Json) (name : String) :
    (draft.noteAll facts).metadata.get? name = (facts.get? name).or (draft.metadata.get? name) :=
  Table.get?_extend draft.metadata facts name

@[simp] theorem get?_flagError (draft : Draft) (message name : String) :
    (draft.flagError message).metadata.get? name =
      if name = "errorMessage" then some (.string message)
      else if name = "error" then some (.bool true)
      else draft.metadata.get? name := by
  simp [flagError]

@[simp] theorem metadata_highlight (draft : Draft) (position : Nat) (state : ElementState) :
    (draft.highlight position state).metadata = draft.metadata := by
  unfold highlight
  split <;> rfl

@[simp] theorem description_noteAll (draft : Draft) (facts : Table Json) :
    (draft.noteAll facts).description = draft.description := rfl

def Reports (draft : Draft) (event : Event) : Prop :=
  draft.metadata.get? "event" = some (.string event.name)

/-! ## From the draft to the step -/

@[simp] theorem metadata_snapshot (draft : Draft) (array : Array Float) :
    (draft.snapshot array).metadata = draft.metadata := rfl

@[simp] theorem description_snapshot (draft : Draft) (array : Array Float) :
    (draft.snapshot array).description = draft.description := rfl

/-- The picture shows the array as it is. -/
@[simp] theorem values_snapshot (draft : Draft) (array : Array Float) :
    (draft.snapshot array).values = array.toList := by
  apply List.ext_getElem?
  intro position
  simp [Step.values, snapshot, Function.comp_def]

end Draft

namespace Event

/-- An event is determined by its name. -/
theorem name_injective {a b : Event} : a.name = b.name → a = b := by
  intro h
  -- A name can be read back.
  have hname : ofName? a.name = ofName? b.name := by rw [h]
  rw [ofName?_name, ofName?_name] at hname
  exact Option.some.inj hname

end Event

namespace Step

/-- A step shows exactly the event that its draft reports. -/
theorem isEvent_snapshot_iff {draft : Draft} {reported event : Event} {array : Array Float}
    (hreports : draft.Reports reported) :
    (draft.snapshot array).isEvent event = true ↔ event = reported := by
  have hfact : draft.metadata.get? "event" = some (.string reported.name) := hreports
  have hshown : (draft.snapshot array).event? = some reported.name := by
    simp [event?, hfact, Json.string?]
  unfold isEvent
  rw [hshown, decide_eq_true_iff]
  constructor
  · intro h
    exact (Event.name_injective (Option.some.inj h)).symm
  · intro h
    rw [h]

/-- A step shows no event but the one that its draft reports. -/
theorem isEvent_snapshot_of_ne {draft : Draft} {reported event : Event} {array : Array Float}
    (hreports : draft.Reports reported) (hne : event ≠ reported) :
    (draft.snapshot array).isEvent event = false := by
  rw [Bool.eq_false_iff]
  intro hshown
  exact hne ((isEvent_snapshot_iff hreports).1 hshown)

/-- Where steps with one more behind them are split at a step, it is the one behind them, or they
are split at it themselves. -/
theorem split_concat {steps earlier later : List Step} {last step : Step}
    (h : steps ++ [last] = earlier ++ step :: later) :
    (later = [] ∧ steps = earlier ∧ last = step) ∨
      ∃ between, later = between ++ [last] ∧ steps = earlier ++ step :: between := by
  rcases List.eq_nil_or_concat later with rfl | ⟨between, final, rfl⟩
  · rcases List.append_inj' h rfl with ⟨hsteps, hlast⟩
    exact Or.inl ⟨rfl, hsteps, List.head_eq_of_cons_eq hlast⟩
  · have hjoined : steps ++ [last] = (earlier ++ step :: between) ++ [final] := by simpa using h
    rcases List.append_inj' hjoined rfl with ⟨hsteps, hlast⟩
    cases hlast
    exact Or.inr ⟨between, by simp, hsteps⟩

/-- A step shows one event only. -/
theorem eq_of_isEvent {step : Step} {first second : Event} (hfirst : step.isEvent first = true)
    (hsecond : step.isEvent second = true) : first = second := by
  have hnames : some first.name = some second.name :=
    (of_decide_eq_true hfirst).symm.trans (of_decide_eq_true hsecond)
  exact Event.name_injective (Option.some.inj hnames)

/-- A step is flagged as an error if and only if its draft is. -/
theorem isError_snapshot (draft : Draft) (array : Array Float) :
    (draft.snapshot array).isError = ((draft.metadata.get? "error").bind Json.bool?).getD false :=
  rfl

end Step

namespace Context

/-- The facts about the innermost loop bear three names only. -/
@[simp] theorem get?_loopFacts_of_ne (context : Context) {name : String}
    (hvariable : name ≠ "loopVariable") (hvalue : name ≠ "loopValue")
    (hiteration : name ≠ "loopIteration") : context.loopFacts.get? name = none := by
  unfold loopFacts
  split
  · rfl
  · have hnone : ∀ other : String, name ≠ other → (name == other) = false := by
      intro other hne
      simpa using hne
    simp [Table.get?_ofList, List.lookup_cons, hnone _ hvariable, hnone _ hvalue,
      hnone _ hiteration]

/-- The iteration that is told is that of the innermost loop, counted from one. -/
theorem get?_loopFacts_iteration {context : Context} {frame : LoopFrame} {outer : List LoopFrame}
    (hloops : context.loops = frame :: outer) :
    context.loopFacts.get? "loopIteration" = some (.ofNat (frame.iteration + 1)) := by
  simp [loopFacts, hloops, Table.get?_ofList]

end Context
end FlowTrace
