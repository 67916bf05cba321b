import FlowTrace.Execution.Effect
import FlowTrace.Proofs.Trace.Facts
import Mathlib.Data.List.TakeWhile

/-!
# What performing a node changes

Thirteen kinds of nodes share one context.  This file says for each part of it which kinds may touch
it, and what a loop does to the stack of loops:

* `LoopVisit` — the four things that coming to a loop can do;
* `Index.perform_reports` — every node reports an event of its kind;
* `Index.framed_perform` — every node leaves alone what is not of its kind.
-/

namespace FlowTrace

namespace LoopFrame

def entry (node : Node) (read : String → Value) : LoopFrame where
  node := node.id
  variableName := node.textOr "variable" "i"
  current := (read "start").asNumber
  bound := (read "end").asNumber
  iteration := 0

def next (frame : LoopFrame) : LoopFrame :=
  { frame with current := frame.current + 1.0, iteration := frame.iteration + 1 }

def bind (frame : LoopFrame) (context : Context) : Context :=
  context.setVariable frame.variableName (.number frame.current)

@[simp] theorem node_entry (node : Node) (read : String → Value) :
    (entry node read).node = node.id := rfl

@[simp] theorem node_next (frame : LoopFrame) : frame.next.node = frame.node := rfl

@[simp] theorem bound_next (frame : LoopFrame) : frame.next.bound = frame.bound := rfl

@[simp] theorem current_next (frame : LoopFrame) : frame.next.current = frame.current + 1.0 := rfl

@[simp] theorem variableName_next (frame : LoopFrame) :
    frame.next.variableName = frame.variableName := rfl

theorem valueOf?_bind_of_ne (frame : LoopFrame) (context : Context) {name : String}
    (hne : frame.variableName ≠ name) :
    (frame.bind context).valueOf? name = context.valueOf? name :=
  context.bindings.get?_insert_of_ne _ (Ne.symm hne)

end LoopFrame

namespace Context

@[simp] theorem context_effectVia (context : Context) (exit : String) (draft : Draft) :
    (context.effectVia exit draft).context = context := rfl

@[simp] theorem exit_effectVia (context : Context) (exit : String) (draft : Draft) :
    (context.effectVia exit draft).exit = some exit := rfl

@[simp] theorem draft_effectVia (context : Context) (exit : String) (draft : Draft) :
    (context.effectVia exit draft).draft = draft.noteAll context.loopFacts := rfl

@[simp] theorem context_effect (context : Context) (draft : Draft) :
    (context.effect draft).context = context := rfl

@[simp] theorem exit_effect (context : Context) (draft : Draft) :
    (context.effect draft).exit = some execOut := rfl

@[simp] theorem draft_effect (context : Context) (draft : Draft) :
    (context.effect draft).draft = draft.noteAll context.loopFacts := rfl

end Context

/-! ## Loops -/

/-- What coming to a loop can do: it is entered or skipped if no frame of it is on the stack, and
otherwise it goes on to its next iteration or is complete. -/
inductive LoopVisit (context : Context) (node : Node) (read : String → Value) : Effect → Prop where
  | entered :
      (∀ frame ∈ context.loops, frame.node ≠ node.id) →
      (LoopFrame.entry node read).current < (LoopFrame.entry node read).bound →
      LoopVisit context node read
        (((LoopFrame.entry node read).bind context).iterate (.entry node read) context.loops)
  | skipped :
      (∀ frame ∈ context.loops, frame.node ≠ node.id) →
      ¬ (LoopFrame.entry node read).current < (LoopFrame.entry node read).bound →
      LoopVisit context node read
        (((LoopFrame.entry node read).bind context).effectVia "complete"
          (Context.skippedDraft (.entry node read)))
  | iterated {inner outer : List LoopFrame} {frame : LoopFrame} :
      context.loops = inner ++ frame :: outer → frame.node = node.id →
      (∀ other ∈ inner, other.node ≠ node.id) → frame.next.current < frame.next.bound →
      LoopVisit context node read ((frame.next.bind context).iterate frame.next outer)
  | completed {inner outer : List LoopFrame} {frame : LoopFrame} :
      context.loops = inner ++ frame :: outer → frame.node = node.id →
      (∀ other ∈ inner, other.node ≠ node.id) → ¬ frame.next.current < frame.next.bound →
      LoopVisit context node read
        ({ frame.next.bind context with loops := outer }.effectVia "complete"
          (Context.finishedDraft frame.next))

/-- Performing a loop is one of the four visits. -/
theorem loopVisit_performLoop (context : Context) (node : Node) (read : String → Value) :
    LoopVisit context node read (context.performLoop node read) := by
  unfold Context.performLoop
  cases hdrop : context.loops.dropWhile (·.node ≠ node.id) with
  | nil =>
      have habsent : ∀ frame ∈ context.loops, frame.node ≠ node.id := by
        simpa [List.dropWhile_eq_nil_iff] using hdrop
      by_cases hlt : (LoopFrame.entry node read).current < (LoopFrame.entry node read).bound
      · have heffect : context.enterLoop node read =
            ((LoopFrame.entry node read).bind context).iterate (.entry node read) context.loops :=
          if_pos hlt
        rw [heffect]
        exact LoopVisit.entered habsent hlt
      · have heffect : context.enterLoop node read =
            ((LoopFrame.entry node read).bind context).effectVia "complete"
              (Context.skippedDraft (.entry node read)) :=
          if_neg hlt
        rw [heffect]
        exact LoopVisit.skipped habsent hlt
  | cons frame outer =>
      -- The frames in front of the one found are those of loops that are given up.
      have hsplit : context.loops =
          context.loops.takeWhile (·.node ≠ node.id) ++ frame :: outer := by
        rw [← hdrop, List.takeWhile_append_dropWhile]
      have hframe : frame.node = node.id := by
        have hhead := List.head?_dropWhile_not
          (fun other : LoopFrame => decide (other.node ≠ node.id)) context.loops
        rw [hdrop] at hhead
        simpa using hhead
      have hinner : ∀ other ∈ context.loops.takeWhile (·.node ≠ node.id), other.node ≠ node.id := by
        intro other hmem
        simpa using List.mem_takeWhile_imp hmem
      by_cases hlt : frame.next.current < frame.next.bound
      · have heffect : context.reenterLoop frame outer =
            (frame.next.bind context).iterate frame.next outer :=
          if_pos hlt
        simpa [heffect] using LoopVisit.iterated hsplit hframe hinner hlt
      · have heffect : context.reenterLoop frame outer =
            { frame.next.bind context with loops := outer }.effectVia "complete"
              (Context.finishedDraft frame.next) :=
          if_neg hlt
        simpa [heffect] using LoopVisit.completed hsplit hframe hinner hlt

namespace LoopVisit

variable {context : Context} {node : Node} {read : String → Value} {effect : Effect}

theorem exit_ne_none (h : LoopVisit context node read effect) : effect.exit ≠ none := by
  cases h <;> exact Option.some_ne_none _

/-- A loop changes nothing but the stack of loops and its variable. -/
theorem unchanged (h : LoopVisit context node read effect) :
    effect.context.array = context.array ∧ effect.context.reads = context.reads ∧
      effect.context.completed = context.completed ∧ effect.context.error = context.error := by
  cases h <;> exact ⟨rfl, rfl, rfl, rfl⟩

end LoopVisit

/-! ## Events -/

def NodeKind.events : NodeKind → List Event
  | .start => [.started]
  | .finish => [.completed]
  | .forLoop => [.loopIteration, .loopSkipped, .loopComplete]
  | .ifCondition => [.comparison]
  | .arrayAccess => [.arrayAccess]
  | .arrayCompare => [.arrayCompare]
  | .arraySwap => [.arraySwap]
  | .arrayHighlight => [.arrayHighlight]
  | .variableSet => [.variableSet]
  | .variableGet => [.variableGet]
  | .counterIncrement => [.counterIncrement]
  | .updateDescription => [.narration]
  | .pauseExecution => [.pause]

namespace Context

theorem reports_iterate (context : Context) (frame : LoopFrame) (outer : List LoopFrame) :
    (context.iterate frame outer).draft.Reports .loopIteration := by
  -- Whether or not an element is highlighted, the event is noted once.
  unfold iterate iterationDraft Draft.Reports
  simp only [draft_effectVia, Draft.get?_noteAll]
  split <;> simp

theorem reports_skipped (context : Context) (frame : LoopFrame) :
    (context.effectVia "complete" (skippedDraft frame)).draft.Reports .loopSkipped := by
  simp [Draft.Reports, skippedDraft]

theorem reports_finished (context : Context) (frame : LoopFrame) :
    (context.effectVia "complete" (finishedDraft frame)).draft.Reports .loopComplete := by
  simp [Draft.Reports, finishedDraft]

theorem reports_outOfBounds (context : Context) (node : Node) (action : Action) (event : Event)
    (indices : List Value) :
    (context.outOfBounds node action event indices).draft.Reports event := by
  simp [Draft.Reports, outOfBounds]

end Context

namespace Index

variable (index : Index) (context : Context) (node : Node)

theorem perform_of_forLoop (hkind : node.kind = .forLoop) :
    index.perform context node = context.performLoop node (index.input context node) := by
  simp [perform, hkind]

/-- Performing a loop is one of the four things that coming to it can do. -/
theorem loopVisit_perform (hkind : node.kind = .forLoop) :
    LoopVisit context node (index.input context node) (index.perform context node) := by
  rw [perform_of_forLoop index context node hkind]
  exact loopVisit_performLoop context node (index.input context node)

/-- Every node reports an event of its kind. -/
theorem perform_reports :
    ∃ event ∈ node.kind.events, (index.perform context node).draft.Reports event := by
  cases hkind : node.kind with
  | start =>
      refine ⟨.started, by decide, ?_⟩
      simp [perform, hkind, Context.performStart, Draft.Reports]
  | finish =>
      refine ⟨.completed, by decide, ?_⟩
      simp [perform, hkind, Context.performEnd, Draft.Reports]
  | forLoop =>
      have hvisit := loopVisit_perform index context node hkind
      generalize index.perform context node = effect at hvisit
      cases hvisit with
      | entered => exact ⟨.loopIteration, by decide, Context.reports_iterate _ _ _⟩
      | skipped => exact ⟨.loopSkipped, by decide, Context.reports_skipped _ _⟩
      | iterated => exact ⟨.loopIteration, by decide, Context.reports_iterate _ _ _⟩
      | completed => exact ⟨.loopComplete, by decide, Context.reports_finished _ _⟩
  | ifCondition =>
      refine ⟨.comparison, by decide, ?_⟩
      simp [perform, hkind, Context.performCondition, Draft.Reports]
  | arrayAccess =>
      refine ⟨.arrayAccess, by decide, ?_⟩
      simp only [perform, hkind, Context.performAccess, Draft.Reports]
      split
      · split <;> simp
      · simp
  | arrayCompare =>
      refine ⟨.arrayCompare, by decide, ?_⟩
      simp only [perform, hkind, Context.performCompare]
      split
      · simp [Draft.Reports]
      · exact Context.reports_outOfBounds _ _ _ _ _
  | arraySwap =>
      refine ⟨.arraySwap, by decide, ?_⟩
      simp only [perform, hkind, Context.performSwap]
      split
      · simp [Draft.Reports]
      · exact Context.reports_outOfBounds _ _ _ _ _
  | arrayHighlight =>
      refine ⟨.arrayHighlight, by decide, ?_⟩
      simp only [perform, hkind, Context.performHighlight]
      split
      · simp [Draft.Reports]
      · exact Context.reports_outOfBounds _ _ _ _ _
  | variableSet =>
      refine ⟨.variableSet, by decide, ?_⟩
      simp [perform, hkind, Context.performSet, Draft.Reports]
  | variableGet =>
      refine ⟨.variableGet, by decide, ?_⟩
      simp [perform, hkind, Context.performGet, Draft.Reports]
  | counterIncrement =>
      refine ⟨.counterIncrement, by decide, ?_⟩
      simp [perform, hkind, Context.performIncrement, Draft.Reports]
  | updateDescription =>
      refine ⟨.narration, by decide, ?_⟩
      simp [perform, hkind, Context.performNarration, Draft.Reports]
  | pauseExecution =>
      refine ⟨.pause, by decide, ?_⟩
      simp [perform, hkind, Context.performPause, Draft.Reports]

end Index

/-! ## What is left alone -/

/-- An effect keeps to the kind of its node: only a loop touches the stack of loops and is left by
its body, only a swap touches the array, only an end node completes the run and is left by no
output, and none breaks the run off. -/
structure Effect.Framed (node : Node) (context : Context) (effect : Effect) : Prop where
  loops : node.kind ≠ .forLoop → effect.context.loops = context.loops
  body : node.kind ≠ .forLoop → effect.exit ≠ some "body"
  array : node.kind ≠ .arraySwap → effect.context.array = context.array
  completed : node.kind ≠ .finish → effect.context.completed = context.completed
  error : effect.context.error = context.error
  exit : effect.exit = none ↔ node.kind = .finish

namespace Index

variable (index : Index) (context : Context) (node : Node)

theorem perform_of_finish (hkind : node.kind = .finish) :
    index.perform context node = context.performEnd := by
  simp [perform, hkind]

/-- Every node keeps to its kind. -/
theorem framed_perform : (index.perform context node).Framed node context := by
  -- Most kinds touch none of the parts and are left by an output that is no loop's body.
  have hquiet : ∀ (effect : Effect) (handle : String), node.kind ≠ .finish →
      effect.context.loops = context.loops → effect.context.array = context.array →
      effect.context.completed = context.completed → effect.context.error = context.error →
      effect.exit = some handle → handle ≠ "body" → effect.Framed node context := by
    intro effect handle hend hloops harray hcompleted herror hexit hbody
    refine ⟨fun _ => hloops, ?_, fun _ => harray, fun _ => hcompleted, herror, ?_⟩
    · intro _ hsome
      rw [hexit] at hsome
      exact hbody (Option.some.inj hsome)
    · simp [hexit, hend]
  have hout : execOut ≠ "body" := by decide
  cases hkind : node.kind with
  | forLoop =>
      have hvisit := loopVisit_perform index context node hkind
      refine ⟨absurd hkind, absurd hkind, fun _ => hvisit.unchanged.1,
        fun _ => hvisit.unchanged.2.2.1, hvisit.unchanged.2.2.2, ?_⟩
      simp [hkind, hvisit.exit_ne_none]
  | finish =>
      -- The one kind that is left by no output.
      rw [perform_of_finish index context node hkind]
      refine ⟨fun _ => rfl, ?_, fun _ => rfl, absurd hkind, rfl, ?_⟩
      · simp [Context.performEnd]
      · simp [hkind, Context.performEnd]
  | arraySwap =>
      simp only [perform, hkind, Context.performSwap]
      split
      · refine ⟨fun _ => rfl, ?_, absurd hkind, fun _ => rfl, rfl, ?_⟩
        · intro _ hsome
          exact hout (Option.some.inj hsome)
        · simp [hkind]
      · exact hquiet _ execOut (by simp [hkind]) rfl rfl rfl rfl rfl hout
  | ifCondition =>
      simp only [perform, hkind, Context.performCondition]
      refine hquiet _ _ (by simp [hkind]) rfl rfl rfl rfl rfl ?_
      split <;> decide
  | arrayAccess =>
      simp only [perform, hkind, Context.performAccess]
      split <;> exact hquiet _ execOut (by simp [hkind]) rfl rfl rfl rfl rfl hout
  | arrayCompare =>
      simp only [perform, hkind, Context.performCompare]
      split <;> exact hquiet _ execOut (by simp [hkind]) rfl rfl rfl rfl rfl hout
  | arrayHighlight =>
      simp only [perform, hkind, Context.performHighlight]
      split <;> exact hquiet _ execOut (by simp [hkind]) rfl rfl rfl rfl rfl hout
  | start | variableSet | variableGet | counterIncrement | updateDescription | pauseExecution =>
      simp only [perform, hkind]
      exact hquiet _ execOut (by simp [hkind]) rfl rfl rfl rfl rfl hout

/-- Only a loop, a set node and a counter write variables. -/
theorem bindings_perform (hloop : node.kind ≠ .forLoop) (hset : node.kind ≠ .variableSet)
    (hcounter : node.kind ≠ .counterIncrement) :
    (index.perform context node).context.bindings = context.bindings := by
  cases hkind : node.kind with
  | forLoop => exact absurd hkind hloop
  | variableSet => exact absurd hkind hset
  | counterIncrement => exact absurd hkind hcounter
  | arrayAccess =>
      simp only [perform, hkind, Context.performAccess]
      split <;> rfl
  | arrayCompare =>
      simp only [perform, hkind, Context.performCompare]
      split <;> rfl
  | arraySwap =>
      simp only [perform, hkind, Context.performSwap]
      split <;> rfl
  | arrayHighlight =>
      simp only [perform, hkind, Context.performHighlight]
      split <;> rfl
  | _ =>
      simp only [perform, hkind]
      rfl

/-- Only an array access touches the values last read. -/
theorem reads_perform (haccess : node.kind ≠ .arrayAccess) :
    (index.perform context node).context.reads = context.reads := by
  cases hkind : node.kind with
  | arrayAccess => exact absurd hkind haccess
  | forLoop => exact (loopVisit_perform index context node hkind).unchanged.2.1
  | arrayCompare =>
      simp only [perform, hkind, Context.performCompare]
      split <;> rfl
  | arraySwap =>
      simp only [perform, hkind, Context.performSwap]
      split <;> rfl
  | arrayHighlight =>
      simp only [perform, hkind, Context.performHighlight]
      split <;> rfl
  | _ =>
      simp only [perform, hkind]
      rfl

/-- A frame on the stack was there before the node was performed, or it is the one with which the
loop of the node is entered, or it takes the place of an earlier one in the next iteration. -/
theorem frame_of_mem_loops {frame : LoopFrame}
    (hmem : frame ∈ (index.perform context node).context.loops) :
    frame ∈ context.loops ∨
      (node.kind = .forLoop ∧ frame = .entry node (index.input context node)) ∨
      ∃ earlier ∈ context.loops, earlier.node = node.id ∧ frame = earlier.next := by
  by_cases hkind : node.kind = .forLoop
  · have hvisit := loopVisit_perform index context node hkind
    generalize index.perform context node = effect at hvisit hmem
    cases hvisit with
    | entered =>
        rcases List.mem_cons.1 hmem with hnew | hold
        · exact Or.inr (Or.inl ⟨hkind, hnew⟩)
        · exact Or.inl hold
    | skipped =>
        exact Or.inl hmem
    | @iterated inner outer own hsplit hown =>
        rcases List.mem_cons.1 hmem with hnew | hold
        · exact Or.inr (Or.inr ⟨own, by simp [hsplit], hown, hnew⟩)
        · exact Or.inl (by simp [hsplit, hold])
    | @completed inner outer own hsplit =>
        have hold : frame ∈ outer := hmem
        exact Or.inl (by simp [hsplit, hold])
  · rw [(framed_perform index context node).loops hkind] at hmem
    exact Or.inl hmem

end Index
end FlowTrace
