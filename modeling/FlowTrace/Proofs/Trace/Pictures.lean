import FlowTrace.Proofs.Execution.Effects
import FlowTrace.Proofs.Execution.Moves

/-!
# What the picture of a step shows

A draft is written by calls, and taking its picture freezes it against an array.  The marks of the
calls come out twice, as a list of positions and as the states of the elements; this file shows that
the two always agree.

* `Draft.Call` and `Draft.callAll` — the calls that write a draft;
* `Draft.MarkedBy` and `Draft.markedBy_callAll` — the marks of a draft are the first marks of its
  calls, in the order of the calls;
* `Step.Shows` — what a picture has to show of an array and of calls;
* `Draft.Drawn` — a draft that calls have written, none of which marks a position as plain;
* `Run.Pictured` and `Run.Pictured.step` — all steps of a run are pictures of such drafts;
* `pictures_agree` — pictures show the array and the marks, and in every step of every run the
  positions listed are those whose elements are not plain.
-/

namespace FlowTrace

namespace Draft

/-! ## Calls -/

/-- A call that writes on a draft. -/
inductive Call
  | highlight (position : Nat) (state : ElementState)
  | note (name : String) (value : Json)
  | flagError (message : String)
  | noteAll (facts : Table Json)

namespace Call

/-- The state in which a call marks a position, if it does. -/
def stateOn? (position : Nat) : Call → Option ElementState
  | highlight other state => if other = position then some state else none
  | note _ _ | flagError _ | noteAll _ => none

def marks (position : Nat) (call : Call) : Bool :=
  (call.stateOn? position).isSome

theorem stateOn?_eq_some_iff {position : Nat} {state : ElementState} {call : Call} :
    call.stateOn? position = some state ↔ call = highlight position state := by
  cases call with
  | highlight other mark => by_cases h : other = position <;> simp [stateOn?, h]
  | note | flagError | noteAll => simp [stateOn?]

theorem marks_iff {position : Nat} {call : Call} :
    call.marks position = true ↔ ∃ state, call = highlight position state := by
  simp [marks, Option.isSome_iff_exists, stateOn?_eq_some_iff]

/-- A position has a first mark if and only if some call marks it. -/
theorem isSome_findSome?_iff {calls : List Call} {position : Nat} :
    (calls.findSome? (·.stateOn? position)).isSome = true ↔
      ∃ state, highlight position state ∈ calls := by
  rw [List.findSome?_isSome_iff]
  constructor
  · rintro ⟨call, hmem, hmarks⟩
    rcases marks_iff.1 hmarks with ⟨state, rfl⟩
    exact ⟨state, hmem⟩
  · rintro ⟨state, hmem⟩
    exact ⟨_, hmem, marks_iff.2 ⟨state, rfl⟩⟩

end Call

def call (draft : Draft) : Call → Draft
  | .highlight position state => draft.highlight position state
  | .note name value => draft.note name value
  | .flagError message => draft.flagError message
  | .noteAll facts => draft.noteAll facts

def callAll (draft : Draft) (calls : List Call) : Draft :=
  calls.foldl call draft

/-! ## Marks -/

/-- A position that is marked already keeps its mark. -/
theorem highlight_of_mem {draft : Draft} {position : Nat}
    (hheld : position ∈ draft.highlights.map (·.1)) (state : ElementState) :
    draft.highlight position state = draft := by
  have hany : draft.highlights.any (·.1 = position) = true := by simpa using hheld
  rw [highlight, if_pos hany]

theorem highlight_of_not_mem {draft : Draft} {position : Nat}
    (hnew : position ∉ draft.highlights.map (·.1)) (state : ElementState) :
    draft.highlight position state =
      { draft with highlights := draft.highlights ++ [(position, state)] } := by
  have hany : ¬ draft.highlights.any (·.1 = position) = true := by simpa using hnew
  rw [highlight, if_neg hany]

/-- The marks of a draft are those of calls: a position is held with the state of the first call
that marks it, and the positions stand in the order of these first calls. -/
structure MarkedBy (draft : Draft) (calls : List Call) : Prop where
  state : ∀ position, (draft.highlights.find? (·.1 = position)).map (·.2) =
    calls.findSome? (·.stateOn? position)
  order : (draft.highlights.map (·.1)).Pairwise fun i j =>
    calls.findIdx (·.marks i) < calls.findIdx (·.marks j)

namespace MarkedBy

variable {draft : Draft} {calls : List Call}

theorem mem_iff (h : draft.MarkedBy calls) {position : Nat} :
    position ∈ draft.highlights.map (·.1) ↔
      (calls.findSome? (·.stateOn? position)).isSome = true := by
  rw [← h.state]
  simp

theorem exists_call (h : draft.MarkedBy calls) {position : Nat}
    (hheld : position ∈ draft.highlights.map (·.1)) : ∃ call ∈ calls, call.marks position = true :=
  List.findSome?_isSome_iff.1 (h.mem_iff.1 hheld)

/-- What comes behind the first call that marks a position does not change which it is. -/
theorem findIdx_append (h : draft.MarkedBy calls) {position : Nat}
    (hheld : position ∈ draft.highlights.map (·.1)) (later : List Call) :
    (calls ++ later).findIdx (·.marks position) = calls.findIdx (·.marks position) := by
  rw [List.findIdx_append, if_pos (List.findIdx_lt_length.2 (h.exists_call hheld))]

/-- Later calls do not change the order of first calls. -/
theorem order_append (h : draft.MarkedBy calls) (later : List Call) :
    (draft.highlights.map (·.1)).Pairwise fun i j =>
      (calls ++ later).findIdx (·.marks i) < (calls ++ later).findIdx (·.marks j) := by
  refine h.order.imp_of_mem ?_
  intro i j hi hj hlt
  rw [h.findIdx_append hi, h.findIdx_append hj]
  exact hlt

/-- A call leaves the marks alone if it marks no position or one that is marked already. -/
theorem unchanged {next : Draft} {last : Call} (h : draft.MarkedBy calls)
    (hsame : next.highlights = draft.highlights)
    (hhidden : ∀ position, last.marks position = true → position ∈ draft.highlights.map (·.1)) :
    next.MarkedBy (calls ++ [last]) := by
  refine ⟨?_, hsame ▸ h.order_append [last]⟩
  intro position
  rw [hsame, h.state, List.findSome?_append]
  cases hfirst : calls.findSome? (·.stateOn? position) with
  | some state => rfl
  | none =>
      cases hlast : last.stateOn? position with
      | none => simp [hlast]
      | some state =>
          have hheld := h.mem_iff.1 (hhidden position (by simp [Call.marks, hlast]))
          simp [hfirst] at hheld

/-- A call that marks a new position puts it behind the others. -/
theorem marked (h : draft.MarkedBy calls) {position : Nat}
    (hnew : position ∉ draft.highlights.map (·.1)) (state : ElementState) :
    { draft with highlights := draft.highlights ++ [(position, state)] }.MarkedBy
      (calls ++ [Call.highlight position state]) := by
  constructor
  · intro other
    rw [List.find?_append, List.findSome?_append, ← h.state]
    cases draft.highlights.find? (·.1 = other) with
    | some mark => rfl
    | none => by_cases hother : position = other <;> simp [Call.stateOn?, hother]
  · -- The new position is first marked by the last call, all others by calls before it.
    have hlast : (calls ++ [Call.highlight position state]).findIdx (·.marks position) =
        calls.length := by
      have hunmarked : ¬ calls.findIdx (·.marks position) < calls.length := by
        intro hlt
        exact hnew (h.mem_iff.2 (List.findSome?_isSome_iff.2 (List.findIdx_lt_length.1 hlt)))
      rw [List.findIdx_append, if_neg hunmarked]
      simp [Call.marks, Call.stateOn?, List.findIdx_cons]
    rw [List.map_append, List.pairwise_append]
    refine ⟨h.order_append _, List.pairwise_singleton _ _, ?_⟩
    intro i hi j hj
    rw [List.mem_singleton.1 hj, hlast, h.findIdx_append hi]
    exact List.findIdx_lt_length.2 (h.exists_call hi)

/-- One more call, whatever it is. -/
theorem call (h : draft.MarkedBy calls) (last : Call) :
    (draft.call last).MarkedBy (calls ++ [last]) := by
  -- Three of the four calls mark nothing.
  have hquiet : ∀ {next : Draft}, next.highlights = draft.highlights →
      (∀ position, last.stateOn? position = none) → next.MarkedBy (calls ++ [last]) := by
    intro next hsame hnone
    refine h.unchanged hsame ?_
    intro position hmarks
    simp [Call.marks, hnone] at hmarks
  cases last with
  | highlight position state =>
      by_cases hheld : position ∈ draft.highlights.map (·.1)
      · refine h.unchanged (congrArg highlights (highlight_of_mem hheld state)) ?_
        intro other hmarks
        rcases Call.marks_iff.1 hmarks with ⟨mark, hcall⟩
        cases hcall
        exact hheld
      · rw [Draft.call, highlight_of_not_mem hheld]
        exact h.marked hheld state
  | note => exact hquiet rfl fun _ => rfl
  | flagError => exact hquiet rfl fun _ => rfl
  | noteAll => exact hquiet rfl fun _ => rfl

/-- Further calls add their marks behind those of the calls before. -/
theorem callAll (h : draft.MarkedBy calls) (later : List Call) :
    (draft.callAll later).MarkedBy (calls ++ later) := by
  induction later generalizing draft calls with
  | nil => simpa [Draft.callAll] using h
  | cons last rest ih =>
      have hrest := ih (h.call last)
      rw [List.append_assoc] at hrest
      exact hrest

end MarkedBy

/-- The calls that have written a draft determine its marks. -/
theorem markedBy_callAll (action : Action) (event : Event) (description : String)
    (calls : List Call) : ((Draft.new action event description).callAll calls).MarkedBy calls := by
  have hblank : (Draft.new action event description).MarkedBy [] :=
    ⟨fun _ => rfl, List.Pairwise.nil⟩
  exact hblank.callAll calls

end Draft

/-! ## Pictures -/

/-- A step shows an array with the marks of calls.  It has one element for each place of the array,
with that place, the value there and the state of the first call that marks the place, or the plain
state if none does.  It lists the places in the array that are marked, each of them once, in the
order of the first calls that mark them. -/
structure Step.Shows (step : Step) (array : Array Float) (calls : List Draft.Call) : Prop where
  size : step.elements.length = array.size
  element : ∀ position (hposition : position < array.size), step.elements[position]? = some
    { value := array[position]
      state := (calls.findSome? (·.stateOn? position)).getD .plain
      position }
  listed : ∀ position, position ∈ step.highlighted ↔
    position < array.size ∧ ∃ state, Draft.Call.highlight position state ∈ calls
  nodup : step.highlighted.Nodup
  order : step.highlighted.Pairwise fun i j =>
    calls.findIdx (·.marks i) < calls.findIdx (·.marks j)

/-- A step lists exactly the places whose elements are not plain. -/
def Step.MarksAgree (step : Step) : Prop :=
  ∀ position, position ∈ step.highlighted ↔
    ∃ element, step.elements[position]? = some element ∧ element.state ≠ .plain

/-- The picture of a draft shows the marks of the calls that have written it. -/
theorem Draft.MarkedBy.shows {draft : Draft} {calls : List Call} (h : draft.MarkedBy calls)
    (array : Array Float) : (draft.snapshot array).Shows array calls := by
  have hlisted : (draft.snapshot array).highlighted =
      (draft.highlights.map (·.1)).filter (· < array.size) := rfl
  have horder : (draft.snapshot array).highlighted.Pairwise fun i j =>
      calls.findIdx (·.marks i) < calls.findIdx (·.marks j) := by
    rw [hlisted]
    exact h.order.filter _
  refine ⟨by simp [snapshot], ?_, ?_, ?_, horder⟩
  · intro position hposition
    simp [snapshot, stateAt, h.state, hposition]
  · intro position
    rw [hlisted, List.mem_filter, h.mem_iff, Call.isSome_findSome?_iff, and_comm]
    simp
  · -- A position that stood twice would come before itself.
    refine horder.imp ?_
    rintro i j hlt rfl
    exact Nat.lt_irrefl _ hlt

/-- Where no call marks a place as plain, the list and the states agree. -/
theorem Step.Shows.marksAgree {step : Step} {array : Array Float} {calls : List Draft.Call}
    (h : step.Shows array calls) (hplain : ∀ position, .highlight position .plain ∉ calls) :
    step.MarksAgree := by
  intro position
  rw [h.listed, ← Draft.Call.isSome_findSome?_iff]
  constructor
  · rintro ⟨hposition, hmarked⟩
    refine ⟨_, h.element position hposition, ?_⟩
    rcases Option.isSome_iff_exists.1 hmarked with ⟨state, hstate⟩
    rcases List.exists_of_findSome?_eq_some hstate with ⟨call, hmem, hcall⟩
    cases Draft.Call.stateOn?_eq_some_iff.1 hcall
    rw [hstate]
    rintro rfl
    exact hplain position hmem
  · rintro ⟨element, helement, hstate⟩
    have hposition : position < array.size := by
      rw [← h.size]
      exact (List.getElem?_eq_some_iff.1 helement).1
    refine ⟨hposition, ?_⟩
    cases (h.element position hposition).symm.trans helement
    rw [← Option.ne_none_iff_isSome]
    intro hnone
    exact hstate (by rw [hnone]; rfl)

/-! ## Drafts of a run -/

namespace Draft

/-- Calls have written the draft, and none of them marks a position as plain. -/
def Drawn (draft : Draft) : Prop :=
  ∃ action event description calls,
    draft = (Draft.new action event description).callAll calls ∧
      ∀ position, .highlight position .plain ∉ calls

theorem drawn_new (action : Action) (event : Event) (description : String) :
    (Draft.new action event description).Drawn :=
  ⟨action, event, description, [], rfl, fun _ => List.not_mem_nil⟩

variable {draft : Draft}

theorem Drawn.call (h : draft.Drawn) (last : Call)
    (hlast : ∀ position, last ≠ .highlight position .plain) : (draft.call last).Drawn := by
  rcases h with ⟨action, event, description, calls, rfl, hplain⟩
  refine ⟨action, event, description, calls ++ [last], ?_, ?_⟩
  · simp [callAll]
  · intro position hmem
    rcases List.mem_append.1 hmem with hearlier | hend
    · exact hplain position hearlier
    · exact hlast position (List.mem_singleton.1 hend).symm

theorem Drawn.highlight (h : draft.Drawn) (position : Nat) {state : ElementState}
    (hstate : state ≠ .plain) : (draft.highlight position state).Drawn := by
  refine h.call (.highlight position state) ?_
  intro other hsame
  cases hsame
  exact hstate rfl

theorem Drawn.note (h : draft.Drawn) (name : String) (value : Json) :
    (draft.note name value).Drawn :=
  h.call (.note name value) fun _ => by simp

theorem Drawn.flagError (h : draft.Drawn) (message : String) : (draft.flagError message).Drawn :=
  h.call (.flagError message) fun _ => by simp

theorem Drawn.noteAll (h : draft.Drawn) (facts : Table Json) : (draft.noteAll facts).Drawn :=
  h.call (.noteAll facts) fun _ => by simp

/-- In the picture of such a draft the list and the states agree. -/
theorem Drawn.marksAgree (h : draft.Drawn) (array : Array Float) :
    (draft.snapshot array).MarksAgree := by
  rcases h with ⟨action, event, description, calls, rfl, hplain⟩
  exact ((markedBy_callAll action event description calls).shows array).marksAgree hplain

end Draft

namespace Context

/-- The step that opens an iteration is drawn by calls. -/
theorem drawn_iterate (context : Context) (frame : LoopFrame) (outer : List LoopFrame) :
    (context.iterate frame outer).draft.Drawn := by
  -- An element is marked only if the loop stands at one.
  unfold iterate iterationDraft
  simp only [draft_effectVia]
  split
  · exact Draft.drawn_new .. |>.highlight _ (by decide) |>.note .. |>.note .. |>.noteAll _
  · exact Draft.drawn_new .. |>.note .. |>.note .. |>.noteAll _

theorem drawn_outOfBounds (context : Context) (node : Node) (action : Action) (event : Event)
    (indices : List Value) : (context.outOfBounds node action event indices).draft.Drawn :=
  Draft.drawn_new .. |>.flagError _ |>.note .. |>.note .. |>.noteAll _

end Context

theorem LoopVisit.drawn {context : Context} {node : Node} {read : String → Value}
    {effect : Effect} (h : LoopVisit context node read effect) : effect.draft.Drawn := by
  cases h with
  | entered => exact Context.drawn_iterate _ _ _
  | skipped => exact Draft.drawn_new .. |>.note .. |>.note .. |>.note .. |>.note .. |>.noteAll _
  | iterated => exact Context.drawn_iterate _ _ _
  | completed => exact Draft.drawn_new .. |>.note .. |>.note .. |>.noteAll _

/-- Every node draws its step, and marks no element as plain. -/
theorem Index.drawn_perform (index : Index) (context : Context) (node : Node) :
    (index.perform context node).draft.Drawn := by
  -- Each kind makes its own calls; the states that it marks with are named in them.
  cases hkind : node.kind with
  | forLoop => exact (index.loopVisit_perform context node hkind).drawn
  | arrayAccess =>
      simp only [perform, hkind, Context.performAccess]
      split
      · split
        · exact Draft.drawn_new .. |>.note .. |>.note .. |>.highlight _ (by decide) |>.noteAll _
        · exact Draft.drawn_new .. |>.note .. |>.note .. |>.noteAll _
      · exact Draft.drawn_new .. |>.flagError _ |>.note .. |>.note .. |>.noteAll _
  | arrayCompare =>
      simp only [perform, hkind, Context.performCompare]
      split
      · exact Draft.drawn_new .. |>.highlight _ (by decide) |>.highlight _ (by decide)
          |>.note .. |>.note .. |>.note .. |>.note .. |>.noteAll _
      · exact context.drawn_outOfBounds ..
  | arraySwap =>
      simp only [perform, hkind, Context.performSwap]
      split
      · exact Draft.drawn_new .. |>.highlight _ (by decide) |>.highlight _ (by decide)
          |>.note .. |>.note .. |>.noteAll _
      · exact context.drawn_outOfBounds ..
  | arrayHighlight =>
      simp only [perform, hkind, Context.performHighlight]
      split
      · exact Draft.drawn_new .. |>.highlight _ (by decide) |>.note .. |>.note .. |>.noteAll _
      · exact context.drawn_outOfBounds ..
  | start =>
      simp only [perform, hkind]
      exact Draft.drawn_new .. |>.note ..
  | finish =>
      simp only [perform, hkind]
      exact Draft.drawn_new .. |>.note .. |>.note ..
  | ifCondition =>
      simp only [perform, hkind]
      exact Draft.drawn_new .. |>.note .. |>.note .. |>.note .. |>.note .. |>.noteAll _
  | variableSet =>
      simp only [perform, hkind]
      exact Draft.drawn_new .. |>.note .. |>.note .. |>.note .. |>.noteAll _
  | variableGet | counterIncrement =>
      simp only [perform, hkind]
      exact Draft.drawn_new .. |>.note .. |>.note .. |>.noteAll _
  | updateDescription =>
      simp only [perform, hkind]
      exact Draft.drawn_new .. |>.noteAll _
  | pauseExecution =>
      simp only [perform, hkind]
      exact Draft.drawn_new .. |>.note .. |>.noteAll _

namespace Run

theorem drawn_bodyComplete (context : Context) (frame : LoopFrame) :
    (bodyCompleteDraft context frame).Drawn :=
  Draft.drawn_new .. |>.noteAll _ |>.note ..

theorem drawn_pathEnded (node : Node) (handle : String) : (pathEndedDraft node handle).Drawn :=
  Draft.drawn_new .. |>.note .. |>.note ..

theorem drawn_failure (context : Context) (error : RunError) :
    (failureDraft context error).Drawn :=
  Draft.drawn_new .. |>.flagError _ |>.noteAll _

/-- All steps of a run are pictures of drafts that were drawn. -/
def Pictured (run : Run) : Prop :=
  ∀ step ∈ run.trace, ∃ (draft : Draft) (array : Array Float),
    draft.Drawn ∧ step = draft.snapshot array

namespace Pictured

variable {run : Run} {draft : Draft}

theorem push {context : Context} {array : Array Float} (h : run.Pictured) (hdrawn : draft.Drawn) :
    Pictured { context, trace := run.trace.push (draft.snapshot array) } := by
  intro step hmem
  rcases Array.mem_push.1 hmem with hold | rfl
  · exact h step hold
  · exact ⟨draft, array, hdrawn, rfl⟩

theorem record (h : run.Pictured) (hdrawn : draft.Drawn) : (run.record draft).Pictured :=
  h.push hdrawn

theorem fail (h : run.Pictured) (error : RunError) : (run.fail error).Pictured :=
  h.push (drawn_failure run.context error)

theorem performed (h : run.Pictured) (index : Index) (node : Node) :
    (run.performed index node).Pictured :=
  h.push (index.drawn_perform run.context node)

/-- A move records pictures of drafts that were drawn. -/
theorem step {state : State} (h : state.run.Pictured) (index : Index) (stepLimit : Option Nat) :
    (state.step index stepLimit).run.Pictured := by
  have hmove := State.move_step index stepLimit state
  generalize state.step index stepLimit = progress at hmove
  cases hmove with
  | limitReached => exact h.fail _
  | nodeMissing => exact h.fail _
  | finished => exact h.performed index _
  | onward => exact h.performed index _
  | pathEnded => exact (h.performed index _).record (drawn_pathEnded _ _)
  | returned => exact (h.performed index _).record (drawn_bodyComplete _ _)
  | loopLost => exact (h.performed index _).record (drawn_bodyComplete _ _)

/-- Every picture lists exactly the places that it marks. -/
theorem marksAgree (h : run.Pictured) : ∀ step ∈ run.trace, step.MarksAgree := by
  intro step hmem
  rcases h step hmem with ⟨draft, array, hdrawn, rfl⟩
  exact hdrawn.marksAgree array

end Pictured
end Run

/-- All steps of a run are pictures of drafts that were drawn. -/
theorem Graph.runAfter?_pictured {graph : Graph} {array : Array Float} {settings : Settings}
    {moves : Nat} {run : Run} : graph.runAfter? array settings moves = some run → run.Pictured := by
  apply runAfter?_invariant
  · intro step hmem
    simp at hmem
  · intro state h
    exact h.step graph.index settings.stepLimit

/-- Whatever calls have written a draft, the step recorded shows the array with their marks.  So in
every step of every run, ended or not, the places listed are those whose elements are not plain. -/
theorem pictures_agree :
    (∀ (trace : Trace) (array : Array Float) (action : Action) (event : Event)
      (description : String) (calls : List Draft.Call),
      ∃ step, trace.record array ((Draft.new action event description).callAll calls) =
        trace.push step ∧ step.Shows array calls) ∧
    (∀ (graph : Graph) (array : Array Float) (settings : Settings) (moves : Nat) (run : Run),
      graph.runAfter? array settings moves = some run → ∀ step ∈ run.trace, step.MarksAgree) ∧
    ∀ (graph : Graph) (array : Array Float) (settings : Settings) (moves : Nat) (outcome : Outcome),
      graph.execute? array settings moves = some outcome →
        ∀ step ∈ outcome.steps, step.MarksAgree := by
  refine ⟨?_, ?_, ?_⟩
  · intro trace array action event description calls
    exact ⟨_, rfl, (Draft.markedBy_callAll action event description calls).shows array⟩
  · intro graph array settings moves run hrun
    exact (Graph.runAfter?_pictured hrun).marksAgree
  · intro graph array settings moves outcome houtcome step hmem
    rcases Graph.exists_runAfter?_of_execute? houtcome with ⟨-, rfl⟩ | ⟨count, run, hrun, rfl⟩
    · simp [Run.outcome] at hmem
    · exact (Graph.runAfter?_pictured hrun).marksAgree step (Array.mem_def.2 hmem)

/-- A comparison of an element with itself, and a swap with an element that is not there. -/
def Graph.lonelyPlaces : Graph where
  nodes :=
    [Node.new "begin" .start,
      (Node.new "same" .arrayCompare).withParameter "i" (.int 1),
      (Node.new "beyond" .arraySwap).withParameter "j" (.int 7),
      Node.new "finish" .finish]
  connections :=
    [⟨⟨"begin", execOut, "same", execIn⟩, "1"⟩,
      ⟨⟨"same", execOut, "beyond", execIn⟩, "2"⟩,
      ⟨⟨"beyond", execOut, "finish", execIn⟩, "3"⟩]

/-- The element compared with itself is listed once, and nothing else is. -/
theorem pictures_agree_lonelyPlaces :
    ∃ outcome, Graph.lonelyPlaces.execute? #[5.0, 3.0] {} 5 = some outcome ∧
      outcome.steps.map Step.highlighted = [[], [1], [], []] ∧
      ∀ step ∈ outcome.steps, step.MarksAgree := by
  have hlisted : (Graph.lonelyPlaces.execute? #[5.0, 3.0] {} 5).map (fun outcome =>
      outcome.steps.map Step.highlighted) = some [[], [1], [], []] := by
    decide +kernel
  rcases Option.map_eq_some_iff.1 hlisted with ⟨outcome, houtcome, hsteps⟩
  exact ⟨outcome, houtcome, hsteps, pictures_agree.2.2 _ _ _ _ outcome houtcome⟩

end FlowTrace
