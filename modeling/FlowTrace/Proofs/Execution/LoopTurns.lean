import FlowTrace.Proofs.Execution.KeptReads
import FlowTrace.Proofs.Execution.Termination
import FlowTrace.Proofs.Trace.Reentry

/-!
# The turns of a loop

A loop has no state but the frame that it leaves on the stack.  Between two of its turns anything
may happen: other loops come and go, and the variable of the loop and whatever its bounds were read
from are written.  As long as the frame stays on the stack, none of that matters: the frame counts
the turns, and its values are those of the first turn counted up.

* `Node.frameAfter` — the frame of a loop after a number of iterations;
* `Effect.IsTurn` — what a loop does at a turn with a frame;
* `Index.isTurn_perform` — a loop has its turn with the successor of its frame on the stack;
* `Graph.Rests` and `Graph.Turn` — the turns of one activation, counted from zero;
* `Graph.Rests.frame` — between two turns nothing touches the frame;
* `Graph.activations_count` — every turn belongs to one activation and follows its count.
-/

namespace FlowTrace

/-! ## Frames -/

def Node.frameAfter (loop : Node) (start bound : Float) (number : Nat) : LoopFrame where
  node := loop.id
  variableName := loop.textOr "variable" "i"
  current := valueAfter start number
  bound
  iteration := number

@[simp] theorem Node.next_frameAfter (loop : Node) (start bound : Float) (number : Nat) :
    (loop.frameAfter start bound number).next = loop.frameAfter start bound (number + 1) := rfl

/-- In a stack in order a loop has at most one frame. -/
theorem SoundStack.loopOf?_eq_some_iff {index : Index} {context : Context} {id : NodeId}
    {frame : LoopFrame} (h : SoundStack index context.loops) :
    context.loopOf? id = some frame ↔ frame ∈ context.loops ∧ frame.node = id := by
  constructor
  · intro hfound
    exact ⟨List.mem_of_find?_eq_some hfound, by simpa using List.find?_some hfound⟩
  · rintro ⟨hmem, hid⟩
    cases hfound : context.loopOf? id with
    | none =>
        have hnone := List.find?_eq_none.1 hfound frame hmem
        simp [hid] at hnone
    | some other =>
        have hother : other.node = id := by simpa using List.find?_some hfound
        have hsame := List.inj_on_of_nodup_map h.distinct
          (List.mem_of_find?_eq_some hfound) hmem (hother.trans hid.symm)
        rw [hsame]

theorem Context.loopOf?_eq_none_iff {context : Context} {id : NodeId} :
    context.loopOf? id = none ↔ ∀ frame ∈ context.loops, frame.node ≠ id := by
  simp [loopOf?, List.find?_eq_none]

/-! ## One turn -/

/-- What a loop does at a turn with a frame.  Its variable is bound to the value of the frame.
Below the bound the turn opens an iteration: the frame is on top of the stack and execution goes on
by the body.  Otherwise no frame of the loop is left, execution goes on behind it, and the step
tells the number of its iterations. -/
structure Effect.IsTurn (effect : Effect) (frame : LoopFrame) : Prop where
  binds : effect.context.valueOf? frame.variableName = some (.number frame.current)
  opens : frame.current < frame.bound →
    effect.exit = some "body" ∧ effect.context.loops.head? = some frame ∧
      (effect.draft.snapshot effect.context.array).MarksIteration .loopIteration frame.node
        (frame.iteration + 1)
  closes : ¬ frame.current < frame.bound →
    effect.exit = some "complete" ∧ effect.context.loopOf? frame.node = none ∧
      if frame.iteration = 0 then
        (effect.draft.snapshot effect.context.array).ClosesLoop .loopSkipped 0
      else
        (effect.draft.snapshot effect.context.array).ClosesLoop .loopComplete frame.iteration

/-- The frame with which a loop has its turn: the successor of its frame on the stack, or the one
with which it is entered. -/
def Index.turnFrame (index : Index) (context : Context) (loop : Node) : LoopFrame :=
  match context.loopOf? loop.id with
  | some earlier => earlier.next
  | none => .entry loop (index.input context loop)

namespace Index

variable {index : Index} {context : Context} {loop : Node}

/-- A loop with a frame on the stack has its turn with the next one. -/
theorem turnFrame_of_framed {earlier : LoopFrame}
    (hfound : context.loopOf? loop.id = some earlier) :
    index.turnFrame context loop = earlier.next := by
  simp only [turnFrame, hfound]

/-- A loop without a frame on the stack has its turn with the frame it is entered with. -/
theorem turnFrame_of_unframed (hnone : context.loopOf? loop.id = none) :
    index.turnFrame context loop = .entry loop (index.input context loop) := by
  simp only [turnFrame, hnone]

theorem node_turnFrame (index : Index) (context : Context) (loop : Node) :
    (index.turnFrame context loop).node = loop.id := by
  cases hfound : context.loopOf? loop.id with
  | none =>
      rw [turnFrame_of_unframed hfound]
      rfl
  | some earlier =>
      rw [turnFrame_of_framed hfound]
      simpa using List.find?_some hfound

end Index

theorem Context.closesLoop_skipped (context : Context) (frame : LoopFrame) (array : Array Float) :
    ((context.effectVia "complete" (skippedDraft frame)).draft.snapshot array).ClosesLoop
      .loopSkipped 0 := by
  refine ⟨?_, ?_⟩
  · exact (Step.isEvent_snapshot_iff (context.reports_skipped frame)).2 rfl
  · simp [skippedDraft]

/-- Performing a loop on a sound stack is a turn with the frame that comes next. -/
theorem Index.isTurn_perform {index : Index} {context : Context} {loop : Node}
    (hkind : loop.kind = .forLoop) (hstack : SoundStack index context.loops) :
    (index.perform context loop).IsTurn (index.turnFrame context loop) := by
  have hvisit := index.loopVisit_perform context loop hkind
  -- A loop that comes back finds the only frame that it has.
  have hown : ∀ {inner outer : List LoopFrame} {frame : LoopFrame},
      context.loops = inner ++ frame :: outer → frame.node = loop.id →
      index.turnFrame context loop = frame.next := by
    intro inner outer frame hsplit hid
    have hfound : context.loopOf? loop.id = some frame :=
      hstack.loopOf?_eq_some_iff.2 ⟨by simp [hsplit], hid⟩
    exact turnFrame_of_framed hfound
  have hnew : (∀ frame ∈ context.loops, frame.node ≠ loop.id) →
      index.turnFrame context loop = .entry loop (index.input context loop) := fun hfresh =>
    turnFrame_of_unframed (Context.loopOf?_eq_none_iff.2 hfresh)
  generalize index.perform context loop = effect at hvisit
  cases hvisit with
  | entered hfresh hlt =>
      rw [hnew hfresh]
      exact ⟨Table.get?_insert_self _ _ _,
        fun _ => ⟨rfl, rfl, Context.marksIteration_iterate _ _ _ _⟩, absurd hlt⟩
  | skipped hfresh hle =>
      rw [hnew hfresh]
      exact ⟨Table.get?_insert_self _ _ _, fun hlt => absurd hlt hle,
        fun _ => ⟨rfl, Context.loopOf?_eq_none_iff.2 hfresh, Context.closesLoop_skipped _ _ _⟩⟩
  | iterated hsplit hid _ hlt =>
      rw [hown hsplit hid]
      refine ⟨Table.get?_insert_self _ _ _, fun _ => ⟨rfl, rfl, ?_⟩, absurd hlt⟩
      exact Context.marksIteration_iterate _ _ _ _
  | @completed inner outer frame hsplit hid _ hle =>
      rw [hown hsplit hid]
      refine ⟨Table.get?_insert_self _ _ _, fun hlt => absurd hlt hle, fun _ => ⟨rfl, ?_, ?_⟩⟩
      · -- What is left are the frames below that of the loop.
        have hrest : SoundStack index (frame :: outer) :=
          hstack.of_sublist (hsplit ▸ List.sublist_append_right inner (frame :: outer))
        exact Context.loopOf?_eq_none_iff.2 fun other => hrest.ne_of_mem_tail
      · exact Context.closesLoop_finished _ frame.next _

/-! ## Other nodes -/

/-- A node other than a loop leaves the frame of the loop as it is, or gives it up. -/
theorem SoundStack.loopOf?_of_perform {index : Index} {context : Context} {node : Node}
    {id : NodeId} {frame : LoopFrame} (hstack : SoundStack index context.loops)
    (hother : node.id ≠ id)
    (hfound : (index.perform context node).context.loopOf? id = some frame) :
    context.loopOf? id = some frame := by
  have hid : frame.node = id := by simpa using List.find?_some hfound
  rcases index.frame_of_mem_loops context node (List.mem_of_find?_eq_some hfound) with
    hold | ⟨-, rfl⟩ | ⟨earlier, -, hearlier, rfl⟩
  · exact hstack.loopOf?_eq_some_iff.2 ⟨hold, hid⟩
  · exact absurd hid hother
  · exact absurd (hearlier.symm.trans hid) hother

namespace Step

def isIterationOf (loop : NodeId) (step : Step) : Bool :=
  step.isEvent .loopIteration && step.metadata.get? "loopNodeId" = some (.string loop)

theorem MarksIteration.isIterationOf {step : Step} {loop : NodeId} {number : Nat}
    (h : step.MarksIteration .loopIteration loop number) : step.isIterationOf loop = true := by
  simp [Step.isIterationOf, h.reported, h.loop]

theorem MarksIteration.not_isIterationOf {step : Step} {loop other : NodeId} {number : Nat}
    (h : step.MarksIteration .loopIteration loop number) (hne : loop ≠ other) :
    step.isIterationOf other = false := by
  simp [Step.isIterationOf, h.loop, hne]

theorem not_isIterationOf_of_isEvent {step : Step} {event : Event} (loop : NodeId)
    (hevent : step.isEvent event = true) (hne : event ≠ .loopIteration) :
    step.isIterationOf loop = false := by
  have hother : step.isEvent .loopIteration = false := by
    rw [Bool.eq_false_iff]
    intro hiteration
    exact hne (eq_of_isEvent hevent hiteration)
  simp [Step.isIterationOf, hother]

end Step

/-- A node other than a loop opens no iteration of it. -/
theorem Index.not_isIterationOf_perform {index : Index} {context : Context} {node : Node}
    {loop : NodeId} (hother : node.id ≠ loop) (array : Array Float) :
    ((index.perform context node).draft.snapshot array).isIterationOf loop = false := by
  by_cases hkind : node.kind = .forLoop
  · have hvisit := index.loopVisit_perform context node hkind
    generalize index.perform context node = effect at hvisit
    cases hvisit with
    | entered => exact (Context.marksIteration_iterate _ _ _ array).not_isIterationOf hother
    | skipped =>
        exact Step.not_isIterationOf_of_isEvent loop (Context.closesLoop_skipped _ _ array).reported
          (by decide)
    | iterated _ hid =>
        exact (Context.marksIteration_iterate _ _ _ array).not_isIterationOf
          fun heq => hother (hid.symm.trans heq)
    | completed =>
        exact Step.not_isIterationOf_of_isEvent loop
          (Context.closesLoop_finished _ _ array).reported (by decide)
  · -- No other kind of node reports an iteration.
    rcases index.perform_reports context node with ⟨event, hmem, hreports⟩
    refine Step.not_isIterationOf_of_isEvent loop ((Step.isEvent_snapshot_iff hreports).2 rfl) ?_
    rintro rfl
    revert hmem hkind
    cases node.kind <;> decide

/-! ## Moves -/

namespace State

/-- The number of iterations of a loop that a run has opened since its trace had a given length. -/
def iterationsSince (state : State) (size : Nat) (loop : NodeId) : Nat :=
  (state.run.trace.toList.drop size).countP (Step.isIterationOf loop)

theorem iterationsSince_self (state : State) (loop : NodeId) :
    state.iterationsSince state.run.trace.size loop = 0 := by
  have hnone : state.run.trace.toList.drop state.run.trace.size = [] :=
    List.drop_of_length_le (Nat.le_refl _)
  simp [iterationsSince, hnone]

variable {index : Index} {stepLimit : Option Nat} {state next : State}

/-- A move after which the run goes on performs a node.  The stack of loops is left as the node
leaves it, and the step of the node alone may open an iteration. -/
theorem exists_performs_of_running (hstep : state.step index stepLimit = .running next) :
    ∃ node, state.Performs index stepLimit node ∧
      next.run.context = (index.perform state.run.context node).context ∧
      state.run.trace.size ≤ next.run.trace.size ∧
      ∀ size loop, size ≤ state.run.trace.size →
        next.iterationsSince size loop = state.iterationsSince size loop +
          if ((index.perform state.run.context node).draft.snapshot
            (index.perform state.run.context node).context.array).isIterationOf loop then 1
          else 0 := by
  cases move_of_step hstep with
  | onward hwithin hnode =>
      refine ⟨_, ⟨hwithin, hnode⟩, rfl, by simp, ?_⟩
      intro size loop hle
      have hlength : size ≤ state.run.trace.toList.length := hle
      simp [iterationsSince, List.drop_append_of_le_length hlength, List.countP_singleton]
  | @returned node loopNode handle frame outer hwithin hnode =>
      have hquiet : ∀ loop array, ((Run.bodyCompleteDraft
          (index.perform state.run.context node).context frame).snapshot array).isIterationOf
            loop = false := by
        intro loop array
        exact Step.not_isIterationOf_of_isEvent loop
          ((Step.isEvent_snapshot_iff (Run.reports_bodyComplete _ frame)).2 rfl) (by decide)
      refine ⟨_, ⟨hwithin, hnode⟩, rfl, by simp; omega, ?_⟩
      intro size loop hle
      have hlength : size ≤ state.run.trace.toList.length := hle
      simp [iterationsSince, List.drop_append_of_le_length hlength, List.countP_cons, hquiet]

/-- A move that performs a node goes on by the output that the node is left by. -/
theorem Performs.run_step {node : Node} {handle : String}
    (h : state.Performs index stepLimit node)
    (hexit : (index.perform state.run.context node).exit = some handle) :
    (state.step index stepLimit).run =
      ((state.run.performed index node).advance index node handle).1 := by
  have hdispatch : state.run.dispatch index node =
      (state.run.performed index node).advance index node handle := by
    simp [Run.dispatch, Run.performed, hexit]
  simp only [step, filter_eq_none_iff_withinLimit.2 h.1, h.2, hdispatch]
  rcases (state.run.performed index node).advance index node handle with ⟨run, _ | next⟩ <;> rfl

end State

/-! ## Activations -/

namespace Graph

/-- After a turn of a loop and until a number of moves, its frame stays on the stack and it has no
other turn. -/
structure Rests (graph : Graph) (array : Array Float) (settings : Settings) (loop : Node)
    (previous moves : Nat) : Prop where
  later : previous < moves
  framed : ∀ between state, previous < between → between ≤ moves →
    graph.stateAt? array settings between = some state →
    ∃ frame, state.run.context.loopOf? loop.id = some frame
  idle : ∀ between state, previous < between → between < moves →
    graph.stateAt? array settings between = some state →
    ¬ state.Performs graph.index settings.stepLimit loop

/-- The turns of the activation of a loop that a move opens, counted from zero.  The activation is
opened at a turn without a frame on the stack, and goes on from turn to turn as long as the frame
stays there. -/
inductive Turn (graph : Graph) (array : Array Float) (settings : Settings) (loop : Node)
    (opening : Nat) : Nat → Nat → Prop where
  | opened {state : State} :
      graph.stateAt? array settings opening = some state →
      state.Performs graph.index settings.stepLimit loop → loop.kind = .forLoop →
      state.run.context.loopOf? loop.id = none → Turn graph array settings loop opening 0 opening
  | again {number previous moves : Nat} {state : State} :
      Turn graph array settings loop opening number previous →
      graph.Rests array settings loop previous moves →
      graph.stateAt? array settings moves = some state →
      state.Performs graph.index settings.stepLimit loop →
      Turn graph array settings loop opening (number + 1) moves

variable {graph : Graph} {array : Array Float} {settings : Settings} {loop : Node}
  {opening number previous moves : Nat} {state : State}

theorem Rests.of_succ (h : graph.Rests array settings loop previous (moves + 1))
    (hlater : previous < moves) : graph.Rests array settings loop previous moves where
  later := hlater
  framed := fun between state hafter hle => h.framed between state hafter (Nat.le_succ_of_le hle)
  idle := fun between state hafter hlt => h.idle between state hafter (Nat.lt_succ_of_lt hlt)

/-- A rest of a single move. -/
theorem rests_succ {next : State} {frame : LoopFrame}
    (hnext : graph.stateAt? array settings (moves + 1) = some next)
    (hframe : next.run.context.loopOf? loop.id = some frame) :
    graph.Rests array settings loop moves (moves + 1) where
  later := Nat.lt_succ_self moves
  framed := by
    intro between state hafter hle hstate
    have hsame : between = moves + 1 := by omega
    subst hsame
    cases hnext.symm.trans hstate
    exact ⟨frame, hframe⟩
  idle := by
    intro between state hafter hlt
    omega

/-- A rest goes on with a move that does not perform the loop and leaves its frame on the stack. -/
theorem Rests.succ {next : State} {frame : LoopFrame}
    (h : graph.Rests array settings loop previous moves)
    (hstate : graph.stateAt? array settings moves = some state)
    (hidle : ¬ state.Performs graph.index settings.stepLimit loop)
    (hnext : graph.stateAt? array settings (moves + 1) = some next)
    (hframe : next.run.context.loopOf? loop.id = some frame) :
    graph.Rests array settings loop previous (moves + 1) where
  later := Nat.lt_succ_of_lt h.later
  framed := by
    intro between other hafter hle hother
    rcases Nat.lt_or_eq_of_le hle with hlt | rfl
    · exact h.framed between other hafter (Nat.le_of_lt_succ hlt) hother
    · cases hnext.symm.trans hother
      exact ⟨frame, hframe⟩
  idle := by
    intro between other hafter hlt hother
    rcases Nat.lt_or_eq_of_le (Nat.le_of_lt_succ hlt) with hless | rfl
    · exact h.idle between other hafter hless hother
    · cases hstate.symm.trans hother
      exact hidle

namespace Turn

theorem kind (h : graph.Turn array settings loop opening number moves) : loop.kind = .forLoop := by
  induction h with
  | opened _ _ hkind => exact hkind
  | again _ _ _ _ ih => exact ih

/-- Each turn performs its loop. -/
theorem performs (h : graph.Turn array settings loop opening number moves) :
    ∃ state, graph.stateAt? array settings moves = some state ∧
      state.Performs graph.index settings.stepLimit loop := by
  cases h with
  | opened hstate hperforms => exact ⟨_, hstate, hperforms⟩
  | again _ _ hstate hperforms => exact ⟨_, hstate, hperforms⟩

/-- A turn belongs to one activation and has one number in it. -/
theorem unique {other count : Nat} (h : graph.Turn array settings loop opening number moves)
    (hother : graph.Turn array settings loop other count moves) :
    opening = other ∧ number = count := by
  induction h generalizing other count with
  | opened hstate _ _ hnone =>
      cases hother with
      | opened => exact ⟨rfl, rfl⟩
      | again _ hrests =>
          rcases hrests.framed _ _ hrests.later (Nat.le_refl _) hstate with ⟨frame, hframe⟩
          cases hnone.symm.trans hframe
  | @again number previous moves state hturn hrests hstate _ ih =>
      cases hother with
      | opened hsame _ _ hnone =>
          rcases hrests.framed _ _ hrests.later (Nat.le_refl _) hsame with ⟨frame, hframe⟩
          cases hnone.symm.trans hframe
      | @again count earlier _ _ hbefore hgap =>
          -- The turn before is the last one, so it is the same in both.
          rcases hturn.performs with ⟨_, hlast, hperforms⟩
          rcases hbefore.performs with ⟨_, hlastOther, hperformsOther⟩
          rcases Nat.lt_trichotomy previous earlier with hlt | rfl | hgt
          · exact absurd hperformsOther (hrests.idle _ _ hlt hgap.later hlastOther)
          · obtain ⟨hopening, hnumber⟩ := ih hbefore
            exact ⟨hopening, congrArg (· + 1) hnumber⟩
          · exact absurd hperforms (hgap.idle _ _ hgt hrests.later hlast)

end Turn

/-- A node performed in place of a loop has another id. -/
theorem ne_of_not_performs {node : Node}
    (hnode : state.Performs graph.index settings.stepLimit node)
    (hloop : graph.index.node? loop.id = some loop)
    (hidle : ¬ state.Performs graph.index settings.stepLimit loop) : node.id ≠ loop.id := by
  intro hid
  have hself := index_node?_self hnode.2
  rw [hid, hloop] at hself
  cases hself
  exact hidle hnode

/-- Where the frame of a loop is on the stack, the loop rests after a turn. -/
theorem exists_rests (hloop : graph.index.node? loop.id = some loop) (hkind : loop.kind = .forLoop)
    {frame : LoopFrame} (hstate : graph.stateAt? array settings moves = some state)
    (hframe : state.run.context.loopOf? loop.id = some frame) :
    ∃ opening number previous, graph.Turn array settings loop opening number previous ∧
      graph.Rests array settings loop previous moves := by
  induction moves generalizing state frame with
  | zero =>
      rcases stateAt?_zero.1 hstate with ⟨start, others, -, rfl⟩
      cases hframe
  | succ moves ih =>
      rcases stateAt?_succ.1 hstate with ⟨middle, hmiddle, hstep⟩
      rcases State.exists_performs_of_running hstep with ⟨node, hnode, hcontext, -⟩
      have hstack := stateAt?_soundStack hmiddle
      by_cases hperforms : middle.Performs graph.index settings.stepLimit loop
      · -- The last move was a turn of the loop, the first one or a later one.
        have hrests := rests_succ hstate hframe
        cases hbefore : middle.run.context.loopOf? loop.id with
        | none => exact ⟨moves, 0, moves, .opened hmiddle hperforms hkind hbefore, hrests⟩
        | some earlier =>
            rcases ih hmiddle hbefore with ⟨opening, number, previous, hturn, hgap⟩
            exact ⟨opening, number + 1, moves, .again hturn hgap hmiddle hperforms, hrests⟩
      · have hother := ne_of_not_performs hnode hloop hperforms
        have hkept := hstack.loopOf?_of_perform hother (hcontext ▸ hframe)
        rcases ih hmiddle hkept with ⟨opening, number, previous, hturn, hgap⟩
        exact ⟨opening, number, previous, hturn, hgap.succ hmiddle hperforms hstate hframe⟩

/-- Every time a loop is performed is a turn of an activation. -/
theorem exists_turn (hkind : loop.kind = .forLoop)
    (hstate : graph.stateAt? array settings moves = some state)
    (hperforms : state.Performs graph.index settings.stepLimit loop) :
    ∃ opening number, graph.Turn array settings loop opening number moves := by
  cases hframe : state.run.context.loopOf? loop.id with
  | none => exact ⟨moves, 0, .opened hstate hperforms hkind hframe⟩
  | some frame =>
      rcases exists_rests (index_node?_self hperforms.2) hkind hstate hframe with
        ⟨opening, number, previous, hturn, hrests⟩
      exact ⟨opening, number + 1, .again hturn hrests hstate hperforms⟩

/-! ## What a rest keeps -/

/-- While a loop rests, its frame is the one of its last turn, and that turn has opened the only
iteration since. -/
theorem Rests.frame {later : State} {size : Nat} (hkind : loop.kind = .forLoop)
    (hstate : graph.stateAt? array settings previous = some state)
    (hperforms : state.Performs graph.index settings.stepLimit loop)
    (hsize : size ≤ state.run.trace.size) (h : graph.Rests array settings loop previous moves)
    (hlater : graph.stateAt? array settings moves = some later) :
    later.run.context.loopOf? loop.id = some (graph.index.turnFrame state.run.context loop) ∧
      size ≤ later.run.trace.size ∧
      later.iterationsSince size loop.id = state.iterationsSince size loop.id + 1 := by
  have hloop : graph.index.node? loop.id = some loop := index_node?_self hperforms.2
  have hafter := h.later
  -- The induction is on the moves since the turn: the first one leaves the frame, and the others
  -- find it.
  induction moves, hafter using Nat.le_induction generalizing later with
  | base =>
      rcases stateAt?_succ.1 hlater with ⟨same, hsame, hstep⟩
      cases hstate.symm.trans hsame
      rcases State.exists_performs_of_running hstep with ⟨node, hnode, hcontext, hgrows, hcount⟩
      cases hnode.unique hperforms
      have hturn := Index.isTurn_perform hkind (stateAt?_soundStack hstate)
      have hid := graph.index.node_turnFrame state.run.context loop
      rcases h.framed _ _ h.later (Nat.le_refl _) hlater with ⟨frame, hframe⟩
      by_cases hlt : (graph.index.turnFrame state.run.context loop).current <
          (graph.index.turnFrame state.run.context loop).bound
      · obtain ⟨-, htop, hopens⟩ := hturn.opens hlt
        rw [← hcontext] at htop
        refine ⟨?_, Nat.le_trans hsize hgrows, ?_⟩
        · exact (stateAt?_soundStack hlater).loopOf?_eq_some_iff.2 ⟨List.mem_of_head? htop, hid⟩
        · rw [hcount size loop.id hsize, if_pos (hid ▸ hopens.isIterationOf)]
      · -- A turn that closes the activation would have left no frame.
        have hnone := (hturn.closes hlt).2.1
        rw [hid, ← hcontext] at hnone
        cases hnone.symm.trans hframe
  | succ moves hafter ih =>
      rcases stateAt?_succ.1 hlater with ⟨middle, hmiddle, hstep⟩
      rcases State.exists_performs_of_running hstep with ⟨node, hnode, hcontext, hgrows, hcount⟩
      rcases ih (h.of_succ hafter) hmiddle with ⟨hframe, hlong, hiterations⟩
      -- Another node is performed.  It keeps the frame, since one is found afterwards.
      have hidle := h.idle moves middle hafter (Nat.lt_succ_self moves) hmiddle
      have hother := ne_of_not_performs hnode hloop hidle
      rcases h.framed _ _ h.later (Nat.le_refl _) hlater with ⟨frame, hfound⟩
      have hkept := (stateAt?_soundStack hmiddle).loopOf?_of_perform hother (hcontext ▸ hfound)
      cases hkept.symm.trans hframe
      refine ⟨hfound, Nat.le_trans hlong hgrows, ?_⟩
      rw [hcount size loop.id hlong, Index.not_isIterationOf_perform hother, hiterations]
      rfl

/-- A turn of an activation is one with the frame of the first turn, counted up as often as there
were turns; and as many iterations have been opened. -/
theorem Turn.frame {first : State} (h : graph.Turn array settings loop opening number moves)
    (hfirst : graph.stateAt? array settings opening = some first)
    (hstate : graph.stateAt? array settings moves = some state) :
    graph.index.turnFrame state.run.context loop =
        loop.frameAfter (graph.index.input first.run.context loop "start").asNumber
          (graph.index.input first.run.context loop "end").asNumber number ∧
      first.run.trace.size ≤ state.run.trace.size ∧
      state.iterationsSince first.run.trace.size loop.id = number := by
  -- From one turn to the next the frame waits on the stack, and the turn takes its successor.
  induction h generalizing state with
  | opened hsame _ _ hnone =>
      cases hfirst.symm.trans hstate
      cases hfirst.symm.trans hsame
      refine ⟨?_, Nat.le_refl _, first.iterationsSince_self loop.id⟩
      rw [Index.turnFrame_of_unframed hnone]
      rfl
  | again hturn hrests _ _ ih =>
      rcases hturn.performs with ⟨last, hlast, hperforms⟩
      obtain ⟨hframe, hsize, hcount⟩ := ih hlast
      obtain ⟨hfound, hlong, hiterations⟩ :=
        hrests.frame hturn.kind hlast hperforms hsize hstate
      refine ⟨?_, hlong, by rw [hiterations, hcount]⟩
      rw [Index.turnFrame_of_framed hfound, hframe, Node.next_frameAfter]

/-- Every time a loop is performed during a run over any graph is a turn of exactly one of its
activations.  At a turn of an activation the frame of the loop is the one with which it was opened,
counted up as often as there were turns before: its variable and its bound are those of the opening,
its value is the first one with one added each time, and its iteration is the number of the turn,
which is also the number of iterations opened since.  The turn does with that frame what a loop does
and goes on accordingly; and until the next turn, or until the frame is given up, nothing touches
it. -/
theorem activations_count (graph : Graph) (array : Array Float) (settings : Settings) (loop : Node)
    (hkind : loop.kind = .forLoop) :
    (∀ moves state, graph.stateAt? array settings moves = some state →
      state.Performs graph.index settings.stepLimit loop →
      ∃! turn : Nat × Nat, graph.Turn array settings loop turn.1 turn.2 moves) ∧
    (∀ opening number moves first state, graph.Turn array settings loop opening number moves →
      graph.stateAt? array settings opening = some first →
      graph.stateAt? array settings moves = some state →
      let frame := loop.frameAfter (graph.index.input first.run.context loop "start").asNumber
        (graph.index.input first.run.context loop "end").asNumber number
      (graph.index.perform state.run.context loop).IsTurn frame ∧
      (state.step graph.index settings.stepLimit).run =
        ((state.run.performed graph.index loop).advance graph.index loop
          (if frame.current < frame.bound then "body" else "complete")).1 ∧
      state.iterationsSince first.run.trace.size loop.id = number ∧
      ∀ between later, graph.Rests array settings loop moves between →
        graph.stateAt? array settings between = some later →
        later.run.context.loopOf? loop.id = some frame) := by
  constructor
  · intro moves state hstate hperforms
    rcases exists_turn hkind hstate hperforms with ⟨opening, number, hturn⟩
    refine ⟨(opening, number), hturn, ?_⟩
    rintro ⟨other, count⟩ hother
    obtain ⟨hopening, hnumber⟩ := Turn.unique hother hturn
    exact Prod.ext hopening hnumber
  · intro opening number moves first state hturn hfirst hstate frame
    obtain ⟨hframe, -, hcount⟩ := hturn.frame hfirst hstate
    have hperforms : state.Performs graph.index settings.stepLimit loop := by
      rcases hturn.performs with ⟨same, hsame, hperforms⟩
      cases hstate.symm.trans hsame
      exact hperforms
    have hisTurn := Index.isTurn_perform hkind (stateAt?_soundStack hstate)
    rw [hframe] at hisTurn
    refine ⟨hisTurn, ?_, hcount, ?_⟩
    · refine hperforms.run_step ?_
      by_cases hlt : frame.current < frame.bound
      · rw [if_pos hlt]
        exact (hisTurn.opens hlt).1
      · rw [if_neg hlt]
        exact (hisTurn.closes hlt).1
    · intro between later hrests hlater
      rw [(hrests.frame hkind hstate hperforms (Nat.le_refl _) hlater).1, hframe]

/-- A loop up to a variable; its body writes that variable and the variable of the loop. -/
def meddledRounds : Graph where
  nodes :=
    [Node.new "begin" .start,
      (Node.new "rounds" .forLoop).withParameter "end" (.string "limit"),
      (Node.new "lower" .variableSet).withParameter "name" (.string "limit"),
      ((Node.new "jump" .variableSet).withParameter "name" (.string "i")).withParameter "value"
        (.int 9),
      Node.new "finish" .finish]
  connections :=
    [⟨⟨"begin", execOut, "rounds", execIn⟩, "1"⟩,
      ⟨⟨"rounds", "body", "lower", execIn⟩, "2"⟩,
      ⟨⟨"lower", execOut, "jump", execIn⟩, "3"⟩,
      ⟨⟨"rounds", "complete", "finish", execIn⟩, "4"⟩]

/-- The loop is opened by the second move, up to two.  Its third turn closes it after two
iterations, although its variable holds nine by then and the limit zero. -/
theorem activations_count_meddledRounds :
    let loop := (Node.new "rounds" .forLoop).withParameter "end" (.string "limit")
    let settings : Settings := { bindings := [("limit", .number 2.0)] }
    ∃ state, meddledRounds.stateAt? #[] settings 7 = some state ∧
      state.run.context.valueOf? "i" = some (.number 9.0) ∧
      state.run.context.valueOf? "limit" = some (.number 0.0) ∧
      meddledRounds.Turn #[] settings loop 1 2 7 ∧
      (meddledRounds.index.perform state.run.context loop).IsTurn ⟨"rounds", "i", 2.0, 2.0, 2⟩ ∧
      ∃ first, meddledRounds.stateAt? #[] settings 1 = some first ∧
        state.iterationsSince first.run.trace.size "rounds" = 2 := by
  intro loop settings
  have hloop : meddledRounds.index.node? "rounds" = some loop := by decide +kernel
  -- The loop has its turn at the second, the fifth and the eighth move, and its frame stays.
  have hturns : ∀ moves ∈ [1, 4, 7], ∃ state ∈ meddledRounds.stateAt? #[] settings moves,
      state.current = "rounds" := by
    decide +kernel
  have hstays : ∀ moves ∈ [2, 3, 4, 5, 6, 7],
      ∀ state ∈ meddledRounds.stateAt? #[] settings moves,
        (state.run.context.loopOf? "rounds").isSome = true ∧
          (state.current = "rounds" → moves = 4 ∨ moves = 7) := by
    decide +kernel
  have hperforms : ∀ moves ∈ [1, 4, 7], ∃ state,
      meddledRounds.stateAt? #[] settings moves = some state ∧
        state.Performs meddledRounds.index none loop := by
    intro moves hmem
    rcases hturns moves hmem with ⟨state, hstate, hcurrent⟩
    exact ⟨state, hstate, nofun, hcurrent ▸ hloop⟩
  have hrests : ∀ previous ∈ [1, 4],
      meddledRounds.Rests #[] settings loop previous (previous + 3) := by
    intro previous hmem
    have hbetween : ∀ between, previous < between → between ≤ previous + 3 →
        between ∈ [2, 3, 4, 5, 6, 7] ∧ (between = 4 ∨ between = 7 → between = previous + 3) := by
      simp only [List.mem_cons, List.not_mem_nil, or_false] at hmem ⊢
      omega
    refine ⟨by omega, ?_, ?_⟩
    · intro between state hafter hle hstate
      have hframe := (hstays between (hbetween between hafter hle).1 state hstate).1
      exact Option.isSome_iff_exists.1 hframe
    · intro between state hafter hlt hstate hturn
      have hinside := hbetween between hafter (Nat.le_of_lt hlt)
      have hcurrent : state.current = "rounds" := (index_node?_id hturn.2).symm
      have hlast := (hstays between hinside.1 state hstate).2 hcurrent
      exact absurd (hinside.2 hlast) (Nat.ne_of_lt hlt)
  rcases hperforms 1 (by decide) with ⟨first, hfirst, hopens⟩
  rcases hperforms 4 (by decide) with ⟨second, hsecond, hrepeats⟩
  rcases hperforms 7 (by decide) with ⟨state, hstate, hcloses⟩
  have hshown : ∀ state ∈ meddledRounds.stateAt? #[] settings 7,
      state.run.context.valueOf? "i" = some (.number 9.0) ∧
        state.run.context.valueOf? "limit" = some (.number 0.0) := by
    decide +kernel
  have hbegun : ∀ first ∈ meddledRounds.stateAt? #[] settings 1,
      first.run.context.loopOf? "rounds" = none ∧
      loop.frameAfter (meddledRounds.index.input first.run.context loop "start").asNumber
        (meddledRounds.index.input first.run.context loop "end").asNumber 2 =
          ⟨"rounds", "i", 2.0, 2.0, 2⟩ := by
    decide +kernel
  have hturn : meddledRounds.Turn #[] settings loop 1 2 7 :=
    .again (.again (.opened hfirst hopens rfl (hbegun first hfirst).1) (hrests 1 (by decide))
      hsecond hrepeats) (hrests 4 (by decide)) hstate hcloses
  obtain ⟨hisTurn, -, hcount, -⟩ :=
    (activations_count meddledRounds #[] settings loop rfl).2 1 2 7 first state hturn hfirst hstate
  rw [(hbegun first hfirst).2] at hisTurn
  exact ⟨state, hstate, (hshown state hstate).1, (hshown state hstate).2, hturn, hisTurn, first,
    hfirst, hcount⟩

end Graph
end FlowTrace
