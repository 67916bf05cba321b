import FlowTrace.Proofs.Execution.LoopTurns
import FlowTrace.Proofs.Execution.Recording

/-!
# Which loop a summary is about

A loop that comes to its end, or has no iterations at all, is summed up by a step.  The description
and the count of the step are those of the loop.  The facts about the innermost loop are noted last,
after the frame of the loop has been taken off the stack; so inside of another loop they are about
that one, and its variable is shown in the place of the own one.

* `Step.isSummary` — the steps in question;
* `Context.enclosing` — the loops that a loop runs inside of;
* `Step.SumsUp` — a step describes and counts the iterations of a loop;
* `Effect.Closes` and `Index.closes_perform` — what a loop does at the turn that sums it up;
* `Graph.summaries_show_enclosing` — every summary shows the variable of the enclosing loop, or the
  own one if there is none.
-/

namespace FlowTrace

namespace Step

/-- Whether a step sums a loop up: it reports its end, or that it had no iterations. -/
def isSummary (step : Step) : Bool :=
  step.isEvent .loopComplete || step.isEvent .loopSkipped

theorem isSummary_iff {step : Step} :
    step.isSummary = true ↔ step.isEvent .loopComplete = true ∨ step.isEvent .loopSkipped = true :=
  Bool.or_eq_true_iff

/-- The opening of an iteration is no summary. -/
theorem MarksIteration.not_isSummary {step : Step} {loop : NodeId} {number : Nat}
    (h : step.MarksIteration .loopIteration loop number) : ¬ step.isSummary = true := by
  rw [isSummary_iff]
  rintro (hshown | hshown)
  · cases eq_of_isEvent h.reported hshown
  · cases eq_of_isEvent h.reported hshown

def loopVariable? (step : Step) : Option Json :=
  step.metadata.get? "loopVariable"

end Step

/-- The loops that a loop runs inside of: those below its frame, or all of them if it has none. -/
def Context.enclosing (context : Context) (loop : NodeId) : List LoopFrame :=
  match context.loops.dropWhile (·.node ≠ loop) with
  | _ :: outer => outer
  | [] => context.loops

namespace Context

variable {context : Context} {loop : NodeId}

theorem enclosing_of_unframed (hfresh : ∀ frame ∈ context.loops, frame.node ≠ loop) :
    context.enclosing loop = context.loops := by
  have hdrop : context.loops.dropWhile (·.node ≠ loop) = [] := by
    simpa [List.dropWhile_eq_nil_iff] using hfresh
  simp only [enclosing, hdrop]

theorem enclosing_of_framed {inner outer : List LoopFrame} {frame : LoopFrame}
    (hsplit : context.loops = inner ++ frame :: outer) (hid : frame.node = loop)
    (hinner : ∀ other ∈ inner, other.node ≠ loop) : context.enclosing loop = outer := by
  have hdrop : context.loops.dropWhile (·.node ≠ loop) = frame :: outer := by
    rw [hsplit, List.dropWhile_append_of_pos (by simpa using hinner)]
    simp [hid]
  simp only [enclosing, hdrop]

/-- The variable that is told is that of the innermost loop. -/
theorem get?_loopFacts_loopVariable (context : Context) :
    context.loopFacts.get? "loopVariable" =
      context.loops.head?.map fun frame => .string frame.variableName := by
  unfold loopFacts
  cases context.loops with
  | nil => rfl
  | cons frame outer => simp [Table.get?_ofList, List.lookup_cons]

/-- What is noted about a loop gives way to what is noted about the innermost one on the stack. -/
theorem loopVariable?_effectVia (context : Context) {draft : Draft} {frame : LoopFrame}
    (hnoted : draft.metadata.get? "loopVariable" = some (.string frame.variableName))
    (exit : String) (array : Array Float) :
    ((context.effectVia exit draft).draft.snapshot array).loopVariable? =
      some (.string (context.loops.head?.getD frame).variableName) := by
  simp only [Step.loopVariable?, Draft.metadata_snapshot, draft_effectVia, Draft.get?_noteAll,
    get?_loopFacts_loopVariable, hnoted]
  cases context.loops.head? <;> rfl

end Context

/-! ## The turn that sums a loop up -/

/-- The draft that sums a loop up whose frame has reached its bound. -/
def LoopFrame.summary (frame : LoopFrame) : Draft :=
  if frame.iteration = 0 then Context.skippedDraft frame else Context.finishedDraft frame

/-- A step describes and counts the iterations of the loop of a frame. -/
structure Step.SumsUp (step : Step) (frame : LoopFrame) : Prop where
  event : step.isEvent (if frame.iteration = 0 then .loopSkipped else .loopComplete) = true
  description : step.description = frame.summary.description
  count : step.metadata.get? "iterations" = some (.ofNat frame.iteration)

/-- What a loop does at the turn that sums it up: its frame has reached the bound, the loops around
it are left on the stack, and the step is about it but for the variable that it shows, which is that
of the loop around it if there is one. -/
structure Effect.Closes (effect : Effect) (frame : LoopFrame) (enclosing : List LoopFrame) :
    Prop where
  reached : ¬ frame.current < frame.bound
  left : effect.context.loops = enclosing
  sumsUp : (effect.draft.snapshot effect.context.array).SumsUp frame
  shows : (effect.draft.snapshot effect.context.array).loopVariable? =
    some (.string (enclosing.head?.getD frame).variableName)

theorem Context.sumsUp_skipped {frame : LoopFrame} (context : Context) (hnone : frame.iteration = 0)
    (array : Array Float) :
    ((context.effectVia "complete" (skippedDraft frame)).draft.snapshot array).SumsUp frame := by
  have hskip := context.closesLoop_skipped frame array
  refine ⟨?_, ?_, ?_⟩
  · rw [if_pos hnone]
    exact hskip.reported
  · simp [LoopFrame.summary, hnone]
  · rw [hskip.count, hnone]

theorem Context.sumsUp_finished {frame : LoopFrame} (context : Context)
    (hsome : frame.iteration ≠ 0) (array : Array Float) :
    ((context.effectVia "complete" (finishedDraft frame)).draft.snapshot array).SumsUp frame := by
  have hcompletion := context.closesLoop_finished frame array
  refine ⟨?_, ?_, hcompletion.count⟩
  · rw [if_neg hsome]
    exact hcompletion.reported
  · simp [LoopFrame.summary, hsome]

namespace Index

variable {index : Index} {context : Context} {node : Node}

/-- Only loops are summed up. -/
theorem kind_of_isSummary (h : (index.stepOf context node).isSummary = true) :
    node.kind = .forLoop := by
  rcases index.perform_reports context node with ⟨event, hmem, hreports⟩
  have hevent : event = .loopComplete ∨ event = .loopSkipped := by
    rcases Step.isSummary_iff.1 h with hshown | hshown
    · exact Or.inl ((Step.isEvent_snapshot_iff hreports).1 hshown).symm
    · exact Or.inr ((Step.isEvent_snapshot_iff hreports).1 hshown).symm
  revert hmem
  rcases hevent with rfl | rfl <;> cases node.kind <;> decide

/-- A loop is summed up at a turn that leaves the loops around it on the stack. -/
theorem closes_perform (hstack : SoundStack index context.loops)
    (h : (index.stepOf context node).isSummary = true) :
    (index.perform context node).Closes (index.turnFrame context node)
      (context.enclosing node.id) := by
  have hvisit := index.loopVisit_perform context node (kind_of_isSummary h)
  unfold stepOf at h
  generalize index.perform context node = effect at hvisit h
  -- Of the four visits two open an iteration.  In the others the frame is gone when the facts about
  -- the innermost loop are noted, so these are facts about the loop around it.
  cases hvisit with
  | entered => exact absurd h (Context.marksIteration_iterate _ _ _ _).not_isSummary
  | skipped hfresh hle =>
      rw [turnFrame_of_unframed (Context.loopOf?_eq_none_iff.2 hfresh),
        Context.enclosing_of_unframed hfresh]
      refine ⟨hle, rfl, Context.sumsUp_skipped _ rfl _, ?_⟩
      exact Context.loopVariable?_effectVia _ (by simp [Context.skippedDraft]) _ _
  | iterated => exact absurd h (Context.marksIteration_iterate _ _ _ _).not_isSummary
  | @completed inner outer frame hsplit hid hinner hle =>
      have hfound : context.loopOf? node.id = some frame :=
        hstack.loopOf?_eq_some_iff.2 ⟨by simp [hsplit], hid⟩
      rw [turnFrame_of_framed hfound, Context.enclosing_of_framed hsplit hid hinner]
      refine ⟨hle, rfl, Context.sumsUp_finished _ (Nat.succ_ne_zero frame.iteration) _, ?_⟩
      exact Context.loopVariable?_effectVia _ (by simp [Context.finishedDraft]) _ _

end Index

/-! ## Runs -/

namespace Graph

variable {graph : Graph} {array : Array Float} {settings : Settings}

/-- A loop has its turns with frames that count in its variable. -/
theorem variableName_turnFrame {moves : Nat} {state : State} {loop : Node}
    (hstate : graph.stateAt? array settings moves = some state)
    (hloop : graph.index.node? loop.id = some loop) :
    (graph.index.turnFrame state.run.context loop).variableName = loop.textOr "variable" "i" := by
  cases hfound : state.run.context.loopOf? loop.id with
  | none =>
      rw [Index.turnFrame_of_unframed hfound]
      rfl
  | some frame =>
      obtain ⟨hmem, hid⟩ := (stateAt?_soundStack hstate).loopOf?_eq_some_iff.1 hfound
      rw [Index.turnFrame_of_framed hfound, LoopFrame.variableName_next]
      exact runAfter?_variableName (runAfter?_of_stateAt? hstate) frame hmem loop (hid ▸ hloop)

/-- Every step of a run that sums a loop up was recorded at a turn of a loop whose frame had reached
its bound.  It describes that loop and counts its iterations, but the variable that it shows is that
of the innermost loop around it; only a loop that is inside of no other shows its own.  So a summary
shows the variable of its loop if and only if the loop around it, where there is one, counts in a
variable of the same name. -/
theorem summaries_show_enclosing (graph : Graph) (array : Array Float) (settings : Settings)
    (moves : Nat) (run : Run) (earlier later : List Step) (step : Step)
    (hrun : graph.runAfter? array settings moves = some run)
    (hsteps : run.trace.toList = earlier ++ step :: later) (hsummary : step.isSummary = true) :
    ∃ before < moves, ∃ state loop, graph.stateAt? array settings before = some state ∧
      state.run.trace.toList = earlier ∧ state.Performs graph.index settings.stepLimit loop ∧
      loop.kind = .forLoop ∧
      let frame := graph.index.turnFrame state.run.context loop
      let enclosing := state.run.context.enclosing loop.id
      frame.variableName = loop.textOr "variable" "i" ∧ ¬ frame.current < frame.bound ∧
      (graph.index.perform state.run.context loop).context.loops = enclosing ∧
      step.SumsUp frame ∧
      step.loopVariable? = some (.string (enclosing.head?.getD frame).variableName) ∧
      (step.loopVariable? = some (.string (loop.textOr "variable" "i")) ↔
        ∀ outer ∈ enclosing.head?, outer.variableName = loop.textOr "variable" "i") := by
  -- A summary is reported by a node, so the step was recorded at a turn.
  obtain ⟨event, hevent, hnode⟩ : ∃ event, step.isEvent event = true ∧
      event.isAboutPath = false := by
    rcases Step.isSummary_iff.1 hsummary with hshown | hshown
    · exact ⟨.loopComplete, hshown, rfl⟩
    · exact ⟨.loopSkipped, hshown, rfl⟩
  obtain ⟨before, hlt, state, loop, hstate, hperforms, rfl, rfl⟩ :=
    exists_turn_of_step hevent hnode hrun hsteps
  have hname := variableName_turnFrame hstate (index_node?_self hperforms.2)
  have hcloses := Index.closes_perform (stateAt?_soundStack hstate) hsummary
  refine ⟨before, hlt, state, loop, hstate, rfl, hperforms, Index.kind_of_isSummary hsummary,
    hname, hcloses.reached, hcloses.left, hcloses.sumsUp, hcloses.shows, ?_⟩
  rw [Index.stepOf, hcloses.shows]
  -- The frame of the turn counts in the variable of its loop, whichever iteration it is.
  cases (state.run.context.enclosing loop.id).head? with
  | none => simp [hname]
  | some outer => simp

/-- Three loops: two of them follow each other in the body of the first, and the last one has no
iterations. -/
def nestedLoops : Graph where
  nodes :=
    [Node.new "begin" .start,
      (Node.new "rows" .forLoop).withParameter "end" (.int 1),
      ((Node.new "columns" .forLoop).withParameter "variable" (.string "j")).withParameter
        "end" (.int 1),
      ((Node.new "layers" .forLoop).withParameter "variable" (.string "k")).withParameter
        "end" (.int 0),
      Node.new "finish" .finish]
  connections :=
    [⟨⟨"begin", execOut, "rows", execIn⟩, "1"⟩,
      ⟨⟨"rows", "body", "columns", execIn⟩, "2"⟩,
      ⟨⟨"columns", "complete", "layers", execIn⟩, "3"⟩,
      ⟨⟨"rows", "complete", "finish", execIn⟩, "4"⟩]

/-- The fourth move completes the loop over the columns: the step is about a loop that has reached
its bound, and shows the variable of the loop around that one. -/
theorem summaries_show_enclosing_nestedLoops :
    ∃ run earlier step, nestedLoops.runAfter? #[] {} 4 = some run ∧
      run.trace.toList = earlier ++ [step] ∧ step.isSummary = true ∧
      step.description = "Loop over j complete after 1 iteration" ∧
      step.loopVariable? = some (.string "i") ∧
      ∃ before < 4, ∃ state loop, nestedLoops.stateAt? #[] {} before = some state ∧
        state.run.trace.toList = earlier ∧ state.Performs nestedLoops.index none loop ∧
        let frame := nestedLoops.index.turnFrame state.run.context loop
        ¬ frame.current < frame.bound ∧ step.SumsUp frame ∧
          ((state.run.context.enclosing loop.id).head?.getD frame).variableName = "i" := by
  have hshown : (nestedLoops.runAfter? #[] {} 4).bind (fun run => run.trace.toList.getLast?.map
      fun step => (step.isSummary, step.description, step.loopVariable?)) =
        some (true, "Loop over j complete after 1 iteration", some (.string "i")) := by
    decide +kernel
  rcases Option.bind_eq_some_iff.1 hshown with ⟨run, hrun, hlast⟩
  rcases Option.map_eq_some_iff.1 hlast with ⟨step, hstep, htold⟩
  obtain ⟨hsummary, hdescription, hvariable⟩ : step.isSummary = true ∧
      step.description = "Loop over j complete after 1 iteration" ∧
      step.loopVariable? = some (.string "i") := by
    simpa using htold
  obtain ⟨earlier, hsteps⟩ := List.getLast?_eq_some_iff.1 hstep
  obtain ⟨before, hlt, state, loop, hstate, hearlier, hperforms, -, -, hreached, -, hsums, hshows,
    -⟩ := summaries_show_enclosing nestedLoops #[] {} 4 run earlier [] step hrun hsteps hsummary
  refine ⟨run, earlier, step, hrun, hsteps, hsummary, hdescription, hvariable, before, hlt, state,
    loop, hstate, hearlier, hperforms, hreached, hsums, ?_⟩
  rw [hvariable] at hshows
  simpa using hshows.symm

/-- The two inner loops name their own variables in words and the outer one in the facts. -/
theorem nested_summaries_show_outer :
    nestedLoops.validate.isValid = true ∧
      ∃ outcome, nestedLoops.execute? #[] {} 7 = some outcome ∧
        (outcome.steps.filter Step.isSummary).map
            (fun step => (step.description, step.loopVariable?)) =
          [("Loop over j complete after 1 iteration", some (.string "i")),
            ("Loop skipped: k = 0 is not below 0", some (.string "i")),
            ("Loop over i complete after 1 iteration", some (.string "i"))] := by
  have hshown : (nestedLoops.execute? #[] {} 7).map (fun outcome =>
      (outcome.steps.filter Step.isSummary).map
        fun step => (step.description, step.loopVariable?)) =
          some [("Loop over j complete after 1 iteration", some (.string "i")),
            ("Loop skipped: k = 0 is not below 0", some (.string "i")),
            ("Loop over i complete after 1 iteration", some (.string "i"))] := by
    decide +kernel
  rcases Option.map_eq_some_iff.1 hshown with ⟨outcome, houtcome, hsummaries⟩
  exact ⟨by decide +kernel, outcome, houtcome, hsummaries⟩

end Graph
end FlowTrace
