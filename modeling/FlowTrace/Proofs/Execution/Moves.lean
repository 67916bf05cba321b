import FlowTrace.Execution.Run
import FlowTrace.Proofs.Graph.Lookup
import FlowTrace.Proofs.Trace.Facts

/-!
# Moves and the states between them

A run is a sequence of moves.  This file says once and for all what a move can do, and which states
a run passes through:

* `State.Move` — the outcomes of a move, each with the conditions under which it comes about;
* `State.move_step` — a move has one of these outcomes;
* `Graph.stateAt?` — the state of a run after a number of moves;
* `Graph.stateAt?_invariant` — what holds at the beginning and is kept by every move holds
  throughout;
* `Graph.runAfter?` — the run after a number of moves, the move that ends it included;
* `Graph.execute?_eq_some_iff` — the outcome of a run is that of the move that ends it.
-/

namespace FlowTrace

namespace Run

def performed (index : Index) (run : Run) (node : Node) : Run :=
  { run with context := (index.perform run.context node).context }.record
    (index.perform run.context node).draft

@[simp] theorem context_record (run : Run) (draft : Draft) :
    (run.record draft).context = run.context := rfl

@[simp] theorem trace_record (run : Run) (draft : Draft) :
    (run.record draft).trace = run.trace.push (draft.snapshot run.context.array) := rfl

@[simp] theorem context_performed (index : Index) (run : Run) (node : Node) :
    (run.performed index node).context = (index.perform run.context node).context := rfl

@[simp] theorem trace_performed (index : Index) (run : Run) (node : Node) :
    (run.performed index node).trace =
      run.trace.push ((index.perform run.context node).draft.snapshot
        (index.perform run.context node).context.array) := rfl

def failureDraft (context : Context) (error : RunError) : Draft :=
  Draft.new .custom .error s!"Error: {error.message}"
    |>.flagError error.message
    |>.noteAll context.loopFacts

@[simp] theorem context_fail (run : Run) (error : RunError) :
    (run.fail error).context = { run.context with error := some error } := rfl

@[simp] theorem trace_fail (run : Run) (error : RunError) :
    (run.fail error).trace =
      run.trace.push ((failureDraft run.context error).snapshot run.context.array) := rfl

theorem reports_bodyComplete (context : Context) (frame : LoopFrame) :
    (bodyCompleteDraft context frame).Reports .loopBodyComplete := by
  simp [bodyCompleteDraft, Draft.Reports]

theorem reports_pathEnded (node : Node) (handle : String) :
    (pathEndedDraft node handle).Reports .pathEnded := by
  simp [pathEndedDraft, Draft.Reports]

theorem reports_failure (context : Context) (error : RunError) :
    (failureDraft context error).Reports .error := by
  simp [failureDraft, Draft.Reports]

end Run

def Progress.run : Progress → Run
  | .running state => state.run
  | .ended run => run

@[simp] theorem Progress.run_running (state : State) : (Progress.running state).run = state.run :=
  rfl

@[simp] theorem Progress.run_ended (run : Run) : (Progress.ended run).run = run := rfl

namespace State

/-! ## What a move can do -/

/-- The trace is still shorter than the limit. -/
def WithinLimit (stepLimit : Option Nat) (state : State) : Prop :=
  ∀ limit, stepLimit = some limit → state.run.trace.size < limit

/-- The outcomes of a move.  Where a node is performed, `handle` is the output it is left by. -/
inductive Move (index : Index) (stepLimit : Option Nat) (state : State) : Progress → Prop where
  | limitReached {limit : Nat} :
      stepLimit = some limit → limit ≤ state.run.trace.size →
      Move index stepLimit state (.ended (state.run.fail (.stepLimitExceeded limit)))
  | nodeMissing :
      state.WithinLimit stepLimit → index.node? state.current = none →
      Move index stepLimit state
        (.ended (state.run.fail (.nodeNotFound state.current state.previous)))
  | finished {node : Node} :
      state.WithinLimit stepLimit → index.node? state.current = some node →
      (index.perform state.run.context node).exit = none →
      Move index stepLimit state (.ended (state.run.performed index node))
  | onward {node : Node} {handle : String} {next : NodeId} :
      state.WithinLimit stepLimit → index.node? state.current = some node →
      (index.perform state.run.context node).exit = some handle →
      index.next? node.id handle = some next →
      Move index stepLimit state
        (.running { run := state.run.performed index node, current := next, previous := node.id })
  | pathEnded {node : Node} {handle : String} :
      state.WithinLimit stepLimit → index.node? state.current = some node →
      (index.perform state.run.context node).exit = some handle →
      index.next? node.id handle = none →
      (index.perform state.run.context node).context.loops = [] →
      Move index stepLimit state
        (.ended ((state.run.performed index node).record (Run.pathEndedDraft node handle)))
  | returned {node loopNode : Node} {handle : String} {frame : LoopFrame} {outer : List LoopFrame} :
      state.WithinLimit stepLimit → index.node? state.current = some node →
      (index.perform state.run.context node).exit = some handle →
      index.next? node.id handle = none →
      (index.perform state.run.context node).context.loops = frame :: outer →
      index.node? frame.node = some loopNode →
      Move index stepLimit state
        (.running
          { run := (state.run.performed index node).record
              (Run.bodyCompleteDraft (index.perform state.run.context node).context frame)
            current := loopNode.id
            previous := node.id })
  | loopLost {node : Node} {handle : String} {frame : LoopFrame} {outer : List LoopFrame} :
      state.WithinLimit stepLimit → index.node? state.current = some node →
      (index.perform state.run.context node).exit = some handle →
      index.next? node.id handle = none →
      (index.perform state.run.context node).context.loops = frame :: outer →
      index.node? frame.node = none →
      Move index stepLimit state
        (.ended ((state.run.performed index node).record
          (Run.bodyCompleteDraft (index.perform state.run.context node).context frame)))

/-- The limit that a move checks is not reached if and only if the trace is shorter. -/
theorem filter_eq_none_iff_withinLimit {stepLimit : Option Nat} {state : State} :
    stepLimit.filter (· ≤ state.run.trace.size) = none ↔ state.WithinLimit stepLimit := by
  cases stepLimit with
  | none =>
      simp [WithinLimit]
  | some limit =>
      simp [WithinLimit, Option.filter]

/-- A move has one of the outcomes listed. -/
theorem move_step (index : Index) (stepLimit : Option Nat) (state : State) :
    Move index stepLimit state (state.step index stepLimit) := by
  -- The cases follow the checks of the move in their order.
  cases hlimit : stepLimit.filter (· ≤ state.run.trace.size) with
  | some limit =>
      have hreached : stepLimit = some limit ∧ limit ≤ state.run.trace.size := by
        simpa using hlimit
      simpa [step, hlimit] using Move.limitReached hreached.1 hreached.2
  | none =>
      have hwithin := filter_eq_none_iff_withinLimit.1 hlimit
      cases hnode : index.node? state.current with
      | none =>
          simpa [step, hlimit, hnode] using Move.nodeMissing hwithin hnode
      | some node =>
          cases hexit : (index.perform state.run.context node).exit with
          | none =>
              have hdispatch : state.run.dispatch index node =
                  (state.run.performed index node, none) := by
                simp [Run.dispatch, Run.performed, hexit]
              simpa [step, hlimit, hnode, hdispatch, hexit] using
                Move.finished hwithin hnode hexit
          | some handle =>
              have hdispatch : state.run.dispatch index node =
                  (state.run.performed index node).advance index node handle := by
                simp [Run.dispatch, Run.performed, hexit]
              cases hnext : index.next? node.id handle with
              | some next =>
                  simpa [step, hlimit, hnode, hdispatch, hexit, Run.advance, hnext] using
                    Move.onward hwithin hnode hexit hnext
              | none =>
                  cases hloops : (index.perform state.run.context node).context.loops with
                  | nil =>
                      simpa [step, hlimit, hnode, hdispatch, hexit, Run.advance, hnext, hloops]
                        using Move.pathEnded hwithin hnode hexit hnext hloops
                  | cons frame outer =>
                      cases hloop : index.node? frame.node with
                      | some loopNode =>
                          simpa [step, hlimit, hnode, hdispatch, hexit, Run.advance, hnext, hloops,
                            hloop] using Move.returned hwithin hnode hexit hnext hloops hloop
                      | none =>
                          simpa [step, hlimit, hnode, hdispatch, hexit, Run.advance, hnext, hloops,
                            hloop] using Move.loopLost hwithin hnode hexit hnext hloops hloop

/-- A move has one of the outcomes listed. -/
theorem move_of_step {index : Index} {stepLimit : Option Nat} {state : State}
    {progress : Progress} :
    state.step index stepLimit = progress → Move index stepLimit state progress := by
  intro h
  rw [← h]
  exact move_step index stepLimit state

/-- A move leaves the stack of loops alone, or first performs the node that the run stands at. -/
theorem stays_or_performs (index : Index) (stepLimit : Option Nat) (state : State) :
    (state.step index stepLimit).run.context.loops = state.run.context.loops ∨
      ∃ node, index.node? state.current = some node ∧
        (state.step index stepLimit).run.context.loops =
          (index.perform state.run.context node).context.loops ∧
        (state.step index stepLimit).run.trace[state.run.trace.size]? =
          some ((index.perform state.run.context node).draft.snapshot
            (index.perform state.run.context node).context.array) := by
  -- Some moves record a second step after that of the node.
  have hfirst : ∀ (trace : Trace) (first second : Step),
      ((trace.push first).push second)[trace.size]? = some first := by
    intro trace first second
    rw [Array.getElem?_push_lt (by simp), Array.getElem_push_eq]
  have hmove := move_step index stepLimit state
  generalize state.step index stepLimit = progress at hmove
  cases hmove with
  | limitReached => exact Or.inl rfl
  | nodeMissing => exact Or.inl rfl
  | finished _ hnode => exact Or.inr ⟨_, hnode, rfl, Array.getElem?_push_size⟩
  | onward _ hnode => exact Or.inr ⟨_, hnode, rfl, Array.getElem?_push_size⟩
  | pathEnded _ hnode => exact Or.inr ⟨_, hnode, rfl, hfirst _ _ _⟩
  | returned _ hnode => exact Or.inr ⟨_, hnode, rfl, hfirst _ _ _⟩
  | loopLost _ hnode => exact Or.inr ⟨_, hnode, rfl, hfirst _ _ _⟩

/-! ## The states of a run -/

def after? (index : Index) (stepLimit : Option Nat) : Nat → State → Option State
  | 0, state => some state
  | moves + 1, state =>
      match state.step index stepLimit with
      | .running next => after? index stepLimit moves next
      | .ended _ => none

/-- A run lasts one move longer if it lasts so long and then goes on. -/
theorem after?_succ_eq_some_iff {index : Index} {stepLimit : Option Nat} {last : State} :
    ∀ {moves : Nat} {state : State},
      after? index stepLimit (moves + 1) state = some last ↔
        ∃ middle, after? index stepLimit moves state = some middle ∧
          middle.step index stepLimit = .running last := by
  intro moves
  induction moves with
  | zero =>
      intro state
      cases hstep : state.step index stepLimit <;> simp [after?, hstep]
  | succ moves ih =>
      intro state
      cases hstep : state.step index stepLimit with
      | ended run =>
          simp [after?, hstep]
      | running next =>
          -- The first move is the same on both sides, and the rest is a run from the next state.
          have hleft : after? index stepLimit (moves + 1 + 1) state =
              after? index stepLimit (moves + 1) next := by
            simp [after?, hstep]
          have hright : after? index stepLimit (moves + 1) state =
              after? index stepLimit moves next := by
            simp [after?, hstep]
          rw [hleft, hright]
          exact ih

/-- A run ends within a number of moves if and only if one of them ends it. -/
theorem runFor_eq_some_iff {index : Index} {stepLimit : Option Nat} {run : Run} :
    ∀ {moves : Nat} {state : State},
      runFor index stepLimit moves state = some run ↔
        ∃ before < moves, ∃ last, after? index stepLimit before state = some last ∧
          last.step index stepLimit = .ended run := by
  intro moves
  induction moves with
  | zero =>
      intro state
      simp [runFor]
  | succ moves ih =>
      intro state
      cases hstep : state.step index stepLimit with
      | ended other =>
          have hrun : runFor index stepLimit (moves + 1) state = some other := by
            simp [runFor, hstep]
          rw [hrun]
          constructor
          · intro h
            cases h
            exact ⟨0, Nat.succ_pos moves, state, rfl, hstep⟩
          · rintro ⟨before, -, last, hlast, hended⟩
            -- Nothing follows a move that ends the run, so no move comes before it.
            cases before with
            | zero =>
                cases hlast
                rw [hstep] at hended
                cases hended
                rfl
            | succ before =>
                simp [after?, hstep] at hlast
      | running next =>
          have hrun : runFor index stepLimit (moves + 1) state =
              runFor index stepLimit moves next := by
            simp [runFor, hstep]
          rw [hrun, ih]
          constructor
          · rintro ⟨before, hlt, last, hlast, hended⟩
            refine ⟨before + 1, Nat.succ_lt_succ hlt, last, ?_, hended⟩
            simpa [after?, hstep] using hlast
          · rintro ⟨before, hlt, last, hlast, hended⟩
            cases before with
            | zero =>
                cases hlast
                rw [hstep] at hended
                cases hended
            | succ before =>
                refine ⟨before, Nat.lt_of_succ_lt_succ hlt, last, ?_, hended⟩
                simpa [after?, hstep] using hlast

end State

namespace Graph

/-- The state of a run after a number of moves, if the run lasts that long. -/
def stateAt? (graph : Graph) (array : Array Float) (settings : Settings) (moves : Nat) :
    Option State :=
  match graph.nodesOfKind .start with
  | [] => none
  | start :: _ =>
      (initialState start array settings).after? graph.index settings.stepLimit moves

variable {graph : Graph} {array : Array Float} {settings : Settings}

theorem stateAt?_zero {state : State} :
    graph.stateAt? array settings 0 = some state ↔
      ∃ start others, graph.nodesOfKind .start = start :: others ∧
        state = initialState start array settings := by
  unfold stateAt?
  cases graph.nodesOfKind .start with
  | nil =>
      simp
  | cons start others =>
      simp [State.after?, eq_comm]

/-- The state after one more move comes from the state before it. -/
theorem stateAt?_succ {moves : Nat} {last : State} :
    graph.stateAt? array settings (moves + 1) = some last ↔
      ∃ middle, graph.stateAt? array settings moves = some middle ∧
        middle.step graph.index settings.stepLimit = .running last := by
  unfold stateAt?
  cases graph.nodesOfKind .start with
  | nil =>
      simp
  | cons start others =>
      exact State.after?_succ_eq_some_iff

/-- What holds at the beginning of a run and is kept by every move holds throughout. -/
theorem stateAt?_invariant {invariant : State → Prop}
    (hinitial : ∀ start others, graph.nodesOfKind .start = start :: others →
      invariant (initialState start array settings))
    (hstep : ∀ state next, invariant state →
      state.step graph.index settings.stepLimit = .running next → invariant next) :
    ∀ {moves : Nat} {state : State},
      graph.stateAt? array settings moves = some state → invariant state := by
  intro moves
  induction moves with
  | zero =>
      intro state h
      rcases stateAt?_zero.1 h with ⟨start, others, hstart, rfl⟩
      exact hinitial start others hstart
  | succ moves ih =>
      intro state h
      rcases stateAt?_succ.1 h with ⟨middle, hmiddle, hmove⟩
      exact hstep middle state (ih hmiddle) hmove

/-- The run after a number of moves, the move that ends it included. -/
def runAfter? (graph : Graph) (array : Array Float) (settings : Settings) : Nat → Option Run
  | 0 => (graph.stateAt? array settings 0).map State.run
  | moves + 1 =>
      (graph.stateAt? array settings moves).map fun state =>
        (state.step graph.index settings.stepLimit).run

theorem runAfter?_succ {moves : Nat} {run : Run} :
    graph.runAfter? array settings (moves + 1) = some run ↔
      ∃ state, graph.stateAt? array settings moves = some state ∧
        (state.step graph.index settings.stepLimit).run = run :=
  Option.map_eq_some_iff

/-- Between two moves the run is that of the state. -/
theorem runAfter?_of_stateAt? {moves : Nat} {state : State}
    (hstate : graph.stateAt? array settings moves = some state) :
    graph.runAfter? array settings moves = some state.run := by
  cases moves with
  | zero =>
      simp [runAfter?, hstate]
  | succ moves =>
      rcases stateAt?_succ.1 hstate with ⟨middle, hmiddle, hmove⟩
      exact runAfter?_succ.2 ⟨middle, hmiddle, by rw [hmove]; rfl⟩

/-- What holds of a run at its beginning and is kept by every move holds of it throughout, its end
included. -/
theorem runAfter?_invariant {invariant : Run → Prop}
    (hinitial : invariant { context := initialContext array settings })
    (hstep : ∀ state : State, invariant state.run →
      invariant (state.step graph.index settings.stepLimit).run) :
    ∀ {moves : Nat} {run : Run},
      graph.runAfter? array settings moves = some run → invariant run := by
  have hstates : ∀ {moves : Nat} {state : State},
      graph.stateAt? array settings moves = some state → invariant state.run := by
    apply stateAt?_invariant
    · intro start others _
      exact hinitial
    · intro state next h hmove
      simpa [hmove] using hstep state h
  intro moves run hrun
  cases moves with
  | zero =>
      rcases Option.map_eq_some_iff.1 hrun with ⟨state, hstate, rfl⟩
      exact hstates hstate
  | succ moves =>
      rcases runAfter?_succ.1 hrun with ⟨state, hstate, rfl⟩
      exact hstep state (hstates hstate)

/-- A run that has come to a state has passed through all states before it. -/
theorem exists_stateAt?_of_le {first last : Nat} {state : State} :
    first ≤ last → graph.stateAt? array settings last = some state →
      ∃ earlier, graph.stateAt? array settings first = some earlier := by
  intro hle
  induction hle generalizing state with
  | refl =>
      intro h
      exact ⟨state, h⟩
  | step _ ih =>
      intro h
      rcases stateAt?_succ.1 h with ⟨middle, hmiddle, -⟩
      exact ih hmiddle

/-- The outcome of a run is that of the move that ends it; without a start node there is none. -/
theorem execute?_eq_some_iff {moves : Nat} {outcome : Outcome} :
    graph.execute? array settings moves = some outcome ↔
      (graph.nodesOfKind .start = [] ∧
        outcome = Run.outcome
          { context := { initialContext array settings with error := some .missingStart } }) ∨
      ∃ before < moves, ∃ last run, graph.stateAt? array settings before = some last ∧
        last.step graph.index settings.stepLimit = .ended run ∧ outcome = run.outcome := by
  unfold execute? stateAt?
  cases graph.nodesOfKind .start with
  | nil =>
      simp [eq_comm]
  | cons start others =>
      simp only [Option.map_eq_some_iff, State.runFor_eq_some_iff, reduceCtorEq, false_and,
        false_or]
      constructor
      · rintro ⟨run, ⟨before, hlt, last, hlast, hended⟩, rfl⟩
        exact ⟨before, hlt, last, run, hlast, hended, rfl⟩
      · rintro ⟨before, hlt, last, run, hlast, hended, rfl⟩
        exact ⟨run, ⟨before, hlt, last, hlast, hended⟩, rfl⟩

/-- The outcome of a run with a start node is that of the run after some number of moves. -/
theorem exists_runAfter?_of_execute? {moves : Nat} {outcome : Outcome}
    (houtcome : graph.execute? array settings moves = some outcome) :
    (graph.nodesOfKind .start = [] ∧
      outcome = Run.outcome
        { context := { initialContext array settings with error := some .missingStart } }) ∨
    ∃ count run, graph.runAfter? array settings count = some run ∧ outcome = run.outcome := by
  rcases execute?_eq_some_iff.1 houtcome with hnone | ⟨before, -, last, run, hlast, hended, rfl⟩
  · exact Or.inl hnone
  · exact Or.inr ⟨before + 1, run, runAfter?_succ.2 ⟨last, hlast, by rw [hended]; rfl⟩, rfl⟩

/-- Two loops, one inside of the other, around a swap; each of them makes two rounds. -/
def nestedSwaps : Graph where
  nodes :=
    [Node.new "begin" .start,
      (Node.new "rows" .forLoop).withParameter "end" (.int 2),
      (Node.new "columns" .forLoop).withParameter "end" (.int 2),
      Node.new "swap" .arraySwap,
      Node.new "finish" .finish]
  connections :=
    [⟨⟨"begin", execOut, "rows", execIn⟩, "1"⟩,
      ⟨⟨"rows", "body", "columns", execIn⟩, "2"⟩,
      ⟨⟨"columns", "body", "swap", execIn⟩, "3"⟩,
      ⟨⟨"rows", "complete", "finish", execIn⟩, "4"⟩]

end Graph
end FlowTrace
