import FlowTrace.Proofs.Execution.Trail

/-!
# Termination

A run over a valid graph ends if the loops it enters do.  The proof follows the nesting of the run:
a way forward makes the trail longer, which can happen only as often as there are nodes, and a way
back leads to a loop that is closer to its bound.

* `State.Halts` — a run ends from a state;
* `Graph.LoopsEnd` — the values that each entered loop would count through reach its bound;
* `Graph.Returns` — a run that has come back to the loop on top of its stack ends;
* `Graph.Proceeds` — so does a run at the end of a trail of some length.

Without loops a run does more than end: it performs no node twice.
-/

namespace FlowTrace

/-- The value of a loop variable after counting a number of times. -/
def valueAfter (first : Float) : Nat → Float
  | 0 => first
  | count + 1 => valueAfter first count + 1.0

theorem valueAfter_add_one (first : Float) :
    ∀ count, valueAfter (first + 1.0) count = valueAfter first (count + 1)
  | 0 => rfl
  | count + 1 => by
      have hprevious := valueAfter_add_one first count
      simp only [valueAfter] at hprevious ⊢
      rw [hprevious]

/-- A frame that counts up reaches its bound. -/
def LoopFrame.Ends (frame : LoopFrame) (count : Nat) : Prop :=
  ¬ valueAfter frame.current count < frame.bound

theorem LoopFrame.Ends.next {frame : LoopFrame} {count : Nat} :
    frame.Ends (count + 1) → frame.next.Ends count := by
  intro h
  simpa [Ends, valueAfter_add_one] using h

namespace State

def Halts (index : Index) (stepLimit : Option Nat) (state : State) : Prop :=
  ∃ moves run, state.runFor index stepLimit moves = some run

/-- A run halts if it does after one move, whichever it is. -/
theorem halts_of_forall_running {index : Index} {stepLimit : Option Nat} {state : State}
    (h : ∀ next, state.step index stepLimit = .running next → next.Halts index stepLimit) :
    state.Halts index stepLimit := by
  cases hstep : state.step index stepLimit with
  | ended run =>
      exact ⟨1, run, by simp [runFor, hstep]⟩
  | running next =>
      rcases h next hstep with ⟨moves, run, hrun⟩
      exact ⟨moves + 1, run, by simpa [runFor, hstep] using hrun⟩

end State

namespace Graph

/-- The values that each loop entered during a run would count through reach its bound. -/
def LoopsEnd (graph : Graph) (array : Array Float) (settings : Settings) : Prop :=
  ∀ moves state node,
    graph.stateAt? array settings moves = some state →
    graph.index.node? state.current = some node → node.kind = .forLoop →
    (∀ frame ∈ state.run.context.loops, frame.node ≠ node.id) →
    ∃ count,
      ¬ valueAfter (graph.index.input state.run.context node "start").asNumber count <
        (graph.index.input state.run.context node "end").asNumber

/-- Every run that has come back to the loop on top of this stack ends. -/
def Returns (graph : Graph) (array : Array Float) (settings : Settings) (loops : List LoopFrame) :
    Prop :=
  ∀ moves state frame outer, graph.stateAt? array settings moves = some state →
    state.run.context.loops = loops → loops = frame :: outer → state.current = frame.node →
    state.Halts graph.index settings.stepLimit

/-- Every run that stands at the end of a trail of some length, with the loops of the trail on its
stack, ends if it does so after coming back to the innermost of them. -/
def Proceeds (graph : Graph) (array : Array Float) (settings : Settings) (start : Node)
    (length : Nat) : Prop :=
  ∀ moves state passed base, graph.stateAt? array settings moves = some state →
    Trail graph.index start.id passed state.current (base.map LoopFrame.node) →
    passed.length = length → state.run.context.loops = base →
    graph.Returns array settings base → state.Halts graph.index settings.stepLimit

variable {graph : Graph} {start : Node} {array : Array Float} {settings : Settings}

theorem returns_nil : graph.Returns array settings [] := by
  intro moves state frame outer _ _ hcons
  cases hcons

/-- Wherever a run arrives, it ends. -/
theorem halts_of_arrival {passed : List NodeId} {loops : List LoopFrame} {moves : Nat}
    {next : State} (hproceeds : graph.Proceeds array settings start passed.length)
    (hreturns : graph.Returns array settings loops)
    (hnext : graph.stateAt? array settings moves = some next)
    (harrival : Arrival graph.index start.id passed loops next) :
    next.Halts graph.index settings.stepLimit := by
  cases harrival with
  | forward hloops htrail =>
      exact hproceeds moves next passed loops hnext htrail rfl hloops hreturns
  | back hloops hcons hcurrent _ =>
      exact hreturns moves next _ _ hnext hloops hcons hcurrent

/-- A loop that reaches its bound ends, if the nodes in its body and after it do. -/
theorem returns_cons (hwired : graph.Wired start) {passed : List NodeId} {base : List LoopFrame}
    {loop : NodeId} (htrail : Trail graph.index start.id passed loop (base.map LoopFrame.node))
    (hproceeds : graph.Proceeds array settings start (passed.length + 1))
    (hreturns : graph.Returns array settings base) :
    ∀ (count : Nat) (frame : LoopFrame), frame.node = loop → frame.Ends count →
      graph.Returns array settings (frame :: base) := by
  -- The induction is on the rounds that are left before the bound is reached.
  intro count
  induction count with
  | zero =>
      intro frame _ hends moves state top outer hstate hloops _ _
      -- The frames on the stack are all below their bounds.
      have hbelow := (stateAt?_soundStack hstate).below frame (by simp [hloops])
      exact absurd hbelow hends
  | succ count ih =>
      intro frame hframe hends moves state top outer hstate hloops hcons hcurrent
      cases hcons
      have hplaced : Placed graph.index start.id passed base state := by
        refine ⟨?_, Or.inr ⟨frame, hcurrent.symm, hloops⟩⟩
        rw [hcurrent, hframe]
        exact htrail
      apply State.halts_of_forall_running
      intro next hstep
      have hnext := stateAt?_succ.2 ⟨state, hstate, hstep⟩
      cases hplaced.course hwired (stateAt?_soundStack hstate) hstep with
      | plain hbase =>
          exact absurd (hloops.symm.trans hbase) (List.cons_ne_self _ _)
      | entered _ _ hbase =>
          exact absurd (hloops.symm.trans hbase) (List.cons_ne_self _ _)
      | iterated hbase harrival =>
          cases hloops.symm.trans hbase
          exact halts_of_arrival hproceeds (ih frame.next hframe hends.next) hnext harrival
      | completed _ harrival =>
          exact halts_of_arrival hproceeds hreturns hnext harrival

/-- Trails can grow only as long as there are nodes that they have not passed. -/
theorem proceeds_of_loopsEnd (hwired : graph.Wired start)
    (hends : graph.LoopsEnd array settings) :
    ∀ room length, graph.nodes.length ≤ length + room →
      graph.Proceeds array settings start length := by
  -- The induction is on the nodes that the trail has not passed.
  intro room
  induction room with
  | zero =>
      intro length hroom moves state passed base _ htrail hlength _ _
      have hlt := htrail.length_lt hwired
      omega
  | succ room ih =>
      intro length hroom moves state passed base hstate htrail hlength hloops hreturns
      have hproceeds : graph.Proceeds array settings start (passed.length + 1) :=
        ih (passed.length + 1) (by omega)
      have hplaced : Placed graph.index start.id passed base state := ⟨htrail, Or.inl hloops⟩
      apply State.halts_of_forall_running
      intro next hstep
      have hnext := stateAt?_succ.2 ⟨state, hstate, hstep⟩
      cases hplaced.course hwired (stateAt?_soundStack hstate) hstep with
      | plain _ harrival =>
          exact halts_of_arrival hproceeds hreturns hnext harrival
      | @entered node frame hnode hkind hbase hfresh hframe harrival =>
          rcases hends moves state node hstate hnode hkind (hbase ▸ hfresh) with ⟨count, hcount⟩
          have hcurrent : frame.node = state.current := by
            rw [hframe]
            exact index_node?_id hnode
          have hframeEnds : frame.Ends count := by
            rw [hframe]
            exact hcount
          -- Coming back to the loop ends as well, by the rounds it has left.
          have hreentry := returns_cons hwired htrail hproceeds hreturns count frame hcurrent
            hframeEnds
          exact halts_of_arrival hproceeds hreentry hnext harrival
      | iterated hbase =>
          exact absurd (hbase.symm.trans hloops) (List.cons_ne_self _ _)
      | completed hbase =>
          exact absurd (hbase.symm.trans hloops) (List.cons_ne_self _ _)

/-- A wired graph whose loops reach their bounds has runs that end. -/
theorem exists_outcome_of_loopsEnd (hwired : graph.Wired start)
    (hends : graph.LoopsEnd array settings) :
    ∃ moves outcome, graph.execute? array settings moves = some outcome := by
  have hinitial : graph.stateAt? array settings 0 = some (initialState start array settings) :=
    stateAt?_zero.2 ⟨start, [], hwired.starts, rfl⟩
  have hproceeds : graph.Proceeds array settings start 0 :=
    proceeds_of_loopsEnd hwired hends graph.nodes.length 0 (by omega)
  rcases hproceeds 0 _ [] [] hinitial Trail.start rfl rfl returns_nil with ⟨moves, run, hrun⟩
  refine ⟨moves, run.outcome, ?_⟩
  simp [execute?, hwired.starts, hrun]

/-! ## Graphs without loops -/

theorem kind_ne_forLoop (hfree : graph.nodesOfKind .forLoop = []) {id : NodeId} {node : Node}
    (hnode : graph.index.node? id = some node) : node.kind ≠ .forLoop := by
  intro hkind
  have hloop : node ∈ graph.nodesOfKind .forLoop := by
    simpa [nodesOfKind, hkind] using mem_of_node? (by simpa using hnode)
  simp [hfree] at hloop

/-- Without loops in the graph there are none on the stack. -/
theorem loops_eq_nil (hfree : graph.nodesOfKind .forLoop = []) {moves : Nat} {state : State}
    (hstate : graph.stateAt? array settings moves = some state) :
    state.run.context.loops = [] := by
  apply List.eq_nil_iff_forall_not_mem.2
  intro frame hmem
  rcases (stateAt?_soundStack hstate).found frame hmem with ⟨node, hnode, hkind⟩
  exact kind_ne_forLoop hfree hnode hkind

/-- Without loops every move makes the trail longer by one node and the trace by one step. -/
theorem stateAt?_straight (hwired : graph.Wired start) (hfree : graph.nodesOfKind .forLoop = [])
    {moves : Nat} {state : State} :
    graph.stateAt? array settings moves = some state →
      state.run.trace.size = moves ∧
        ∃ passed, passed.length = moves ∧ Trail graph.index start.id passed state.current [] := by
  induction moves generalizing state with
  | zero =>
      intro hstate
      rcases stateAt?_zero.1 hstate with ⟨first, others, hfirst, rfl⟩
      cases hwired.starts.symm.trans hfirst
      exact ⟨rfl, [], rfl, Trail.start⟩
  | succ moves ih =>
      intro hstate
      have hempty := loops_eq_nil hfree hstate
      rcases stateAt?_succ.1 hstate with ⟨middle, hmiddle, hstep⟩
      have hbefore := loops_eq_nil hfree hmiddle
      rcases ih hmiddle with ⟨hsize, passed, hlength, htrail⟩
      have hgrown : state.run.trace.size = moves + 1 := by
        cases State.move_of_step hstep with
        | onward => simp [hsize]
        -- There is no loop to go back to.
        | returned _ _ _ _ hloops => cases hempty.symm.trans hloops
      have hplaced : Placed graph.index start.id passed [] middle := ⟨htrail, Or.inl hbefore⟩
      cases hplaced.course hwired (stateAt?_soundStack hmiddle) hstep with
      | plain _ harrival =>
          cases harrival with
          | forward _ hlonger => exact ⟨hgrown, _, by simp [hlength], hlonger⟩
          | back _ hcons => cases hcons
      | entered hnode hkind => exact absurd hkind (kind_ne_forLoop hfree hnode)
      | iterated hloops => cases hbefore.symm.trans hloops
      | completed hloops => cases hbefore.symm.trans hloops

/-- Without loops a run comes to no id twice. -/
theorem eq_of_current_eq (hwired : graph.Wired start) (hfree : graph.nodesOfKind .forLoop = [])
    {first second : Nat} {state other : State}
    (hstate : graph.stateAt? array settings first = some state)
    (hother : graph.stateAt? array settings second = some other) :
    state.current = other.current → first = second := by
  intro hcurrent
  rcases stateAt?_straight hwired hfree hstate with ⟨-, passed, hpassed, htrail⟩
  rcases stateAt?_straight hwired hfree hother with ⟨-, among, hamong, hsecond⟩
  rw [← hcurrent] at hsecond
  -- Both moves stand at the end of the one trail to the node.
  have hsame : passed = among := (htrail.unique hwired hsecond).1
  rw [← hpassed, ← hamong, hsame]

/-- The last move of a run records at most two steps. -/
theorem size_le_of_ended {state : State} {run : Run}
    (hended : state.step graph.index settings.stepLimit = .ended run) :
    run.trace.size ≤ state.run.trace.size + 2 := by
  cases State.move_of_step hended <;> simp

/-- Without loops a run records a step for each node at most, and one more. -/
theorem length_steps_le (hwired : graph.Wired start) (hfree : graph.nodesOfKind .forLoop = [])
    {moves : Nat} {outcome : Outcome}
    (houtcome : graph.execute? array settings moves = some outcome) :
    outcome.steps.length ≤ graph.nodes.length + 1 := by
  rcases execute?_eq_some_iff.1 houtcome with
    ⟨hnone, -⟩ | ⟨before, -, last, run, hlast, hended, rfl⟩
  · cases hwired.starts.symm.trans hnone
  · rcases stateAt?_straight hwired hfree hlast with ⟨hsize, passed, hlength, htrail⟩
    have hroom : passed.length < graph.nodes.length := htrail.length_lt hwired
    have hsteps : run.outcome.steps.length ≤ last.run.trace.size + 2 := by
      simpa [Run.outcome] using size_le_of_ended hended
    calc run.outcome.steps.length
        ≤ last.run.trace.size + 2 := hsteps
      _ = passed.length + 2 := by rw [hsize, hlength]
      _ ≤ graph.nodes.length + 1 := by omega

/-- A swap between a start node and an end node. -/
def singleSwap : Graph where
  nodes := [Node.new "begin" .start, Node.new "swap" .arraySwap, Node.new "finish" .finish]
  connections :=
    [⟨⟨"begin", execOut, "swap", execIn⟩, "1"⟩, ⟨⟨"swap", execOut, "finish", execIn⟩, "2"⟩]

theorem loopsEnd_nestedSwaps : nestedSwaps.LoopsEnd #[2.0, 1.0] {} := by
  intro moves state node hstate hnode _ _
  -- The run is over after fifteen moves, so its states can be looked through.
  have hmoves : moves < 15 := by
    by_contra hle
    rcases exists_stateAt?_of_le (Nat.le_of_not_lt hle) hstate with ⟨other, hother⟩
    have hover : nestedSwaps.stateAt? #[2.0, 1.0] {} 15 = none := by decide +kernel
    cases hover.symm.trans hother
  have hbounds : ∀ before < 15, ∀ state ∈ nestedSwaps.stateAt? #[2.0, 1.0] {} before,
      ∀ node ∈ nestedSwaps.index.node? state.current,
        ¬ valueAfter (nestedSwaps.index.input state.run.context node "start").asNumber 2 <
          (nestedSwaps.index.input state.run.context node "end").asNumber := by
    decide +kernel
  exact ⟨2, hbounds moves hmoves state hstate node hnode⟩

/-- A run over a valid graph ends if the loops that it enters do.  If the graph has no loops, the
run ends in any case, performs no node twice and records at most one step more than there are
nodes. -/
theorem execute?_terminates (graph : Graph) (hids : (graph.nodes.map Node.id).Nodup)
    (hvalid : graph.validate.isValid = true) (array : Array Float) (settings : Settings) :
    (graph.LoopsEnd array settings →
      ∃ moves outcome, graph.execute? array settings moves = some outcome) ∧
    (graph.nodesOfKind .forLoop = [] →
      (∃ moves outcome, graph.execute? array settings moves = some outcome) ∧
      (∀ first second state other,
        graph.stateAt? array settings first = some state →
        graph.stateAt? array settings second = some other →
        state.current = other.current → first = second) ∧
      ∀ moves outcome, graph.execute? array settings moves = some outcome →
        outcome.steps.length ≤ graph.nodes.length + 1) := by
  rcases exists_wired hids hvalid with ⟨start, hwired⟩
  constructor
  · intro hends
    exact exists_outcome_of_loopsEnd hwired hends
  · intro hfree
    refine ⟨?_, ?_, ?_⟩
    · -- No loop is ever entered.
      apply exists_outcome_of_loopsEnd hwired
      intro moves state node _ hnode hkind _
      exact absurd hkind (kind_ne_forLoop hfree hnode)
    · intro first second state other hstate hother hcurrent
      exact eq_of_current_eq hwired hfree hstate hother hcurrent
    · intro moves outcome houtcome
      exact length_steps_le hwired hfree houtcome

/-- The runs over nested loops and over a single swap end, the latter within four steps. -/
theorem execute?_terminates_samples :
    (∃ moves outcome, nestedSwaps.execute? #[2.0, 1.0] {} moves = some outcome) ∧
    (∃ moves outcome, singleSwap.execute? #[2.0, 1.0] {} moves = some outcome ∧
      outcome.steps.length ≤ 4) := by
  have hnested := execute?_terminates nestedSwaps (by decide +kernel) (by decide +kernel)
    #[2.0, 1.0] {}
  have hsingle := execute?_terminates singleSwap (by decide +kernel) (by decide +kernel)
    #[2.0, 1.0] {}
  rcases hsingle.2 (by decide +kernel) with ⟨⟨moves, outcome, houtcome⟩, -, hbound⟩
  exact ⟨hnested.1 loopsEnd_nestedSwaps, moves, outcome, houtcome, hbound moves outcome houtcome⟩

end Graph
end FlowTrace
