import FlowTrace.Proofs.Execution.Trail

/-!
# Nesting of loops

In a valid graph loops nest.  A loop that has its turn again finds its own frame on top of the
stack, and an activation that was opened lies on the stack above the loops around it until it
reports its completion.

* `ActiveAbove` — an activation of a loop on top of the loops around it;
* `State.Completes` — the move with which an activation ends;
* `Graph.OpenedAt`, `Graph.ClosedAt` — an activation is opened by a move, and stays on the stack
  until another one completes it;
* `Graph.EndedInside` — the run ends first, at an end node or at the limit.
-/

namespace FlowTrace

/-- A stack on which an activation of a loop lies above the loops around it. -/
def ActiveAbove (loop : NodeId) (outer loops : List LoopFrame) : Prop :=
  ∃ inner frame, loops = inner ++ frame :: outer ∧ frame.node = loop

namespace ActiveAbove

variable {loop : NodeId} {outer loops : List LoopFrame} {top : LoopFrame}

theorem push (h : ActiveAbove loop outer loops) : ActiveAbove loop outer (top :: loops) := by
  rcases h with ⟨inner, frame, rfl, hframe⟩
  exact ⟨top :: inner, frame, rfl, hframe⟩

/-- An activation is on top of the stack or below its top. -/
theorem top_or_below (h : ActiveAbove loop outer (top :: loops)) :
    (top.node = loop ∧ loops = outer) ∨ ActiveAbove loop outer loops := by
  rcases h with ⟨inner, frame, hsplit, hframe⟩
  cases inner with
  | nil =>
      cases hsplit
      exact Or.inl ⟨hframe, rfl⟩
  | cons first rest =>
      cases hsplit
      exact Or.inr ⟨rest, frame, rfl, hframe⟩

theorem ne_nil (h : ActiveAbove loop outer loops) : loops ≠ [] := by
  rcases h with ⟨inner, frame, rfl, -⟩
  simp

/-- The loops around an activation are all below the top of the stack. -/
theorem mem_tail (h : ActiveAbove loop outer loops) {other : LoopFrame} :
    other ∈ outer → other ∈ loops.tail := by
  rcases h with ⟨inner, frame, rfl, -⟩
  intro hmem
  cases inner with
  | nil => exact hmem
  | cons first rest => simp [hmem]

end ActiveAbove

/-- Performing a node keeps an activation on the stack, or is its completion. -/
theorem Passage.active_or_completed {index : Index} {context : Context} {node : Node}
    {base : List LoopFrame} {effect : Effect} (h : Passage index context node base effect)
    {loop : NodeId} {outer : List LoopFrame} (hactive : ActiveAbove loop outer context.loops) :
    ActiveAbove loop outer effect.context.loops ∨
      ∃ frame, frame.node = loop ∧ frame.node = node.id ∧ context.loops = frame :: outer ∧
        effect.context.loops = outer ∧ effect.draft.Reports .loopComplete := by
  cases h with
  | finished hbase hloops =>
      rw [hloops, ← hbase]
      exact Or.inl hactive
  | plain hbase hloops =>
      rw [hloops, ← hbase]
      exact Or.inl hactive
  | entered _ hbase _ hloops =>
      rw [hloops, ← hbase]
      exact Or.inl hactive.push
  | @iterated frame _ hbase hloops =>
      -- The frame on top is replaced by one of the same loop.
      rw [hbase] at hactive
      rw [hloops]
      rcases hactive.top_or_below with ⟨hframe, rfl⟩ | hbelow
      · exact Or.inl ⟨[], frame.next, rfl, hframe⟩
      · exact Or.inl hbelow.push
  | @completed frame _ hnode hbase hloops _ _ hreports =>
      rw [hbase] at hactive
      rcases hactive.top_or_below with ⟨hframe, rfl⟩ | hbelow
      · exact Or.inr ⟨frame, hframe, hnode, hbase, hloops, hreports⟩
      · rw [hloops]
        exact Or.inl hbelow

namespace State

/-- The first step that a move adds to the trace shows an event. -/
def Records (index : Index) (stepLimit : Option Nat) (state : State) (event : Event) : Prop :=
  ∃ step, (state.step index stepLimit).run.trace[state.run.trace.size]? = some step ∧
    step.isEvent event = true

/-- A move completes a loop: its frame, which is on top of the stack, is taken off. -/
structure Completes (index : Index) (stepLimit : Option Nat) (state : State) (loop : NodeId)
    (outer : List LoopFrame) : Prop where
  current : state.current = loop
  before : ∃ frame, frame.node = loop ∧ state.run.context.loops = frame :: outer
  after : (state.step index stepLimit).run.context.loops = outer
  records : state.Records index stepLimit .loopComplete

end State

section Placed

variable {graph : Graph} {start : Node} {passed : List NodeId} {base : List LoopFrame}
  {state : State} (stepLimit : Option Nat)

/-- A move keeps an activation on the stack, or completes it. -/
theorem Placed.active_or_completes (hwired : graph.Wired start)
    (hplaced : Placed graph.index start.id passed base state)
    (hsound : SoundStack graph.index state.run.context.loops) {loop : NodeId}
    {outer : List LoopFrame} (hactive : ActiveAbove loop outer state.run.context.loops) :
    ActiveAbove loop outer (state.step graph.index stepLimit).run.context.loops ∨
      state.Completes graph.index stepLimit loop outer := by
  rcases state.stays_or_performs graph.index stepLimit with hstays | ⟨node, hnode, hloops, hstep⟩
  · rw [hstays]
    exact Or.inl hactive
  · rcases (hplaced.passage hwired hsound hnode).active_or_completed hactive with
      hactive | ⟨frame, hframe, hsame, hbefore, hafter, hreports⟩
    · rw [hloops]
      exact Or.inl hactive
    · have hcurrent : state.current = loop := by
        rw [← hframe, hsame, Graph.index_node?_id hnode]
      exact Or.inr ⟨hcurrent, ⟨frame, hframe, hbefore⟩, hloops.trans hafter, _, hstep,
        (Step.isEvent_snapshot_iff hreports).2 rfl⟩

/-- A frame that a move puts on the stack belongs to the node that the run stands at. -/
theorem Placed.node_of_pushed (hwired : graph.Wired start)
    (hplaced : Placed graph.index start.id passed base state)
    (hsound : SoundStack graph.index state.run.context.loops) {stepLimit : Option Nat}
    {frame : LoopFrame} (hpushed : (state.step graph.index stepLimit).run.context.loops =
      frame :: state.run.context.loops) :
    frame.node = state.current := by
  -- Only entering a loop makes the stack longer.
  rcases state.stays_or_performs graph.index stepLimit with hstays | ⟨node, hnode, hloops, -⟩
  · rw [hstays] at hpushed
    exact absurd hpushed.symm (List.cons_ne_self _ _)
  · rw [hloops] at hpushed
    have hid : node.id = state.current := Graph.index_node?_id hnode
    cases hplaced.passage hwired hsound hnode with
    | finished hbase hafter =>
        rw [hafter, hbase] at hpushed
        exact absurd hpushed.symm (List.cons_ne_self _ _)
    | plain hbase hafter =>
        rw [hafter, hbase] at hpushed
        exact absurd hpushed.symm (List.cons_ne_self _ _)
    | entered _ hbase _ hafter =>
        rw [hafter, hbase] at hpushed
        cases hpushed
        exact hid
    | iterated _ hbase hafter =>
        rw [hafter, hbase] at hpushed
        cases hpushed
    | completed _ hbase hafter =>
        rw [hafter, hbase] at hpushed
        cases hpushed

/-- While an activation is on the stack, no loop around it has its turn. -/
theorem Placed.ne_of_active (hwired : graph.Wired start)
    (hplaced : Placed graph.index start.id passed base state) {loop : NodeId}
    {outer : List LoopFrame} (hactive : ActiveAbove loop outer state.run.context.loops)
    {other : LoopFrame} (hmem : other ∈ outer) : state.current ≠ other.node := by
  intro hcurrent
  -- Below the top the stack is that of the trail, and no trail passes the node that it leads to.
  have hbase : other ∈ base := by
    have htail := hactive.mem_tail hmem
    rcases hplaced.stack with hloops | ⟨top, -, hloops⟩
    · rw [hloops] at htail
      exact List.mem_of_mem_tail htail
    · simpa [hloops] using htail
  exact hplaced.trail.not_mem_active hwired (List.mem_map.2 ⟨other, hbase, hcurrent.symm⟩)

/-- A loop that has its turn again finds its own frame on top of the stack, and touches no other. -/
theorem Placed.own_frame_on_top (hwired : graph.Wired start)
    (hplaced : Placed graph.index start.id passed base state)
    (hsound : SoundStack graph.index state.run.context.loops) {node : Node} {frame : LoopFrame}
    (hnode : graph.index.node? state.current = some node)
    (hmem : frame ∈ state.run.context.loops) (hframe : frame.node = node.id) :
    ∃ outer, state.run.context.loops = frame :: outer ∧
      ((graph.index.perform state.run.context node).context.loops = frame.next :: outer ∨
        (graph.index.perform state.run.context node).context.loops = outer) := by
  have hid : node.id = state.current := Graph.index_node?_id hnode
  have hbelow : frame ∉ base := by
    intro hbase
    exact hplaced.trail.not_mem_active hwired
      (List.mem_map.2 ⟨frame, hbase, hframe.trans hid⟩)
  have hloops : state.run.context.loops ≠ base := by
    intro hsame
    exact hbelow (hsame ▸ hmem)
  cases hplaced.passage hwired hsound hnode with
  | finished hbase => exact absurd hbase hloops
  | plain hbase => exact absurd hbase hloops
  | entered _ hbase => exact absurd hbase hloops
  | @iterated top _ hbase hafter =>
      have htop : frame = top := by
        simpa [hbase, hbelow] using hmem
      rw [htop]
      exact ⟨base, hbase, Or.inl hafter⟩
  | @completed top _ _ hbase hafter =>
      have htop : frame = top := by
        simpa [hbase, hbelow] using hmem
      rw [htop]
      exact ⟨base, hbase, Or.inr hafter⟩

end Placed

namespace Graph

variable {graph : Graph} {start : Node} {array : Array Float} {settings : Settings}

/-- An activation lies on the stack, above the loops around it, in every state after its opening and
up to a last one. -/
def ActiveThrough (graph : Graph) (array : Array Float) (settings : Settings) (opening : Nat)
    (loop : NodeId) (outer : List LoopFrame) (last : Nat) : Prop :=
  ∀ moves state, opening < moves → moves ≤ last →
    graph.stateAt? array settings moves = some state →
      ActiveAbove loop outer state.run.context.loops

theorem ActiveThrough.succ {opening last : Nat} {loop : NodeId} {outer : List LoopFrame}
    (h : graph.ActiveThrough array settings opening loop outer last)
    (hnext : ∀ state, graph.stateAt? array settings (last + 1) = some state →
      ActiveAbove loop outer state.run.context.loops) :
    graph.ActiveThrough array settings opening loop outer (last + 1) := by
  intro moves state hafter hbefore hstate
  rcases Nat.lt_or_eq_of_le hbefore with hlt | rfl
  · exact h moves state hafter (Nat.le_of_lt_succ hlt) hstate
  · exact hnext state hstate

/-- A move opens an activation: from its state it puts a frame on the stack. -/
structure OpenedAt (graph : Graph) (array : Array Float) (settings : Settings) (opening : Nat)
    (state : State) : Prop where
  reached : graph.stateAt? array settings opening = some state
  pushed : ∃ frame, (state.step graph.index settings.stepLimit).run.context.loops =
    frame :: state.run.context.loops

/-- An activation opened by one move lies on the stack until a later move completes it. -/
structure ClosedAt (graph : Graph) (array : Array Float) (settings : Settings) (opening : Nat)
    (loop : NodeId) (outer : List LoopFrame) (closing : Nat) : Prop where
  later : opening < closing
  active : graph.ActiveThrough array settings opening loop outer closing
  completes : ∃ state, graph.stateAt? array settings closing = some state ∧
    state.Completes graph.index settings.stepLimit loop outer

/-- A run ends inside of an activation: it is still on the stack after the last move. -/
structure EndedInside (graph : Graph) (array : Array Float) (settings : Settings) (opening : Nat)
    (loop : NodeId) (outer : List LoopFrame) (outcome : Outcome) : Prop where
  ended : ∃ last state run, opening < last ∧
    graph.ActiveThrough array settings opening loop outer last ∧
    graph.stateAt? array settings last = some state ∧
    state.step graph.index settings.stepLimit = .ended run ∧
    ActiveAbove loop outer run.context.loops
  reason : outcome.completed = true ∨ ∃ limit, outcome.error = some (.stepLimitExceeded limit)

section Activation

variable {opening : Nat} {state : State}

/-- An activation lies on the stack right after the move that opens it. -/
theorem activeThrough_opened (hwired : graph.Wired start)
    (hopened : graph.OpenedAt array settings opening state) :
    graph.ActiveThrough array settings opening state.current state.run.context.loops
      (opening + 1) := by
  intro moves later hafter hbefore hlater
  rcases hopened with ⟨hstate, frame, hpushed⟩
  have hmoves : moves = opening + 1 := Nat.le_antisymm hbefore hafter
  rw [hmoves] at hlater
  rcases stateAt?_succ.1 hlater with ⟨same, hsame, hstep⟩
  cases hstate.symm.trans hsame
  rcases stateAt?_placed hwired hstate with ⟨passed, base, hplaced⟩
  have hnode := hplaced.node_of_pushed hwired (stateAt?_soundStack hstate) hpushed
  have hloops : later.run.context.loops = frame :: state.run.context.loops := by
    simpa [hstep] using hpushed
  exact ⟨[], frame, hloops, hnode⟩

/-- After an activation has been opened it is closed, or still on the stack. -/
theorem closed_or_active (hwired : graph.Wired start)
    (hopened : graph.OpenedAt array settings opening state) :
    ∀ moves, opening < moves →
      (∃ closing < moves, graph.ClosedAt array settings opening state.current
        state.run.context.loops closing) ∨
      graph.ActiveThrough array settings opening state.current state.run.context.loops moves := by
  intro moves hlater
  induction moves, hlater using Nat.le_induction with
  | base =>
      exact Or.inr (activeThrough_opened hwired hopened)
  | succ moves hlater ih =>
      rcases ih with ⟨closing, hlt, hclosed⟩ | hactive
      · exact Or.inl ⟨closing, Nat.lt_succ_of_lt hlt, hclosed⟩
      · -- The last of the states before decides whether the activation lasts another move.
        cases hlast : graph.stateAt? array settings moves with
        | none =>
            refine Or.inr (hactive.succ ?_)
            intro later hsome
            rcases stateAt?_succ.1 hsome with ⟨last, hfound, -⟩
            cases hlast.symm.trans hfound
        | some last =>
            rcases stateAt?_placed hwired hlast with ⟨passed, base, hplaced⟩
            have hmove := hplaced.active_or_completes settings.stepLimit hwired
              (stateAt?_soundStack hlast) (hactive moves last hlater (Nat.le_refl moves) hlast)
            rcases hmove with hkept | hcompletes
            · refine Or.inr (hactive.succ ?_)
              intro later hsome
              rcases stateAt?_succ.1 hsome with ⟨same, hsame, hstep⟩
              cases hlast.symm.trans hsame
              simpa [hstep] using hkept
            · exact Or.inl ⟨moves, Nat.lt_succ_self moves, hlater, hactive, last, hlast, hcompletes⟩

/-- A move that opens an activation does not end the run. -/
theorem OpenedAt.not_ended (hopened : graph.OpenedAt array settings opening state) {run : Run} :
    state.step graph.index settings.stepLimit ≠ .ended run := by
  intro hended
  rcases hopened with ⟨hstate, frame, hpushed⟩
  rw [hended] at hpushed
  have hsound := stateAt?_soundStack hstate
  cases State.move_of_step hended with
  | limitReached =>
      exact List.cons_ne_self _ _ hpushed.symm
  | nodeMissing =>
      exact List.cons_ne_self _ _ hpushed.symm
  | @finished node _ _ hexit =>
      have hframed := graph.index.framed_perform state.run.context node
      have hkind : node.kind ≠ .forLoop := by simp [hframed.exit.1 hexit]
      exact List.cons_ne_self _ _ ((hframed.loops hkind).symm.trans hpushed).symm
  | pathEnded _ _ _ _ hempty =>
      cases hempty.symm.trans hpushed
  | loopLost _ hnode _ _ hcons hlost =>
      exact hsound.not_lost (index_node?_self hnode) hcons hlost

/-- The last move of a run closes an activation on the stack, or leaves it there; then it reaches an
end node or the limit. -/
theorem completes_or_reason (hwired : graph.Wired start) {moves : Nat} {loop : NodeId}
    {outer : List LoopFrame} {run : Run}
    (hstate : graph.stateAt? array settings moves = some state)
    (hactive : ActiveAbove loop outer state.run.context.loops)
    (hended : state.step graph.index settings.stepLimit = .ended run) :
    state.Completes graph.index settings.stepLimit loop outer ∨
      (ActiveAbove loop outer run.context.loops ∧
        (run.context.completed = true ∨
          ∃ limit, run.context.error = some (.stepLimitExceeded limit))) := by
  rcases stateAt?_placed hwired hstate with ⟨passed, base, hplaced⟩
  have hsound := stateAt?_soundStack hstate
  have hmove := hplaced.active_or_completes settings.stepLimit hwired hsound hactive
  rcases hmove with hkept | hcompletes
  · rw [hended] at hkept
    refine Or.inr ⟨hkept, ?_⟩
    cases State.move_of_step hended with
    | limitReached =>
        exact Or.inr ⟨_, rfl⟩
    | nodeMissing _ hmissing =>
        -- A trail leads to the node, so it exists.
        have hfound := hplaced.trail.found hwired state.current List.mem_cons_self
        simp [← index_node?, hmissing] at hfound
    | @finished node _ _ hexit =>
        have hkind := (graph.index.framed_perform state.run.context node).exit.1 hexit
        refine Or.inl ?_
        simp [Index.perform_of_finish graph.index _ node hkind, Context.performEnd]
    | pathEnded _ _ _ _ hempty =>
        -- A path ends only outside of loops.
        exact absurd hempty hkept.ne_nil
    | loopLost _ hnode _ _ hcons hlost =>
        exact absurd hlost (hsound.not_lost (index_node?_self hnode) hcons)
  · exact Or.inl hcompletes

/-- The move that ends a run comes after all those that open an activation. -/
theorem OpenedAt.lt_of_ended (hopened : graph.OpenedAt array settings opening state)
    {moves : Nat} {last : State} {run : Run}
    (hlast : graph.stateAt? array settings moves = some last)
    (hended : last.step graph.index settings.stepLimit = .ended run) : opening < moves := by
  rcases Nat.lt_trichotomy opening moves with hlt | rfl | hgt
  · exact hlt
  · cases hopened.reached.symm.trans hlast
    exact absurd hended hopened.not_ended
  · -- Nothing follows the move that ends a run.
    rcases exists_stateAt?_of_le hgt hopened.reached with ⟨next, hnext⟩
    rcases stateAt?_succ.1 hnext with ⟨same, hsame, hstep⟩
    cases hlast.symm.trans hsame
    cases hended.symm.trans hstep

end Activation

/-- Loops nest in a valid graph.  A loop that has its turn again finds its own frame on top of the
stack, and touches no other.  An activation is closed before a loop around it has its turn again;
and by the end of a run it is closed, unless an end node or the limit ends the run inside of it. -/
theorem loops_nest (graph : Graph) (hids : (graph.nodes.map Node.id).Nodup)
    (hvalid : graph.validate.isValid = true) (array : Array Float) (settings : Settings) :
    (∀ moves state node frame,
      graph.stateAt? array settings moves = some state →
      graph.index.node? state.current = some node →
      frame ∈ state.run.context.loops → frame.node = node.id →
      ∃ outer, state.run.context.loops = frame :: outer ∧
        ((graph.index.perform state.run.context node).context.loops = frame.next :: outer ∨
          (graph.index.perform state.run.context node).context.loops = outer)) ∧
    (∀ opening state, graph.OpenedAt array settings opening state →
      (∀ moves later enclosing, opening < moves →
        graph.stateAt? array settings moves = some later →
        enclosing ∈ state.run.context.loops → later.current = enclosing.node →
        ∃ closing < moves, graph.ClosedAt array settings opening state.current
          state.run.context.loops closing) ∧
      (∀ moves outcome, graph.execute? array settings moves = some outcome →
        (∃ closing, graph.ClosedAt array settings opening state.current
          state.run.context.loops closing) ∨
        graph.EndedInside array settings opening state.current state.run.context.loops
          outcome)) := by
  rcases exists_wired hids hvalid with ⟨start, hwired⟩
  constructor
  · intro moves state node frame hstate hnode hmem hframe
    rcases stateAt?_placed hwired hstate with ⟨passed, base, hplaced⟩
    exact hplaced.own_frame_on_top hwired (stateAt?_soundStack hstate) hnode hmem hframe
  · intro opening state hopened
    have hlasts := closed_or_active hwired hopened
    constructor
    · intro moves later enclosing hafter hlater hmem hcurrent
      rcases hlasts moves hafter with hclosed | hactive
      · exact hclosed
      · rcases stateAt?_placed hwired hlater with ⟨passed, base, hplaced⟩
        have hopen := hactive moves later hafter (Nat.le_refl moves) hlater
        exact absurd hcurrent (hplaced.ne_of_active hwired hopen hmem)
    · intro moves outcome houtcome
      rcases execute?_eq_some_iff.1 houtcome with
        ⟨hnone, -⟩ | ⟨before, -, last, run, hlast, hended, rfl⟩
      · rw [hwired.starts] at hnone
        cases hnone
      · have hafter := hopened.lt_of_ended hlast hended
        rcases hlasts before hafter with ⟨closing, -, hclosed⟩ | hactive
        · exact Or.inl ⟨closing, hclosed⟩
        · have hopen := hactive before last hafter (Nat.le_refl before) hlast
          rcases completes_or_reason hwired hlast hopen hended with hcompletes | ⟨hkept, hreason⟩
          · exact Or.inl ⟨before, hafter, hactive, last, hlast, hcompletes⟩
          · exact Or.inr ⟨⟨before, last, run, hafter, hactive, hlast, hended, hkept⟩, hreason⟩

/-- In the run over nested loops the inner loop, entered by the third move, is closed before the
outer loop has its turn again; and coming back to it finds its frame on top. -/
theorem loops_nest_nestedSwaps :
    ∃ state later again outer, nestedSwaps.stateAt? #[2.0, 1.0] {} 2 = some state ∧
      nestedSwaps.stateAt? #[2.0, 1.0] {} 7 = some later ∧
      nestedSwaps.stateAt? #[2.0, 1.0] {} 4 = some again ∧
      state.current = "columns" ∧ later.current = "rows" ∧ again.current = "columns" ∧
      again.run.context.loops = ⟨"columns", "i", 0.0, 2.0, 0⟩ :: outer ∧
      ∃ closing < 7, nestedSwaps.ClosedAt #[2.0, 1.0] {} 2 state.current state.run.context.loops
        closing := by
  have hnest := loops_nest nestedSwaps (by decide +kernel) (by decide +kernel) #[2.0, 1.0] {}
  have hfirst : (nestedSwaps.stateAt? #[2.0, 1.0] {} 2).isSome = true := by decide +kernel
  have hsecond : (nestedSwaps.stateAt? #[2.0, 1.0] {} 7).isSome = true := by decide +kernel
  have hthird : (nestedSwaps.stateAt? #[2.0, 1.0] {} 4).isSome = true := by decide +kernel
  have hopening : ∀ state ∈ nestedSwaps.stateAt? #[2.0, 1.0] {} 2,
      state.current = "columns" ∧
      (state.step nestedSwaps.index none).run.context.loops =
        ⟨"columns", "i", 0.0, 2.0, 0⟩ :: state.run.context.loops ∧
      ⟨"rows", "i", 0.0, 2.0, 0⟩ ∈ state.run.context.loops := by
    decide +kernel
  have hturn : ∀ later ∈ nestedSwaps.stateAt? #[2.0, 1.0] {} 7, later.current = "rows" := by
    decide +kernel
  have hback : ∀ again ∈ nestedSwaps.stateAt? #[2.0, 1.0] {} 4,
      again.current = "columns" ∧ ⟨"columns", "i", 0.0, 2.0, 0⟩ ∈ again.run.context.loops ∧
      (nestedSwaps.index.node? again.current).isSome = true := by
    decide +kernel
  rcases Option.isSome_iff_exists.1 hfirst with ⟨state, hstate⟩
  rcases Option.isSome_iff_exists.1 hsecond with ⟨later, hlater⟩
  rcases Option.isSome_iff_exists.1 hthird with ⟨again, hagain⟩
  rcases hopening state hstate with ⟨hcurrent, hpushed, hmem⟩
  rcases hback again hagain with ⟨hsame, hown, hfound⟩
  rcases Option.isSome_iff_exists.1 hfound with ⟨node, hnode⟩
  have hid : "columns" = node.id := hsame.symm.trans (index_node?_id hnode).symm
  rcases hnest.1 4 again node _ hagain hnode hown hid with ⟨outer, htop, -⟩
  refine ⟨state, later, again, outer, hstate, hlater, hagain, hcurrent, hturn later hlater, hsame,
    htop, ?_⟩
  exact (hnest.2 2 state ⟨hstate, _, hpushed⟩).1 7 later _ (by decide) hlater hmem
    (hturn later hlater)

end Graph
end FlowTrace
