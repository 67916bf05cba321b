import FlowTrace.Proofs.Execution.LoopStack
import FlowTrace.Proofs.Graph.Wiring

/-!
# Trails through a valid graph

In a valid graph every node is reached from the start node in one way only.  A trail is that way,
and it determines which loops are active at the node it leads to: those that it left by their body.

* `Trail` — a way along execution connections from the start node;
* `Trail.unique`, `Trail.nodup`, `Trail.length_lt` — a trail is determined by its end, passes no
  node twice and is no longer than the graph has nodes;
* `Placed` — the stack of loops of a run is that of the trail to the node it stands at, where the
  loop at that node may be on top;
* `Passage`, `Course` — what a move does to the stack of a run so placed.
-/

namespace FlowTrace

/-- A way from the start node to a node along execution connections.  `passed` lists the nodes in
between, the latest first, and `active` those of them that were left by their body. -/
inductive Trail (index : Index) (start : NodeId) : List NodeId → NodeId → List NodeId → Prop where
  | start : Trail index start [] start []
  | onward {passed active : List NodeId} {node next : NodeId} {handle : String} :
      Trail index start passed node active → index.next? node handle = some next →
      Trail index start (node :: passed) next (if handle = "body" then node :: active else active)

namespace Trail

variable {graph : Graph} {start : Node} {passed other active : List NodeId} {node : NodeId}

/-- A trail is determined by the node it leads to. -/
theorem unique (hwired : graph.Wired start) {loops : List NodeId} :
    Trail graph.index start.id passed node active → Trail graph.index start.id other node loops →
      passed = other ∧ active = loops := by
  intro hfirst hsecond
  induction hfirst generalizing other loops with
  | start =>
      cases hsecond with
      | start => exact ⟨rfl, rfl⟩
      | onward _ hnext => exact absurd hnext hwired.start_first
  | onward _ hnext ih =>
      cases hsecond with
      | start => exact absurd hnext hwired.start_first
      | onward hrest hsame =>
          -- No two connections lead to one node, so the two trails came by the same one.
          rcases hwired.source_unique hnext hsame with ⟨rfl, rfl⟩
          rcases ih hrest with ⟨rfl, rfl⟩
          exact ⟨rfl, rfl⟩

/-- Each node passed is itself the end of a shorter trail. -/
theorem exists_of_mem {index : Index} {first earlier : NodeId}
    (h : Trail index first passed node active) :
    earlier ∈ passed → ∃ before loops, Trail index first before earlier loops ∧
      before.length < passed.length := by
  intro hmem
  induction h with
  | start =>
      cases hmem
  | @onward passed active middle next handle hrest hnext ih =>
      rcases List.mem_cons.1 hmem with rfl | hmem
      · exact ⟨passed, active, hrest, Nat.lt_succ_self _⟩
      · rcases ih hmem with ⟨before, loops, hbefore, hlt⟩
        exact ⟨before, loops, hbefore, Nat.lt_succ_of_lt hlt⟩

theorem not_mem (hwired : graph.Wired start)
    (h : Trail graph.index start.id passed node active) : node ∉ passed := by
  intro hmem
  -- A trail to a node that it passes would be longer than itself.
  rcases h.exists_of_mem hmem with ⟨before, loops, hbefore, hlt⟩
  have hsame : before = passed := (hbefore.unique hwired h).1
  rw [hsame] at hlt
  exact Nat.lt_irrefl _ hlt

/-- The ids of a trail are different. -/
theorem nodup (hwired : graph.Wired start)
    (h : Trail graph.index start.id passed node active) : (node :: passed).Nodup := by
  induction h with
  | start =>
      simp
  | onward hrest hnext ih =>
      exact List.nodup_cons.2 ⟨(hrest.onward hnext).not_mem hwired, ih⟩

theorem found (hwired : graph.Wired start)
    (h : Trail graph.index start.id passed node active) :
    ∀ id ∈ node :: passed, (graph.node? id).isSome = true := by
  induction h with
  | start =>
      intro id hmem
      have hid : id = start.id := by simpa using hmem
      simp [hid, hwired.start_found]
  | onward hrest hnext ih =>
      intro id hmem
      rcases List.mem_cons.1 hmem with rfl | hmem
      · exact hwired.target_found hnext
      · exact ih id hmem

/-- A trail passes fewer nodes than the graph has. -/
theorem length_lt (hwired : graph.Wired start)
    (h : Trail graph.index start.id passed node active) : passed.length < graph.nodes.length := by
  have hsubset : node :: passed ⊆ graph.nodes.map Node.id := by
    intro id hmem
    rcases Option.isSome_iff_exists.1 (h.found hwired id hmem) with ⟨found, hfound⟩
    exact List.mem_map.2 ⟨found, Graph.mem_of_node? hfound, Graph.node?_id hfound⟩
  have hle := (h.nodup hwired).length_le_of_subset hsubset
  exact Nat.lt_of_succ_le (by simpa using hle)

theorem active_subset {index : Index} {first : NodeId}
    (h : Trail index first passed node active) : active ⊆ passed := by
  induction h with
  | start =>
      exact List.Subset.refl _
  | onward _ _ ih =>
      split
      · exact List.cons_subset_cons _ ih
      · exact List.subset_cons_of_subset _ ih

/-- The node that a trail leads to is not among the loops active there. -/
theorem not_mem_active (hwired : graph.Wired start)
    (h : Trail graph.index start.id passed node active) : node ∉ active := by
  intro hmem
  exact h.not_mem hwired (h.active_subset hmem)

/-- Below the innermost active loop the active loops are those of the trail to that loop. -/
theorem exists_enclosing {index : Index} {first loop : NodeId} {rest : List NodeId} :
    Trail index first passed node (loop :: rest) →
      ∃ before, Trail index first before loop rest := by
  intro h
  generalize hactive : loop :: rest = loops at h
  induction h with
  | start =>
      cases hactive
  | onward hrest hnext ih =>
      -- The innermost active loop is the last node that was left by its body.
      split at hactive
      · cases hactive
        exact ⟨_, hrest⟩
      · exact ih hactive

end Trail

/-! ## Where a run stands -/

/-- The stack of a run at a node: `base` holds the loops of the trail to that node, and if the run
has come back to a loop, the frame of that loop lies on top. -/
structure Placed (index : Index) (start : NodeId) (passed : List NodeId) (base : List LoopFrame)
    (state : State) : Prop where
  trail : Trail index start passed state.current (base.map LoopFrame.node)
  stack : state.run.context.loops = base ∨
    ∃ frame, frame.node = state.current ∧ state.run.context.loops = frame :: base

/-- What performing a node does to a stack of which `base` belongs to the trail. -/
inductive Passage (index : Index) (context : Context) (node : Node) (base : List LoopFrame)
    (effect : Effect) : Prop where
  | finished :
      context.loops = base → effect.context.loops = base → effect.exit = none →
      Passage index context node base effect
  | plain {handle : String} :
      context.loops = base → effect.context.loops = base → effect.exit = some handle →
      handle ≠ "body" → Passage index context node base effect
  | entered :
      node.kind = .forLoop → context.loops = base →
      (∀ frame ∈ base, frame.node ≠ node.id) →
      effect.context.loops = LoopFrame.entry node (index.input context node) :: base →
      effect.exit = some "body" →
      (LoopFrame.entry node (index.input context node)).current <
        (LoopFrame.entry node (index.input context node)).bound →
      Passage index context node base effect
  | iterated {frame : LoopFrame} :
      frame.node = node.id → context.loops = frame :: base →
      effect.context.loops = frame.next :: base → effect.exit = some "body" →
      frame.next.current < frame.bound → Passage index context node base effect
  | completed {frame : LoopFrame} {handle : String} :
      frame.node = node.id → context.loops = frame :: base → effect.context.loops = base →
      effect.exit = some handle → handle ≠ "body" → effect.draft.Reports .loopComplete →
      Passage index context node base effect

section Stack

variable {graph : Graph} {start : Node} {passed : List NodeId} {base : List LoopFrame}
  {state : State} {node : Node}

/-- The frames of a loop that a placed run stands at: none, or the one on top. -/
theorem Placed.split (hwired : graph.Wired start)
    (hplaced : Placed graph.index start.id passed base state) {inner outer : List LoopFrame}
    {frame : LoopFrame} (hsplit : state.run.context.loops = inner ++ frame :: outer)
    (hframe : frame.node = state.current) (hinner : ∀ other ∈ inner, other.node ≠ state.current) :
    inner = [] ∧ outer = base := by
  have habsent : ∀ other ∈ base, other.node ≠ state.current := by
    intro other hmem hsame
    exact hplaced.trail.not_mem_active hwired (List.mem_map.2 ⟨other, hmem, hsame⟩)
  rcases hplaced.stack with hbase | ⟨top, htop, hcons⟩
  · have hmem : frame ∈ base := by
      rw [← hbase, hsplit]
      simp
    exact absurd hframe (habsent frame hmem)
  · rw [hcons] at hsplit
    cases inner with
    | nil =>
        cases hsplit
        exact ⟨rfl, rfl⟩
    | cons first rest =>
        -- The frame on top belongs to the node, so nothing lies in front of it.
        cases hsplit
        exact absurd htop (hinner top List.mem_cons_self)

/-- Performing a node of a placed run has one of the effects listed. -/
theorem Placed.passage (hwired : graph.Wired start)
    (hplaced : Placed graph.index start.id passed base state)
    (hsound : SoundStack graph.index state.run.context.loops)
    (hnode : graph.index.node? state.current = some node) :
    Passage graph.index state.run.context node base
      (graph.index.perform state.run.context node) := by
  have hid : node.id = state.current := Graph.index_node?_id hnode
  by_cases hkind : node.kind = .forLoop
  · -- Where no frame of the loop is on the stack, the frame on top is not one of it either.
    have hbase : (∀ frame ∈ state.run.context.loops, frame.node ≠ node.id) →
        state.run.context.loops = base := by
      intro hfresh
      rcases hplaced.stack with hbase | ⟨top, htop, hcons⟩
      · exact hbase
      · exact absurd (htop.trans hid.symm) (hfresh top (by simp [hcons]))
    have hvisit := graph.index.loopVisit_perform state.run.context node hkind
    generalize graph.index.perform state.run.context node = effect at hvisit
    cases hvisit with
    | entered hfresh hlt =>
        have hloops := hbase hfresh
        refine Passage.entered hkind hloops ?_ ?_ rfl hlt
        · rw [← hloops]
          exact hfresh
        · rw [← hloops]
          rfl
    | skipped hfresh =>
        exact Passage.plain (hbase hfresh) (hbase hfresh) rfl (by decide)
    | iterated hsplit hframe hinner hlt =>
        rw [hid] at hinner hframe
        rcases hplaced.split hwired hsplit hframe hinner with ⟨rfl, rfl⟩
        exact Passage.iterated (hframe.trans hid.symm) hsplit rfl rfl hlt
    | completed hsplit hframe hinner =>
        rw [hid] at hinner hframe
        rcases hplaced.split hwired hsplit hframe hinner with ⟨rfl, rfl⟩
        exact Passage.completed (hframe.trans hid.symm) hsplit rfl rfl (by decide)
          (Context.reports_finished _ _)
  · have hframed := graph.index.framed_perform state.run.context node
    have hloops : state.run.context.loops = base := by
      rcases hplaced.stack with hbase | ⟨top, htop, hcons⟩
      · exact hbase
      · -- A frame on top would belong to the node, which is no loop.
        rcases hsound.found top (by simp [hcons]) with ⟨loopNode, hfound, hloop⟩
        rw [htop, hnode] at hfound
        cases hfound
        exact absurd hloop hkind
    cases hexit : (graph.index.perform state.run.context node).exit with
    | none =>
        exact Passage.finished hloops ((hframed.loops hkind).trans hloops) hexit
    | some handle =>
        refine Passage.plain hloops ((hframed.loops hkind).trans hloops) hexit ?_
        rintro rfl
        exact hframed.body hkind hexit

end Stack

/-! ## Where a move leads -/

/-- A run that leaves a node with a stack of loops goes forward to a new node, or back to the loop
on top of that stack. -/
inductive Arrival (index : Index) (start : NodeId) (passed : List NodeId) (loops : List LoopFrame)
    (next : State) : Prop where
  | forward :
      next.run.context.loops = loops →
      Trail index start passed next.current (loops.map LoopFrame.node) →
      Arrival index start passed loops next
  | back {before : List NodeId} {frame : LoopFrame} {outer : List LoopFrame} :
      next.run.context.loops = loops → loops = frame :: outer → next.current = frame.node →
      Trail index start before frame.node (outer.map LoopFrame.node) →
      Arrival index start passed loops next

/-- What a move that goes on does to the stack of a placed run. -/
inductive Course (index : Index) (start : NodeId) (passed : List NodeId) (base : List LoopFrame)
    (state next : State) : Prop where
  | plain :
      state.run.context.loops = base → Arrival index start (state.current :: passed) base next →
      Course index start passed base state next
  | entered {node : Node} {frame : LoopFrame} :
      index.node? state.current = some node → node.kind = .forLoop →
      state.run.context.loops = base → (∀ other ∈ base, other.node ≠ node.id) →
      frame = .entry node (index.input state.run.context node) →
      Arrival index start (state.current :: passed) (frame :: base) next →
      Course index start passed base state next
  | iterated {frame : LoopFrame} :
      state.run.context.loops = frame :: base →
      Arrival index start (state.current :: passed) (frame.next :: base) next →
      Course index start passed base state next
  | completed {frame : LoopFrame} :
      state.run.context.loops = frame :: base →
      Arrival index start (state.current :: passed) base next →
      Course index start passed base state next

theorem Arrival.placed {index : Index} {start : NodeId} {passed : List NodeId}
    {loops : List LoopFrame} {next : State} (h : Arrival index start passed loops next) :
    ∃ passed base, Placed index start passed base next := by
  cases h with
  | forward hloops htrail =>
      exact ⟨passed, loops, htrail, Or.inl hloops⟩
  | @back before frame outer hloops hcons hcurrent htrail =>
      refine ⟨before, outer, ?_, Or.inr ⟨frame, hcurrent.symm, hloops.trans hcons⟩⟩
      rw [hcurrent]
      exact htrail

theorem Course.placed {index : Index} {start : NodeId} {passed : List NodeId}
    {base : List LoopFrame} {state next : State} (h : Course index start passed base state next) :
    ∃ passed base, Placed index start passed base next := by
  cases h with
  | plain _ harrival => exact harrival.placed
  | entered _ _ _ _ _ harrival => exact harrival.placed
  | iterated _ harrival => exact harrival.placed
  | completed _ harrival => exact harrival.placed

section Moves

variable {graph : Graph} {start : Node} {passed : List NodeId} {base : List LoopFrame}
  {state next : State}

/-- A run leaves a node along the connection of an output, or goes back to the loop on top. -/
theorem exists_exit_of_step {stepLimit : Option Nat}
    (hstep : state.step graph.index stepLimit = .running next) :
    ∃ node handle, graph.index.node? state.current = some node ∧
      (graph.index.perform state.run.context node).exit = some handle ∧
      next.run.context.loops = (graph.index.perform state.run.context node).context.loops ∧
      (graph.index.next? state.current handle = some next.current ∨
        ∃ frame outer, next.run.context.loops = frame :: outer ∧ next.current = frame.node) := by
  have hmove := State.move_of_step hstep
  cases hmove with
  | @onward node handle target _ hnode hexit hnext =>
      refine ⟨node, handle, hnode, hexit, rfl, Or.inl ?_⟩
      rw [← Graph.index_node?_id hnode]
      exact hnext
  | @returned node loopNode handle frame outer _ hnode hexit _ hloops hloop =>
      exact ⟨node, handle, hnode, hexit, rfl,
        Or.inr ⟨frame, outer, hloops, Graph.index_node?_id hloop⟩⟩

/-- A run arrives with the loops that belong to the output it has left by. -/
theorem Placed.arrival (hplaced : Placed graph.index start.id passed base state) {handle : String}
    {loops : List LoopFrame} (hloops : next.run.context.loops = loops)
    (hactive : loops.map LoopFrame.node =
      if handle = "body" then state.current :: base.map LoopFrame.node
      else base.map LoopFrame.node)
    (hnext : graph.index.next? state.current handle = some next.current ∨
      ∃ frame outer, next.run.context.loops = frame :: outer ∧ next.current = frame.node) :
    Arrival graph.index start.id (state.current :: passed) loops next := by
  rcases hnext with hnext | ⟨frame, outer, hcons, hcurrent⟩
  · have htrail := hplaced.trail.onward hnext
    rw [← hactive] at htrail
    exact Arrival.forward hloops htrail
  · rw [hloops] at hcons
    rw [hcons, List.map_cons] at hactive
    -- The loop on top is the one just left by its body, or the innermost of those on the trail.
    have henclosing : ∃ before, Trail graph.index start.id before frame.node
        (outer.map LoopFrame.node) := by
      split at hactive
      · have hparts : frame.node = state.current ∧
            outer.map LoopFrame.node = base.map LoopFrame.node := by
          simpa using hactive
        rw [hparts.1, hparts.2]
        exact ⟨passed, hplaced.trail⟩
      · have htrail := hplaced.trail
        rw [← hactive] at htrail
        exact htrail.exists_enclosing
    rcases henclosing with ⟨before, hbefore⟩
    exact Arrival.back hloops hcons hcurrent hbefore

/-- A move of a placed run that goes on takes one of the courses listed. -/
theorem Placed.course (hwired : graph.Wired start)
    (hplaced : Placed graph.index start.id passed base state)
    (hsound : SoundStack graph.index state.run.context.loops) {stepLimit : Option Nat}
    (hstep : state.step graph.index stepLimit = .running next) :
    Course graph.index start.id passed base state next := by
  rcases exists_exit_of_step hstep with ⟨node, handle, hnode, hexit, hkept, hnext⟩
  have hid : node.id = state.current := Graph.index_node?_id hnode
  have hpassage := hplaced.passage hwired hsound hnode
  cases hpassage with
  | finished _ _ hnone =>
      cases hexit.symm.trans hnone
  | plain hbase hloops hout hbody =>
      cases hexit.symm.trans hout
      exact Course.plain hbase (hplaced.arrival (hkept.trans hloops) (by simp [hbody]) hnext)
  | entered hkind hbase hfresh hloops hout =>
      cases hexit.symm.trans hout
      refine Course.entered hnode hkind hbase hfresh rfl ?_
      exact hplaced.arrival (hkept.trans hloops) (by simp [hid]) hnext
  | iterated hframe hbase hloops hout =>
      cases hexit.symm.trans hout
      exact Course.iterated hbase
        (hplaced.arrival (hkept.trans hloops) (by simp [hframe, hid]) hnext)
  | completed _ hbase hloops hout hbody =>
      cases hexit.symm.trans hout
      exact Course.completed hbase (hplaced.arrival (hkept.trans hloops) (by simp [hbody]) hnext)

end Moves

namespace Graph

/-- In a valid graph the stack of loops of a run is throughout that of the trail to its node. -/
theorem stateAt?_placed {graph : Graph} {start : Node} (hwired : graph.Wired start)
    {array : Array Float} {settings : Settings} {moves : Nat} {state : State} :
    graph.stateAt? array settings moves = some state →
      ∃ passed base, Placed graph.index start.id passed base state := by
  induction moves generalizing state with
  | zero =>
      intro hstate
      rcases stateAt?_zero.1 hstate with ⟨first, others, hfirst, rfl⟩
      rw [hwired.starts] at hfirst
      cases hfirst
      exact ⟨[], [], Trail.start, Or.inl rfl⟩
  | succ moves ih =>
      intro hstate
      rcases stateAt?_succ.1 hstate with ⟨middle, hmiddle, hstep⟩
      rcases ih hmiddle with ⟨passed, base, hplaced⟩
      exact (hplaced.course hwired (stateAt?_soundStack hmiddle) hstep).placed

end Graph
end FlowTrace
