import FlowTrace.Proofs.Execution.Effects
import FlowTrace.Proofs.Execution.Moves
import Mathlib.Data.List.Dedup

/-!
# The stack of loops

Whatever the graph looks like, the stack of loops stays in order: its frames belong to different
loop nodes that the index finds, and each of them stands below its bound.  So a dead end inside of a
loop always finds the loop to go back to, and the stack is never deeper than there are loops.

* `SoundStack` — a stack in order;
* `SoundStack.perform` and `Graph.soundStack_step` — every node and every move keep it in order;
* `Graph.runAfter?_variableName` — a frame counts in the variable of its loop;
* `Graph.stack_in_order` — so it is in order throughout a run.
-/

namespace FlowTrace

/-- A stack of loops in order. -/
structure SoundStack (index : Index) (loops : List LoopFrame) : Prop where
  found : ∀ frame ∈ loops, ∃ node, index.node? frame.node = some node ∧ node.kind = .forLoop
  distinct : (loops.map LoopFrame.node).Nodup
  below : ∀ frame ∈ loops, frame.current < frame.bound

namespace SoundStack

variable {index : Index} {loops outer : List LoopFrame}

theorem nil : SoundStack index [] := by
  refine ⟨?_, List.nodup_nil, ?_⟩
  · intro frame hmem
    cases hmem
  · intro frame hmem
    cases hmem

theorem of_sublist (h : SoundStack index loops) (hsub : outer.Sublist loops) :
    SoundStack index outer := by
  refine ⟨?_, h.distinct.sublist (hsub.map LoopFrame.node), ?_⟩
  · intro frame hmem
    exact h.found frame (hsub.subset hmem)
  · intro frame hmem
    exact h.below frame (hsub.subset hmem)

/-- A loop that is not yet on a sound stack may be put on it, if it is below its bound. -/
theorem cons {frame : LoopFrame} (h : SoundStack index loops)
    (hfound : ∃ node, index.node? frame.node = some node ∧ node.kind = .forLoop)
    (hfresh : ∀ other ∈ loops, other.node ≠ frame.node) (hbelow : frame.current < frame.bound) :
    SoundStack index (frame :: loops) := by
  refine ⟨?_, ?_, ?_⟩
  · intro other hmem
    rcases List.mem_cons.1 hmem with rfl | hmem
    · exact hfound
    · exact h.found other hmem
  · refine List.nodup_cons.2 ⟨?_, h.distinct⟩
    intro hmem
    rcases List.mem_map.1 hmem with ⟨other, hother, hsame⟩
    exact hfresh other hother hsame
  · intro other hmem
    rcases List.mem_cons.1 hmem with rfl | hmem
    · exact hbelow
    · exact h.below other hmem

/-- In a stack in order no frame below the first shares its node. -/
theorem ne_of_mem_tail {frame other : LoopFrame} (h : SoundStack index (frame :: loops)) :
    other ∈ loops → other.node ≠ frame.node := by
  intro hmem hsame
  have hfresh : frame.node ∉ loops.map LoopFrame.node := (List.nodup_cons.1 h.distinct).1
  exact hfresh (List.mem_map.2 ⟨other, hmem, hsame⟩)

/-- Performing a node keeps the stack in order. -/
theorem perform {context : Context} {node : Node} (h : SoundStack index context.loops)
    (hnode : index.node? node.id = some node) :
    SoundStack index (index.perform context node).context.loops := by
  by_cases hkind : node.kind = .forLoop
  · have hvisit := index.loopVisit_perform context node hkind
    generalize index.perform context node = effect at hvisit
    cases hvisit with
    | entered hfresh hlt =>
        -- A loop is entered only if no frame of it is on the stack.
        exact h.cons ⟨node, hnode, hkind⟩ hfresh hlt
    | skipped =>
        exact h
    | @iterated inner outer frame hsplit hframe hinner hlt =>
        -- The frames above that of the loop are given up, and its own is replaced.
        have hrest : SoundStack index (frame :: outer) :=
          h.of_sublist (hsplit ▸ List.sublist_append_right inner (frame :: outer))
        refine (hrest.of_sublist (List.sublist_cons_self frame outer)).cons ?_ ?_ hlt
        · exact hrest.found frame List.mem_cons_self
        · intro other hmem
          exact hrest.ne_of_mem_tail hmem
    | @completed inner outer frame hsplit =>
        have hrest : SoundStack index (frame :: outer) :=
          h.of_sublist (hsplit ▸ List.sublist_append_right inner (frame :: outer))
        exact hrest.of_sublist (List.sublist_cons_self frame outer)
  · rw [(index.framed_perform context node).loops hkind]
    exact h

/-- The loop that a dead end goes back to is always found. -/
theorem not_lost {context : Context} {node : Node} {frame : LoopFrame}
    (h : SoundStack index context.loops) (hnode : index.node? node.id = some node)
    (hloops : (index.perform context node).context.loops = frame :: outer) :
    index.node? frame.node ≠ none := by
  have hstack := h.perform hnode
  rw [hloops] at hstack
  rcases hstack.found frame List.mem_cons_self with ⟨loopNode, hfound, -⟩
  simp [hfound]

end SoundStack

namespace Graph

variable {graph : Graph} {array : Array Float} {settings : Settings}

theorem index_node?_id {id : NodeId} {node : Node} (h : graph.index.node? id = some node) :
    node.id = id :=
  node?_id (by simpa using h)

/-- The node performed by a move is found under its own id. -/
theorem index_node?_self {id : NodeId} {node : Node} (h : graph.index.node? id = some node) :
    graph.index.node? node.id = some node := by
  rw [index_node?_id h]
  exact h

/-- Every move keeps the stack of loops sound. -/
theorem soundStack_step {state : State} (stepLimit : Option Nat)
    (hstack : SoundStack graph.index state.run.context.loops) :
    SoundStack graph.index (state.step graph.index stepLimit).run.context.loops := by
  rcases state.stays_or_performs graph.index stepLimit with hstays | ⟨node, hnode, hloops, -⟩
  · rw [hstays]
    exact hstack
  · rw [hloops]
    exact hstack.perform (index_node?_self hnode)

/-- The stack of loops is in order throughout a run. -/
theorem runAfter?_soundStack {moves : Nat} {run : Run} :
    graph.runAfter? array settings moves = some run → SoundStack graph.index run.context.loops := by
  apply runAfter?_invariant
  · exact SoundStack.nil
  · intro state hstack
    exact soundStack_step settings.stepLimit hstack

theorem stateAt?_soundStack {moves : Nat} {state : State}
    (hstate : graph.stateAt? array settings moves = some state) :
    SoundStack graph.index state.run.context.loops :=
  runAfter?_soundStack (runAfter?_of_stateAt? hstate)

/-- The frames on the stack count in the variables that their loops name. -/
theorem runAfter?_variableName {moves : Nat} {run : Run} :
    graph.runAfter? array settings moves = some run →
      ∀ frame ∈ run.context.loops, ∀ loop, graph.index.node? frame.node = some loop →
        frame.variableName = loop.textOr "variable" "i" := by
  apply runAfter?_invariant
  · intro frame hmem
    cases hmem
  · intro state hnames frame hmem loop hloop
    rcases state.stays_or_performs graph.index settings.stepLimit with
      hstays | ⟨node, hnode, hloops, -⟩
    · rw [hstays] at hmem
      exact hnames frame hmem loop hloop
    · rw [hloops] at hmem
      rcases graph.index.frame_of_mem_loops state.run.context node hmem with
        hold | ⟨-, rfl⟩ | ⟨earlier, hearlier, -, rfl⟩
      · exact hnames frame hold loop hloop
      · cases (index_node?_self hnode).symm.trans hloop
        rfl
      · exact hnames earlier hearlier loop hloop

def loopIds (graph : Graph) : List NodeId :=
  ((graph.nodesOfKind .forLoop).map Node.id).dedup

/-- A stack in order is no deeper than there are loops. -/
theorem length_le_of_soundStack {loops : List LoopFrame} (hstack : SoundStack graph.index loops) :
    loops.length ≤ graph.loopIds.length := by
  have hsubset : loops.map LoopFrame.node ⊆ graph.loopIds := by
    intro id hmem
    rcases List.mem_map.1 hmem with ⟨frame, hframe, rfl⟩
    rcases hstack.found frame hframe with ⟨node, hfound, hkind⟩
    have hnode : graph.node? frame.node = some node := by simpa using hfound
    have hloop : node ∈ graph.nodesOfKind .forLoop :=
      List.mem_filter.2 ⟨mem_of_node? hnode, by simpa using hkind⟩
    exact List.mem_dedup.2 (List.mem_map.2 ⟨node, hloop, node?_id hnode⟩)
  simpa using hstack.distinct.length_le_of_subset hsubset

/-- Two loops, one inside of the other; the body of the inner one leads back to the outer one. -/
def crossedLoops : Graph where
  nodes :=
    [Node.new "begin" .start,
      (Node.new "rows" .forLoop).withParameter "end" (.int 2),
      Node.new "columns" .forLoop,
      Node.new "finish" .finish]
  connections :=
    [⟨⟨"begin", execOut, "rows", execIn⟩, "1"⟩,
      ⟨⟨"rows", "body", "columns", execIn⟩, "2"⟩,
      ⟨⟨"columns", "body", "rows", execIn⟩, "3"⟩,
      ⟨⟨"rows", "complete", "finish", execIn⟩, "4"⟩]

/-- Throughout a run over any graph, the frames on the stack belong to different nodes, each of them
to a loop that is found, and each stands below its bound; so there are never more of them than the
graph has loops. -/
theorem stack_in_order (graph : Graph) (array : Array Float) (settings : Settings) (moves : Nat)
    (run : Run) (hrun : graph.runAfter? array settings moves = some run) :
    (run.context.loops.map LoopFrame.node).Nodup ∧
      (∀ frame ∈ run.context.loops,
        ∃ node, graph.index.node? frame.node = some node ∧ node.kind = .forLoop) ∧
      (∀ frame ∈ run.context.loops, frame.current < frame.bound) ∧
      run.context.loops.length ≤ graph.loopIds.length := by
  have hstack := runAfter?_soundStack hrun
  exact ⟨hstack.distinct, hstack.found, hstack.below, length_le_of_soundStack hstack⟩

/-- Inside of both loops the stack is as deep as it can be; going back to the outer loop gives the
inner one up. -/
theorem stack_in_order_crossedLoops :
    (∃ run, crossedLoops.runAfter? #[] {} 3 = some run ∧
      run.context.loops.map LoopFrame.node = ["columns", "rows"] ∧
      (∀ frame ∈ run.context.loops, frame.current < frame.bound) ∧
      run.context.loops.length ≤ crossedLoops.loopIds.length) ∧
    ∃ run, crossedLoops.runAfter? #[] {} 4 = some run ∧
      run.context.loops.map LoopFrame.node = ["rows"] ∧
      ∀ frame ∈ run.context.loops,
        ∃ node, crossedLoops.index.node? frame.node = some node ∧ node.kind = .forLoop := by
  have hinside : ((crossedLoops.runAfter? #[] {} 3).map
      fun run => run.context.loops.map LoopFrame.node) = some ["columns", "rows"] := by
    decide +kernel
  have hback : ((crossedLoops.runAfter? #[] {} 4).map
      fun run => run.context.loops.map LoopFrame.node) = some ["rows"] := by
    decide +kernel
  rcases Option.map_eq_some_iff.1 hinside with ⟨run, hrun, hloops⟩
  rcases Option.map_eq_some_iff.1 hback with ⟨later, hlater, hrows⟩
  have hdeep := stack_in_order crossedLoops #[] {} 3 run hrun
  have hleft := stack_in_order crossedLoops #[] {} 4 later hlater
  exact ⟨⟨run, hrun, hloops, hdeep.2.2⟩, later, hlater, hrows, hleft.2.1⟩

end Graph
end FlowTrace
