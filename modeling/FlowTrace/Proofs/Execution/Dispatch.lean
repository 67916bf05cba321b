import FlowTrace.Proofs.Execution.LoopTurns
import FlowTrace.Proofs.Execution.Recording

/-!
# What a dispatch leaves alone

All kinds of nodes work on one context and one trace.  This file lists, for the dispatch of any node
in any context, what may be different behind it and under which condition; all else is as before.

* `Index.InBounds` — the elements that a node asks for are there;
* `Context.rebound?` — the variable that a node binds;
* `Run.dispatch_eq` — a dispatch performs the node and may then record where its path goes;
* `Run.Framed` and `Run.framed_dispatch` — the list, and that every dispatch keeps to it.
-/

namespace FlowTrace

/-! ## Elements that are not there -/

/-- A value is a place in the working array if it is an index below its size. -/
theorem Context.isSome_position?_iff {context : Context} {value : Value} :
    (context.position? value).isSome = true ↔
      ∃ i, value.asIndex = some i ∧ i < context.array.size := by
  unfold position?
  cases value.asIndex with
  | none => simp
  | some i => by_cases hi : i < context.array.size <;> simp [hi]

/-- The kinds that take all their inputs for places in the working array. -/
def NodeKind.takesPlaces : NodeKind → Bool
  | arrayCompare | arraySwap | arrayHighlight => true
  | start | finish | forLoop | ifCondition | arrayAccess | variableSet | variableGet
  | counterIncrement | updateDescription | pauseExecution => false

/-- Every input of a node reads a place in the working array. -/
def Index.InBounds (index : Index) (context : Context) (node : Node) : Prop :=
  ∀ handle ∈ node.reads, ∃ i, (index.input context node handle).asIndex = some i ∧
    i < context.array.size

namespace Index

variable {index : Index} {context : Context} {node : Node}

theorem inBounds_of_swap (hkind : node.kind = .arraySwap) {i j : Fin context.array.size}
    (hi : context.position? (index.input context node "i") = some i)
    (hj : context.position? (index.input context node "j") = some j) :
    index.InBounds context node := by
  have hreads : node.reads = ["i", "j"] := by simp [Node.reads, hkind, NodeKind.dataInputs]
  unfold InBounds
  rw [hreads]
  simp only [← Context.isSome_position?_iff]
  simp [hi, hj]

/-- A node that asks for an element beyond the working array changes nothing. -/
theorem context_perform_of_outOfBounds (hplaces : node.kind.takesPlaces = true)
    (hout : ¬ index.InBounds context node) : (index.perform context node).context = context := by
  cases hkind : node.kind with
  | arrayCompare =>
      simp only [perform, hkind, Context.performCompare]
      split <;> rfl
  | arraySwap =>
      -- The only kind of the three that does something where the elements are there.
      simp only [perform, hkind, Context.performSwap]
      split
      · next i j hi hj => exact absurd (inBounds_of_swap hkind hi hj) hout
      · rfl
  | arrayHighlight =>
      simp only [perform, hkind, Context.performHighlight]
      split <;> rfl
  | _ => simp [hkind, NodeKind.takesPlaces] at hplaces

/-- The array changes only by a swap of two elements that are there. -/
theorem swaps_of_array_ne (hne : (index.perform context node).context.array ≠ context.array) :
    node.kind = .arraySwap ∧ index.InBounds context node := by
  have hkind : node.kind = .arraySwap := by
    by_contra hother
    exact hne ((index.framed_perform context node).array hother)
  refine ⟨hkind, ?_⟩
  by_contra hout
  have hplaces : node.kind.takesPlaces = true := by rw [hkind]; rfl
  exact hne (congrArg Context.array (context_perform_of_outOfBounds hplaces hout))

end Index

/-! ## Variables -/

/-- The variable that a node binds.  A loop that the run is inside of goes by the name that it was
entered with. -/
def Context.rebound? (context : Context) (node : Node) : Option String :=
  match node.kind with
  | .forLoop =>
      match context.loopOf? node.id with
      | some frame => some frame.variableName
      | none => some (node.textOr "variable" "i")
  | .variableSet => some (node.textOr "name" "x")
  | .counterIncrement => some (node.textOr "name" "count")
  | .start | .finish | .ifCondition | .arrayAccess | .arrayCompare | .arraySwap | .arrayHighlight
  | .variableGet | .updateDescription | .pauseExecution => none

/-- The frame found for a loop is the topmost one of its id. -/
theorem Context.loopOf?_of_split {context : Context} {id : NodeId} {inner outer : List LoopFrame}
    {frame : LoopFrame} (hsplit : context.loops = inner ++ frame :: outer)
    (hframe : frame.node = id) (hinner : ∀ other ∈ inner, other.node ≠ id) :
    context.loopOf? id = some frame := by
  have hnone : inner.find? (·.node = id) = none := by simpa [List.find?_eq_none] using hinner
  simp [loopOf?, hsplit, List.find?_append, hnone, hframe]

/-- A loop binds its variable, whatever else it does. -/
theorem LoopVisit.rebinds {context : Context} {node : Node} {read : String → Value}
    {effect : Effect} (h : LoopVisit context node read effect) (hkind : node.kind = .forLoop) :
    ∃ name value, context.rebound? node = some name ∧
      effect.context.bindings = context.bindings.insert name value := by
  -- Outside of the loop the node names the variable, and inside the frame does.
  have hfresh : (∀ frame ∈ context.loops, frame.node ≠ node.id) →
      context.rebound? node = some (node.textOr "variable" "i") := by
    intro habsent
    simp [Context.rebound?, hkind, Context.loopOf?_eq_none_iff.2 habsent]
  cases h with
  | entered habsent => exact ⟨_, _, hfresh habsent, rfl⟩
  | skipped habsent => exact ⟨_, _, hfresh habsent, rfl⟩
  | @iterated _ _ frame hsplit hframe hinner =>
      have hinside := Context.loopOf?_of_split hsplit hframe hinner
      exact ⟨frame.variableName, _, by simp [Context.rebound?, hkind, hinside], rfl⟩
  | @completed _ _ frame hsplit hframe hinner =>
      have hinside := Context.loopOf?_of_split hsplit hframe hinner
      exact ⟨frame.variableName, _, by simp [Context.rebound?, hkind, hinside], rfl⟩

namespace Index

variable (index : Index) (context : Context) (node : Node)

/-- Performing a node binds its variable, if it has one, and no other. -/
theorem bindings_perform_cases :
    (index.perform context node).context.bindings = context.bindings ∨
      ∃ name value, context.rebound? node = some name ∧
        (index.perform context node).context.bindings = context.bindings.insert name value := by
  by_cases hloop : node.kind = .forLoop
  · exact Or.inr ((index.loopVisit_perform context node hloop).rebinds hloop)
  by_cases hset : node.kind = .variableSet
  · have hname : context.rebound? node = some (node.textOr "name" "x") := by
      simp only [Context.rebound?, hset]
    exact Or.inr ⟨_, _, hname, by simp only [perform, hset]; rfl⟩
  by_cases hcounter : node.kind = .counterIncrement
  · have hname : context.rebound? node = some (node.textOr "name" "count") := by
      simp only [Context.rebound?, hcounter]
    exact Or.inr ⟨_, _, hname, by simp only [perform, hcounter]; rfl⟩
  · exact Or.inl (index.bindings_perform context node hloop hset hcounter)

/-- Performing a node frees no variable. -/
theorem isSome_valueOf?_perform {name : String} (hbound : (context.valueOf? name).isSome = true) :
    ((index.perform context node).context.valueOf? name).isSome = true := by
  unfold Context.valueOf? at hbound ⊢
  rcases index.bindings_perform_cases context node with hsame | ⟨written, value, -, hinsert⟩
  · rw [hsame, hbound]
  · rw [hinsert, Table.get?_insert]
    split
    · rfl
    · exact hbound

/-- A variable that performing a node changes is the one that the node binds. -/
theorem rebound?_of_valueOf?_ne {name : String}
    (hne : (index.perform context node).context.valueOf? name ≠ context.valueOf? name) :
    context.rebound? node = some name := by
  unfold Context.valueOf? at hne
  rcases index.bindings_perform_cases context node with hsame | ⟨written, value, hwritten, hinsert⟩
  · exact absurd (by rw [hsame]) hne
  · by_cases hname : name = written
    · rw [hname, hwritten]
    · exact absurd (by rw [hinsert, Table.get?_insert_of_ne _ _ hname]) hne

end Index

/-! ## The dispatch -/

namespace Run

variable (index : Index) (run : Run) (node : Node)

/-- A dispatch performs the node, and it may then record where the path goes. -/
theorem dispatch_eq :
    (run.dispatch index node).1 = run.performed index node ∨
      ∃ draft, (run.dispatch index node).1 = (run.performed index node).record draft := by
  cases hexit : (index.perform run.context node).exit with
  | none => exact Or.inl (by simp [dispatch, performed, hexit])
  | some handle =>
      have hdispatch : run.dispatch index node =
          (run.performed index node).advance index node handle := by
        simp [dispatch, performed, hexit]
      rw [hdispatch]
      unfold advance
      cases index.next? node.id handle with
      | some next => exact Or.inl rfl
      | none =>
          -- The path has ended, and whether or not a loop takes over, a step says so.
          cases (run.performed index node).context.loops with
          | nil => exact Or.inr ⟨_, rfl⟩
          | cons frame outer => exact Or.inr ⟨_, rfl⟩

@[simp] theorem context_dispatch :
    (run.dispatch index node).1.context = (index.perform run.context node).context := by
  rcases run.dispatch_eq index node with h | ⟨draft, h⟩ <;> simp [h]

/-- A dispatch adds one or two steps to the trace. -/
theorem trace_dispatch :
    ∃ steps : List Step, (steps.length = 1 ∨ steps.length = 2) ∧
      (run.dispatch index node).1.trace.toList = run.trace.toList ++ steps := by
  rcases run.dispatch_eq index node with h | ⟨draft, h⟩
  · refine ⟨[index.stepOf run.context node], Or.inl rfl, ?_⟩
    simp [h, Index.stepOf]
  · refine ⟨[index.stepOf run.context node,
      draft.snapshot (index.perform run.context node).context.array], Or.inr rfl, ?_⟩
    simp [h, Index.stepOf]

/-- What the dispatch of a node may change.  One or two steps are recorded behind those before.  The
array changes only by a swap of elements that are there.  No variable is lost, and only the one that
the node binds gets another value.  The loops change only by a loop, the values last read only by an
array access and only its own, and the run is completed only by an end node; it is never broken off.
A comparison, a swap or a highlight of elements that are not there changes nothing. -/
structure Framed (index : Index) (before : Run) (node : Node) (after : Run) : Prop where
  steps : ∃ steps : List Step, (steps.length = 1 ∨ steps.length = 2) ∧
    after.trace.toList = before.trace.toList ++ steps
  array : after.context.array ≠ before.context.array →
    node.kind = .arraySwap ∧ index.InBounds before.context node
  kept : ∀ name, (before.context.valueOf? name).isSome = true →
    (after.context.valueOf? name).isSome = true
  rebound : ∀ name, after.context.valueOf? name ≠ before.context.valueOf? name →
    before.context.rebound? node = some name
  loops : after.context.loops ≠ before.context.loops → node.kind = .forLoop
  reads : ∀ id, after.context.reads.get? id ≠ before.context.reads.get? id →
    node.kind = .arrayAccess ∧ id = node.id
  completed : after.context.completed ≠ before.context.completed → node.kind = .finish
  error : after.context.error = before.context.error
  outOfBounds : node.kind.takesPlaces = true → ¬ index.InBounds before.context node →
    after.context = before.context

/-- Over every graph, the dispatch of any node in any context changes nothing but what its kind lets
it change. -/
theorem framed_dispatch (graph : Graph) (run : Run) (node : Node) :
    Framed graph.index run node (run.dispatch graph.index node).1 := by
  have hframed := graph.index.framed_perform run.context node
  constructor
  case steps => exact run.trace_dispatch graph.index node
  all_goals rw [context_dispatch]
  case array => exact Index.swaps_of_array_ne
  case kept => exact fun name => graph.index.isSome_valueOf?_perform run.context node
  case rebound => exact fun name => graph.index.rebound?_of_valueOf?_ne run.context node
  case loops =>
    intro hne
    by_contra hother
    exact hne (hframed.loops hother)
  case reads =>
    intro id hne
    by_contra hother
    exact hne (graph.index.get?_reads_of_other run.context hother)
  case completed =>
    intro hne
    by_contra hother
    exact hne (hframed.completed hother)
  case error => exact hframed.error
  case outOfBounds => exact Index.context_perform_of_outOfBounds

end Run
end FlowTrace
