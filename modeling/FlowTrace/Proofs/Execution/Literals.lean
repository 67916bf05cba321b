import FlowTrace.Graph.Validation
import FlowTrace.Proofs.Execution.KeptReads
import FlowTrace.Proofs.Trace.Variables

/-!
# Literals that name a variable

A text among the parameters of a node reads the variable that it names.  The blanks around the text
are dropped before the variable is looked up; the node that sets a variable keeps them in its name.
So a variable is read back by its own name if and only if that name has no blanks around it.

* `Node.written?` — the variable that a node writes;
* `Index.valueOf?_perform_of_ne` — every other variable is left alone;
* `Graph.StaysSet` and `Graph.StaysSet.valueOf?_eq` — a variable keeps what it was set to until it
  is written again;
* `Index.input?_of_text` — what a text reads;
* `Graph.literals_read_back_iff` — names read back what they were set to unless they lose blanks.
-/

namespace FlowTrace

/-! ## What nodes write -/

/-- The variable that a node writes whenever it is performed. -/
def Node.written? (node : Node) : Option String :=
  match node.kind with
  | .forLoop => some (node.textOr "variable" "i")
  | .variableSet => some (node.textOr "name" "x")
  | .counterIncrement => some (node.textOr "name" "count")
  | _ => none

/-- A text that is not blank counts. -/
theorem Node.textOr_of_text {node : Node} {parameter text : String} (otherwise : String)
    (htext : node.data.get? parameter = some (.string text))
    (hblank : Text.isAllBlank text = false) : node.textOr parameter otherwise = text := by
  simp [textOr, text?, htext, Json.string?, hblank]

/-- Performing a node leaves every variable alone but the one that it writes, given that the frames
of a loop count in its variable. -/
theorem Index.valueOf?_perform_of_ne (index : Index) {context : Context} {node : Node}
    {name : String} (hother : node.written? ≠ some name)
    (hframes : ∀ frame ∈ context.loops, frame.node = node.id →
      frame.variableName = node.textOr "variable" "i") :
    (index.perform context node).context.valueOf? name = context.valueOf? name := by
  by_cases hloop : node.kind = .forLoop
  · have hname : node.textOr "variable" "i" ≠ name := by simpa [Node.written?, hloop] using hother
    refine (index.loopVisit_perform context node hloop).valueOf?_eq hname ?_
    intro frame hmem hid
    rw [hframes frame hmem hid]
    exact hname
  by_cases hset : node.kind = .variableSet
  · have hname : node.textOr "name" "x" ≠ name := by simpa [Node.written?, hset] using hother
    simp only [perform, hset]
    exact context.bindings.get?_insert_of_ne _ hname.symm
  by_cases hcounter : node.kind = .counterIncrement
  · have hname : node.textOr "name" "count" ≠ name := by
      simpa [Node.written?, hcounter] using hother
    simp only [perform, hcounter]
    exact context.bindings.get?_insert_of_ne _ hname.symm
  · unfold Context.valueOf?
    rw [index.bindings_perform context node hloop hset hcounter]

/-- A set node binds its variable to its input. -/
theorem Index.context_perform_of_set (index : Index) (context : Context) {node : Node}
    (hkind : node.kind = .variableSet) :
    (index.perform context node).context =
      context.setVariable (node.textOr "name" "x") (index.input context node "value") := by
  simp only [perform, hkind]
  rfl

/-! ## What a literal reads -/

namespace Index

variable {index : Index} {context : Context} {node : Node} {handle : String}

/-- An input that is not fed reads its literal. -/
theorem input?_of_unfed (hfed : index.isFed node handle = false) :
    index.input? context node handle = context.inputLiteral? node handle := by
  have hsource : index.source? node.id handle = none := by simpa [isFed] using hfed
  exact inputAfter?_of_unfed context [] hsource

/-- A text reads the variable that it names without the blanks around it; if there is none, it
counts as a number, if it is one. -/
theorem input?_of_text {text : String} (hfed : index.isFed node handle = false)
    (htext : node.data.get? handle = some (.string text)) :
    index.input? context node handle =
      (context.valueOf? (Text.trim text)).or (Value.ofLiteral? (.string text)) := by
  rw [input?_of_unfed hfed, Context.inputLiteral?, htext, Option.bind_some, Context.literal?]
  simp only [Json.string?, Option.bind_some]
  cases context.valueOf? (Text.trim text) <;> rfl

end Index

/-! ## Runs -/

namespace Graph

variable {graph : Graph} {array : Array Float} {settings : Settings} {moves : Nat} {name : String}
  {value : Value} {run : Run}

/-- Behind some moves a variable stays as it was set: a set node of that name has had its turn, the
value is what its input read then, and no node performed since writes the variable. -/
def StaysSet (graph : Graph) (array : Array Float) (settings : Settings) (moves : Nat)
    (name : String) (value : Value) : Prop :=
  ∃ turn < moves, ∃ state setter, graph.stateAt? array settings turn = some state ∧
    state.Performs graph.index settings.stepLimit setter ∧ setter.kind = .variableSet ∧
    setter.data.get? "name" = some (.string name) ∧
    graph.index.input state.run.context setter "value" = value ∧
    ∀ between other node, turn < between → between < moves →
      graph.stateAt? array settings between = some other →
      other.Performs graph.index settings.stepLimit node → node.written? ≠ some name

/-- A move that performs no writer of a variable leaves it alone. -/
theorem valueOf?_step {state : State} (hstate : graph.stateAt? array settings moves = some state)
    (hother : ∀ node, state.Performs graph.index settings.stepLimit node →
      node.written? ≠ some name) :
    (state.step graph.index settings.stepLimit).run.context.valueOf? name =
      state.run.context.valueOf? name := by
  rcases state.performs_or_fails graph.index settings.stepLimit with
    ⟨node, hperforms, hcontext⟩ | ⟨-, error, hcontext⟩
  · rw [hcontext]
    refine graph.index.valueOf?_perform_of_ne (hother node hperforms) ?_
    intro frame hmem hid
    exact runAfter?_variableName (runAfter?_of_stateAt? hstate) frame hmem node
      (hid ▸ index_node?_self hperforms.2)
  · rw [hcontext]
    rfl

/-- A variable that stays as it was set holds that value. -/
theorem StaysSet.valueOf?_eq (hname : Text.isAllBlank name = false)
    (h : graph.StaysSet array settings moves name value)
    (hrun : graph.runAfter? array settings moves = some run) :
    run.context.valueOf? name = some value := by
  rcases h with ⟨turn, hlt, state, setter, hstate, hperforms, hkind, hnamed, rfl, hkept⟩
  -- The induction is on the moves since the turn of the set node, which binds the variable; no move
  -- behind it touches the variable.
  induction moves, hlt using Nat.le_induction generalizing run with
  | base =>
      rcases runAfter?_succ.1 hrun with ⟨same, hsame, rfl⟩
      cases hstate.symm.trans hsame
      rw [hperforms.context_step, graph.index.context_perform_of_set _ hkind,
        Node.textOr_of_text "x" hnamed hname]
      exact Table.get?_insert_self _ _ _
  | succ moves hafter ih =>
      rcases runAfter?_succ.1 hrun with ⟨middle, hmiddle, rfl⟩
      have hquiet : ∀ node, middle.Performs graph.index settings.stepLimit node →
          node.written? ≠ some name := fun node =>
        hkept moves middle node hafter (Nat.lt_succ_self moves) hmiddle
      rw [valueOf?_step hmiddle hquiet]
      refine ih (runAfter?_of_stateAt? hmiddle) ?_
      intro between other node hbehind hbefore
      exact hkept between other node hbehind (Nat.lt_succ_of_lt hbefore)

/-- If a start node is found under its id and leads on, the run comes to the next node without a
change of the context. -/
theorem exists_stateAt?_one {start : Node} {others : List Node} {next : NodeId}
    (hstart : graph.nodesOfKind .start = start :: others)
    (hnode : graph.node? start.id = some start)
    (hnext : graph.index.next? start.id execOut = some next) (hlimit : settings.stepLimit = none) :
    ∃ state, graph.stateAt? array settings 1 = some state ∧ state.current = next ∧
      state.run.context = initialContext array settings := by
  have hkind : start.kind = .start := by
    have hmem : start ∈ graph.nodesOfKind .start := by simp [hstart]
    simpa using (List.mem_filter.1 hmem).2
  have hfound : graph.index.node? (initialState start array settings).current = some start := by
    simpa [initialState] using hnode
  have hstep : (initialState start array settings).step graph.index settings.stepLimit =
      .running ⟨(initialState start array settings).run.performed graph.index start, next,
        start.id⟩ := by
    simp [State.step, hlimit, hfound, Run.dispatch, Run.performed, Run.advance, Index.perform,
      hkind, Context.performStart, hnext]
  refine ⟨_, stateAt?_succ.2 ⟨_, stateAt?_zero.2 ⟨start, others, hstart, rfl⟩, hstep⟩, rfl, ?_⟩
  simp [Index.perform, hkind, Context.performStart, initialState]

def setNode (id name : String) (value : Json) : Node :=
  ((Node.new id .variableSet).withParameter "name" (.string name)).withParameter "value" value

/-- A variable is set, and its name is the literal of the node behind. -/
def copied (name : String) : Graph where
  nodes :=
    [Node.new "begin" .start, setNode "keep" name (.bool true),
      setNode "copy" "y" (.string name), Node.new "finish" .finish]
  connections :=
    [⟨⟨"begin", execOut, "keep", execIn⟩, "1"⟩,
      ⟨⟨"keep", execOut, "copy", execIn⟩, "2"⟩,
      ⟨⟨"copy", execOut, "finish", execIn⟩, "3"⟩]

theorem get?_setNode_name (id name : String) (value : Json) :
    (setNode id name value).data.get? "name" = some (.string name) := by
  simp [setNode, Node.withParameter, Table.get?_insert]

theorem get?_setNode_value (id name : String) (value : Json) :
    (setNode id name value).data.get? "value" = some value := by
  simp [setNode, Node.withParameter]

/-- No data flows in the graph. -/
theorem isFed_copied (name : String) (node : Node) :
    (copied name).index.isFed node "value" = false := by
  have hnone : (copied name).connections.find? (fun c =>
      c.enters node.id "value" && (copied name).carriesData c.toEndpoints) = none := by
    simp [copied, Connection.enters, execIn]
  rw [Index.isFed, index_source?, hnone]
  rfl

/-- After the turn of its set node the variable is bound, and nothing else is. -/
theorem exists_run_copied (hname : Text.isAllBlank name = false) :
    ∃ run, (copied name).runAfter? #[] {} 2 = some run ∧
      (copied name).StaysSet #[] {} 2 name (.bool true) ∧
      run.context.bindings = Table.empty.insert name (.bool true) := by
  have hnext : (copied name).index.next? "begin" execOut = some "keep" := by
    rw [index_next?]
    rfl
  obtain ⟨state, hstate, hcurrent, hcontext⟩ : ∃ state,
      (copied name).stateAt? #[] {} 1 = some state ∧ state.current = "keep" ∧
        state.run.context = initialContext #[] {} :=
    exists_stateAt?_one rfl rfl hnext rfl
  have hperforms : state.Performs (copied name).index none (setNode "keep" name (.bool true)) := by
    refine ⟨nofun, ?_⟩
    rw [hcurrent, index_node?]
    rfl
  have hread : (copied name).index.input state.run.context (setNode "keep" name (.bool true))
      "value" = .bool true := by
    rw [Index.input, Node.readOrZero, Index.input?_of_unfed (isFed_copied name _),
      Context.inputLiteral?, get?_setNode_value]
    rfl
  refine ⟨_, runAfter?_succ.2 ⟨state, hstate, rfl⟩, ?_, ?_⟩
  · refine ⟨1, by decide, state, _, hstate, hperforms, rfl, get?_setNode_name _ _ _, hread, ?_⟩
    intro between other node hafter hbefore
    omega
  · rw [hperforms.context_step, Index.context_perform_of_set _ _ rfl, hread, hcontext,
      Node.textOr_of_text "x" (get?_setNode_name _ _ _) hname]
    rfl

/-- A name that is not blank is read back by literals, in every graph and behind all moves that do
not write the variable, if and only if it has no blanks around it.  What was set is held in any
case, but a literal reads the variable named by what is left without the blanks, and else counts as
a number. -/
theorem literals_read_back_iff (name : String) (hname : Text.isAllBlank name = false) :
    (∀ (graph : Graph) (array : Array Float) (settings : Settings) (moves : Nat) (run : Run)
      (value : Value), graph.StaysSet array settings moves name value →
      graph.runAfter? array settings moves = some run →
      run.context.valueOf? name = some value ∧
      ∀ node handle, graph.index.isFed node handle = false →
        node.data.get? handle = some (.string name) →
        graph.index.input? run.context node handle =
          (run.context.valueOf? (Text.trim name)).or (Value.ofLiteral? (.string name))) ∧
    ((∀ (graph : Graph) (array : Array Float) (settings : Settings) (moves : Nat) (run : Run)
      (value : Value), graph.StaysSet array settings moves name value →
      graph.runAfter? array settings moves = some run →
      ∀ node ∈ graph.nodes, ∀ handle, node.isDataInput handle = true →
        graph.index.isFed node handle = false → node.data.get? handle = some (.string name) →
        graph.index.input run.context node handle = value) ↔
      Text.trim name = name) := by
  refine ⟨?_, ?_, ?_⟩
  · intro graph array settings moves run value hset hrun
    exact ⟨hset.valueOf?_eq hname hrun, fun node handle => Index.input?_of_text⟩
  · intro hreads
    rcases exists_run_copied hname with ⟨run, hrun, hset, hbindings⟩
    have hread := hreads (copied name) #[] {} 2 run (.bool true) hset hrun
      (setNode "copy" "y" (.string name)) (by simp [copied]) "value" rfl
      (isFed_copied name _) (get?_setNode_value _ _ _)
    -- A name that loses blanks finds no variable, and no text counts as a truth value.
    by_contra htrim
    have hunbound : run.context.valueOf? (Text.trim name) = none := by
      rw [Context.valueOf?, hbindings, Table.get?_insert_of_ne _ _ htrim]
      rfl
    rw [Index.input, Node.readOrZero, Index.input?_of_text (isFed_copied name _)
      (get?_setNode_value _ _ _), hunbound, Option.none_or, Value.ofLiteral?] at hread
    generalize Number.readFloat? (Text.trimChars name.toList) = number? at hread
    cases number? with
    | none => cases hread
    | some x => cases hread
  · intro htrim graph array settings moves run value hset hrun node _ handle _ hfed htext
    rw [Index.input, Node.readOrZero, Index.input?_of_text hfed htext, htrim,
      hset.valueOf?_eq hname hrun]
    rfl

/-- A name that is also a number is read back as what it was set to. -/
theorem literals_read_back_iff_digit :
    Text.isAllBlank "7" = false ∧ Text.trim "7" = "7" ∧
      Value.ofLiteral? (.string "7") = some (.number 7.0) ∧
      ∃ run, (copied "7").runAfter? #[] {} 2 = some run ∧
        (copied "7").StaysSet #[] {} 2 "7" (.bool true) ∧
        (copied "7").index.input run.context (setNode "copy" "y" (.string "7")) "value" =
          .bool true := by
  have hname : Text.isAllBlank "7" = false := by decide +kernel
  have htrim : Text.trim "7" = "7" := by decide +kernel
  rcases exists_run_copied hname with ⟨run, hrun, hset, -⟩
  have hread := (literals_read_back_iff "7" hname).2.2 htrim (copied "7") #[] {} 2 run (.bool true)
    hset hrun (setNode "copy" "y" (.string "7")) (by simp [copied]) "value" rfl
    (isFed_copied "7" _) (get?_setNode_value _ _ _)
  exact ⟨hname, htrim, by decide +kernel, run, hrun, hset, hread⟩

/-- With blanks around it the name is lost to literals: the variable holds what it was set to, and
its copy is set to zero. -/
theorem blanks_hide_variable :
    Text.isAllBlank " x " = false ∧ (copied " x ").validate.isValid = true ∧
      (copied " x ").StaysSet #[] {} 2 " x " (.bool true) ∧
      ∃ outcome, (copied " x ").execute? #[] {} 4 = some outcome ∧ outcome.completed = true ∧
        outcome.bindings.get? " x " = some (.bool true) ∧
        outcome.bindings.get? "y" = some (.number 0.0) := by
  have hname : Text.isAllBlank " x " = false := by decide +kernel
  rcases exists_run_copied hname with ⟨run, -, hset, -⟩
  have hshown : ((copied " x ").execute? #[] {} 4).map (fun outcome => (outcome.completed,
      outcome.bindings.get? " x ", outcome.bindings.get? "y")) =
        some (true, some (.bool true), some (.number 0.0)) := by
    decide +kernel
  rcases Option.map_eq_some_iff.1 hshown with ⟨outcome, houtcome, hleft⟩
  obtain ⟨hcompleted, hkept, hcopy⟩ : outcome.completed = true ∧
      outcome.bindings.get? " x " = some (.bool true) ∧
      outcome.bindings.get? "y" = some (.number 0.0) := by
    simpa using hleft
  exact ⟨hname, by decide +kernel, hset, outcome, houtcome, hcompleted, hkept, hcopy⟩

end Graph
end FlowTrace
