import FlowTrace.Proofs.Execution.Effects
import FlowTrace.Proofs.Execution.Moves

/-!
# What a trace tells of a variable

The variables of a run are hidden in its context, but the trace tells their story: a step that reads
a variable shows what the last step before it wrote, and what the last write of all left is what the
run leaves behind.  Loops write their variables without saying so, so this holds of the variables
that no loop counts in.

* `heldAfter?` — what a variable holds behind some steps, as far as they tell;
* `Recounts` — a list of steps tells the story of a variable;
* `Effect.Tells` — the step of a node tells what the node did to a variable, and every node does;
* `Run.Recounts.step` — every move goes on with the story;
* `Graph.execute?_recounts` — so the trace of a whole run tells it.
-/

namespace FlowTrace

/-! ## The story of a variable -/

namespace Step

def shown? (step : Step) : Option Json :=
  step.metadata.get? "value"

def names (step : Step) (name : String) : Bool :=
  step.metadata.get? "variable" = some (.string name)

def writes (step : Step) (name : String) : Bool :=
  (step.isEvent .variableSet || step.isEvent .counterIncrement) && step.names name

def recalls (step : Step) (name : String) : Bool :=
  step.isEvent .variableGet && step.names name

end Step

/-- What a variable holds behind some steps: what the last step that writes it shows, or what it
held in the beginning where there is none. -/
def heldAfter? (initial : Option Json) (name : String) (steps : List Step) : Option Json :=
  match (steps.filter (·.writes name)).getLast? with
  | some write => write.shown?
  | none => initial

/-- One more step changes what a variable holds if it writes the variable. -/
theorem heldAfter?_concat (initial : Option Json) (name : String) (steps : List Step)
    (step : Step) :
    heldAfter? initial name (steps ++ [step]) =
      if step.writes name = true then step.shown? else heldAfter? initial name steps := by
  unfold heldAfter?
  rw [List.filter_append]
  by_cases hwrites : step.writes name = true
  · simp [hwrites]
  · simp [hwrites]

/-- Steps that tell the story of a variable: each step that reads it shows what it held there, zero
if it was unbound; each step that writes it shows a value; and what it held behind all of them is
what it holds in the end. -/
structure Recounts (initial : Option Json) (name : String) (steps : List Step)
    (final : Option Json) : Prop where
  reads : ∀ earlier step later, steps = earlier ++ step :: later → step.recalls name = true →
    step.shown? = some ((heldAfter? initial name earlier).getD (.ofFloat 0.0))
  writes : ∀ step ∈ steps, step.writes name = true → step.shown?.isSome = true
  final : final = heldAfter? initial name steps

namespace Recounts

variable {initial final : Option Json} {name : String} {steps : List Step}

theorem nil (initial : Option Json) (name : String) : Recounts initial name [] initial := by
  refine ⟨?_, ?_, rfl⟩
  · intro earlier step later hsteps
    simp at hsteps
  · intro step hmem
    cases hmem

/-- One more step goes on with the story if it shows what the variable holds, or writes it. -/
theorem concat {step : Step} (h : Recounts initial name steps final)
    (hread : step.recalls name = true → step.shown? = some (final.getD (.ofFloat 0.0)))
    (hwrite : step.writes name = true → step.shown?.isSome = true) :
    Recounts initial name (steps ++ [step])
      (if step.writes name = true then step.shown? else final) := by
  refine ⟨?_, ?_, ?_⟩
  · -- A read is judged by the steps in front of it, which the new step does not belong to.
    intro earlier other later hsplit hrecalls
    rcases Step.split_concat hsplit with ⟨-, rfl, rfl⟩ | ⟨between, -, hbefore⟩
    · rw [← h.final]
      exact hread hrecalls
    · exact h.reads earlier other between hbefore hrecalls
  · intro other hmem hwrites
    rcases List.mem_append.1 hmem with hold | hnew
    · exact h.writes other hold hwrites
    · cases List.mem_singleton.1 hnew
      exact hwrite hwrites
  · rw [heldAfter?_concat, ← h.final]

end Recounts

/-! ## Steps that tell of no variable -/

def Event.isAboutVariable : Event → Bool
  | .variableSet | .variableGet | .counterIncrement => true
  | _ => false

theorem NodeKind.isAboutVariable_of_mem_events {kind : NodeKind} (hset : kind ≠ .variableSet)
    (hget : kind ≠ .variableGet) (hcounter : kind ≠ .counterIncrement) :
    ∀ event ∈ kind.events, event.isAboutVariable = false := by
  revert hset hget hcounter
  cases kind <;> decide

namespace Step

theorem writes_snapshot_of_ne {draft : Draft} {event : Event} {array : Array Float} (name : String)
    (hreports : draft.Reports event) (hset : event ≠ .variableSet)
    (hcounter : event ≠ .counterIncrement) : (draft.snapshot array).writes name = false := by
  simp [writes, isEvent_snapshot_of_ne hreports hset.symm,
    isEvent_snapshot_of_ne hreports hcounter.symm]

theorem recalls_snapshot_of_ne {draft : Draft} {event : Event} {array : Array Float} (name : String)
    (hreports : draft.Reports event) (hget : event ≠ .variableGet) :
    (draft.snapshot array).recalls name = false := by
  simp [recalls, isEvent_snapshot_of_ne hreports hget.symm]

end Step

/-! ## What the step of a node tells -/

/-- The step of an effect tells what became of a variable: if it reads the variable it shows what it
held, if it writes the variable it shows what it holds now, and otherwise nothing has changed. -/
structure Effect.Tells (name : String) (context : Context) (effect : Effect) : Prop where
  reads : (effect.draft.snapshot effect.context.array).recalls name = true →
    (effect.draft.snapshot effect.context.array).shown? =
      some (((context.valueOf? name).map Value.toJson).getD (.ofFloat 0.0))
  writes : (effect.draft.snapshot effect.context.array).writes name = true →
    (effect.draft.snapshot effect.context.array).shown?.isSome = true
  held : (effect.context.valueOf? name).map Value.toJson =
    if (effect.draft.snapshot effect.context.array).writes name = true then
      (effect.draft.snapshot effect.context.array).shown?
    else
      (context.valueOf? name).map Value.toJson

namespace Effect

variable {context : Context} {effect : Effect} {event : Event}

/-- An effect that reports something else has to leave the variable alone. -/
theorem tells_of_quiet {name : String} (hreports : effect.draft.Reports event)
    (hevent : event.isAboutVariable = false)
    (hheld : effect.context.valueOf? name = context.valueOf? name) : effect.Tells name context := by
  have hset : event ≠ .variableSet := by rintro rfl; cases hevent
  have hget : event ≠ .variableGet := by rintro rfl; cases hevent
  have hcounter : event ≠ .counterIncrement := by rintro rfl; cases hevent
  refine ⟨?_, ?_, ?_⟩
  · simp [Step.recalls_snapshot_of_ne name hreports hget]
  · simp [Step.writes_snapshot_of_ne name hreports hset hcounter]
  · simp [Step.writes_snapshot_of_ne name hreports hset hcounter, hheld]

/-- An effect that binds a variable and shows its name and value tells of every variable. -/
theorem tells_of_write (name written : String) (value : Value)
    (hreports : effect.draft.Reports event)
    (hevent : event = .variableSet ∨ event = .counterIncrement)
    (hvariable : effect.draft.metadata.get? "variable" = some (.string written))
    (hvalue : effect.draft.metadata.get? "value" = some value.toJson)
    (hbound : effect.context.bindings = context.bindings.insert written value) :
    effect.Tells name context := by
  have hget : event ≠ .variableGet := by rcases hevent with rfl | rfl <;> decide
  have hwrites : (effect.draft.snapshot effect.context.array).writes name =
      decide (written = name) := by
    have hshown : ((effect.draft.snapshot effect.context.array).isEvent .variableSet ||
        (effect.draft.snapshot effect.context.array).isEvent .counterIncrement) = true := by
      rw [Bool.or_eq_true, Step.isEvent_snapshot_iff hreports, Step.isEvent_snapshot_iff hreports]
      rcases hevent with rfl | rfl
      · exact Or.inl rfl
      · exact Or.inr rfl
    simp [Step.writes, hshown, Step.names, hvariable]
  have hshows : (effect.draft.snapshot effect.context.array).shown? = some value.toJson := hvalue
  refine ⟨?_, ?_, ?_⟩
  · simp [Step.recalls_snapshot_of_ne name hreports hget]
  · simp [hshows]
  · unfold Context.valueOf?
    rw [hwrites, hshows, hbound, Table.get?_insert]
    by_cases hsame : written = name
    · simp [hsame]
    · simp [hsame, Ne.symm hsame]

end Effect

namespace Context

variable (context : Context) (node : Node) (name : String)

/-- Setting a variable tells its value. -/
theorem tells_performSet (read : String → Value) (isFed : Bool) :
    (context.performSet node read isFed).Tells name context := by
  have hreports : (context.performSet node read isFed).draft.Reports .variableSet := by
    simp [performSet, Draft.Reports]
  refine Effect.tells_of_write name (node.textOr "name" "x") (read "value") hreports (Or.inl rfl)
    ?_ ?_ rfl
  · simp [performSet]
  · simp [performSet]

theorem tells_performIncrement : (context.performIncrement node).Tells name context := by
  have hreports : (context.performIncrement node).draft.Reports .counterIncrement := by
    simp [performIncrement, Draft.Reports]
  refine Effect.tells_of_write name (node.textOr "name" "count")
    (.number (((context.valueOf? (node.textOr "name" "count")).map Value.asNumber).getD 0.0 + 1.0))
    hreports (Or.inr rfl) ?_ ?_ rfl
  · simp [performIncrement]
  · simp [performIncrement, Value.toJson]

theorem tells_performGet : (context.performGet node).Tells name context := by
  have hreports : (context.performGet node).draft.Reports .variableGet := by
    simp [performGet, Draft.Reports]
  refine ⟨?_, ?_, ?_⟩
  · intro hrecalls
    -- The step names the variable that it reads.
    have hname : node.textOr "name" "x" = name := by
      have hnames : ((context.performGet node).draft.snapshot
          (context.performGet node).context.array).names name = true :=
        (Bool.and_eq_true_iff.1 hrecalls).2
      simpa [Step.names, performGet] using hnames
    simp only [Step.shown?, Draft.metadata_snapshot, performGet, hname]
    cases context.valueOf? name <;> simp [Value.toJson]
  · simp [Step.writes_snapshot_of_ne name hreports]
  · simp only [Step.writes_snapshot_of_ne name hreports (by decide) (by decide)]
    rfl

end Context

/-- A loop that does not count in a variable leaves it alone. -/
theorem LoopVisit.valueOf?_eq {context : Context} {node : Node} {read : String → Value}
    {effect : Effect} {name : String} (h : LoopVisit context node read effect)
    (hnode : node.textOr "variable" "i" ≠ name)
    (hframes : ∀ frame ∈ context.loops, frame.node = node.id → frame.variableName ≠ name) :
    effect.context.valueOf? name = context.valueOf? name := by
  cases h with
  | entered => exact (LoopFrame.entry node read).valueOf?_bind_of_ne context hnode
  | skipped => exact (LoopFrame.entry node read).valueOf?_bind_of_ne context hnode
  | @iterated inner outer frame hsplit hid =>
      exact frame.next.valueOf?_bind_of_ne context (hframes frame (by simp [hsplit]) hid)
  | @completed inner outer frame hsplit hid =>
      exact frame.next.valueOf?_bind_of_ne context (hframes frame (by simp [hsplit]) hid)

/-- Every node tells of a variable that no loop counts in. -/
theorem Index.tells_perform (index : Index) {context : Context} {node : Node} {name : String}
    (hnode : node.kind = .forLoop → node.textOr "variable" "i" ≠ name)
    (hframes : ∀ frame ∈ context.loops, frame.variableName ≠ name) :
    (index.perform context node).Tells name context := by
  by_cases hset : node.kind = .variableSet
  · simp only [perform, hset]
    exact context.tells_performSet node name _ _
  by_cases hget : node.kind = .variableGet
  · simp only [perform, hget]
    exact context.tells_performGet node name
  by_cases hcounter : node.kind = .counterIncrement
  · simp only [perform, hcounter]
    exact context.tells_performIncrement node name
  · rcases index.perform_reports context node with ⟨event, hmem, hreports⟩
    have hevent := NodeKind.isAboutVariable_of_mem_events hset hget hcounter event hmem
    refine Effect.tells_of_quiet hreports hevent ?_
    -- Of the nodes that are left, only a loop writes a variable.
    by_cases hloop : node.kind = .forLoop
    · exact (index.loopVisit_perform context node hloop).valueOf?_eq (hnode hloop)
        fun frame hmem _ => hframes frame hmem
    · unfold Context.valueOf?
      rw [index.bindings_perform context node hloop hset hcounter]

/-! ## Moves and runs -/

/-- A run whose trace tells the story of a variable that none of its loops counts in. -/
structure Run.Recounts (initial : Option Json) (name : String) (run : Run) : Prop where
  story : FlowTrace.Recounts initial name run.trace.toList
    ((run.context.valueOf? name).map Value.toJson)
  loops : ∀ frame ∈ run.context.loops, frame.variableName ≠ name

namespace Run.Recounts

variable {initial : Option Json} {name : String} {run : Run}

/-- A step that is not about a variable leaves the story as it is. -/
theorem record {draft : Draft} {event : Event} (h : run.Recounts initial name)
    (hreports : draft.Reports event) (hevent : event.isAboutVariable = false) :
    (run.record draft).Recounts initial name := by
  have htells : ({ context := run.context, draft } : Effect).Tells name run.context :=
    Effect.tells_of_quiet hreports hevent rfl
  refine ⟨?_, h.loops⟩
  have hstory := h.story.concat htells.reads htells.writes
  rw [← htells.held] at hstory
  simpa using hstory

/-- Performing a node goes on with the story, unless a loop counts in the variable. -/
theorem performed {index : Index} {node : Node} (h : run.Recounts initial name)
    (hnode : node.kind = .forLoop → node.textOr "variable" "i" ≠ name) :
    (run.performed index node).Recounts initial name := by
  have htells := index.tells_perform hnode h.loops
  refine ⟨?_, ?_⟩
  · have hstory := h.story.concat htells.reads htells.writes
    rw [← htells.held] at hstory
    simpa using hstory
  · -- A frame on the stack was there before, is that of a loop just entered, or moves one on.
    intro frame hmem
    rcases index.frame_of_mem_loops run.context node hmem with
      hold | ⟨hkind, rfl⟩ | ⟨earlier, hearlier, -, rfl⟩
    · exact h.loops frame hold
    · exact hnode hkind
    · exact h.loops earlier hearlier

/-- Every move goes on with the story. -/
theorem step {graph : Graph} {state : State} (stepLimit : Option Nat)
    (hloops : ∀ node ∈ graph.nodesOfKind .forLoop, node.textOr "variable" "i" ≠ name)
    (h : state.run.Recounts initial name) :
    (state.step graph.index stepLimit).run.Recounts initial name := by
  have hperformed : ∀ {node}, graph.index.node? state.current = some node →
      (state.run.performed graph.index node).Recounts initial name := by
    intro node hnode
    refine h.performed fun hkind => hloops node (List.mem_filter.2 ⟨?_, by simpa using hkind⟩)
    exact Graph.mem_of_node? (by simpa using hnode)
  have hfail : ∀ error, (state.run.fail error).Recounts initial name := by
    intro error
    have hfailed := h.record (reports_failure state.run.context error) rfl
    exact ⟨hfailed.story, hfailed.loops⟩
  have hmove := State.move_step graph.index stepLimit state
  generalize state.step graph.index stepLimit = progress at hmove
  cases hmove with
  | limitReached => exact hfail _
  | nodeMissing => exact hfail _
  | finished _ hnode => exact hperformed hnode
  | onward _ hnode => exact hperformed hnode
  | pathEnded _ hnode => exact (hperformed hnode).record (reports_pathEnded _ _) rfl
  | returned _ hnode => exact (hperformed hnode).record (reports_bodyComplete _ _) rfl
  | loopLost _ hnode => exact (hperformed hnode).record (reports_bodyComplete _ _) rfl

end Run.Recounts

namespace Graph

/-- The trace of a run tells the story of every variable that no loop counts in: a step that reads
it shows the value of the closest write before it, or else what it was bound to in the beginning,
zero if nothing; and the run leaves it with the value of the last write, or else as it was. -/
theorem execute?_recounts (graph : Graph) (array : Array Float) (settings : Settings) (moves : Nat)
    (outcome : Outcome) (name : String)
    (hloops : ∀ node ∈ graph.nodesOfKind .forLoop, node.textOr "variable" "i" ≠ name)
    (houtcome : graph.execute? array settings moves = some outcome) :
    Recounts ((settings.bindings.reverse.lookup name).map Value.toJson) name outcome.steps
      ((outcome.bindings.get? name).map Value.toJson) := by
  have hinitial : (initialContext array settings).valueOf? name =
      settings.bindings.reverse.lookup name :=
    Table.get?_ofList settings.bindings name
  rcases exists_runAfter?_of_execute? houtcome with ⟨-, rfl⟩ | ⟨count, run, hrun, rfl⟩
  · -- Without a start node nothing is told, and nothing happens to the variable.
    rw [← hinitial]
    exact Recounts.nil _ name
  · have hrecounts : run.Recounts ((settings.bindings.reverse.lookup name).map Value.toJson)
        name := by
      revert hrun
      apply runAfter?_invariant
      · rw [← hinitial]
        exact ⟨Recounts.nil _ name, by simp [initialContext]⟩
      · intro state h
        exact h.step settings.stepLimit hloops
    exact hrecounts.story

/-- A tally that is shown and set, raised and shown again in each of two rounds, and shown at the
end. -/
def talliedRounds : Graph where
  nodes :=
    [Node.new "begin" .start,
      (Node.new "before" .variableGet).withParameter "name" (.string "tally"),
      ((Node.new "assign" .variableSet).withParameter "name" (.string "tally")).withParameter
        "value" (.int 8),
      (Node.new "rounds" .forLoop).withParameter "end" (.int 2),
      (Node.new "raise" .counterIncrement).withParameter "name" (.string "tally"),
      (Node.new "within" .variableGet).withParameter "name" (.string "tally"),
      (Node.new "after" .variableGet).withParameter "name" (.string "tally"),
      Node.new "finish" .finish]
  connections :=
    [⟨⟨"begin", execOut, "before", execIn⟩, "1"⟩,
      ⟨⟨"before", execOut, "assign", execIn⟩, "2"⟩,
      ⟨⟨"assign", execOut, "rounds", execIn⟩, "3"⟩,
      ⟨⟨"rounds", "body", "raise", execIn⟩, "4"⟩,
      ⟨⟨"raise", execOut, "within", execIn⟩, "5"⟩,
      ⟨⟨"rounds", "complete", "after", execIn⟩, "6"⟩,
      ⟨⟨"after", execOut, "finish", execIn⟩, "7"⟩]

/-- The tally starts at five and is set to eight; the reads show five, nine, ten and ten. -/
theorem execute?_recounts_talliedRounds :
    ∃ outcome, talliedRounds.execute? #[] ⟨none, [("tally", .number 5.0)]⟩ 13 = some outcome ∧
      (outcome.steps.filter (·.recalls "tally")).map Step.shown? =
        [some (.float 5.0), some (.float 9.0), some (.float 10.0), some (.float 10.0)] ∧
      (∀ node ∈ talliedRounds.nodesOfKind .forLoop, node.textOr "variable" "i" ≠ "tally") ∧
      Recounts (some (.float 5.0)) "tally" outcome.steps
        ((outcome.bindings.get? "tally").map Value.toJson) := by
  have hshown : ((talliedRounds.execute? #[] ⟨none, [("tally", .number 5.0)]⟩ 13).map
      fun outcome => (outcome.steps.filter (·.recalls "tally")).map Step.shown?) =
        some [some (.float 5.0), some (.float 9.0), some (.float 10.0), some (.float 10.0)] := by
    decide +kernel
  have hloops : ∀ node ∈ talliedRounds.nodesOfKind .forLoop,
      node.textOr "variable" "i" ≠ "tally" := by
    decide +kernel
  have hinitial : (([("tally", Value.number 5.0)].reverse.lookup "tally").map Value.toJson) =
      some (.float 5.0) := by
    decide +kernel
  rcases Option.map_eq_some_iff.1 hshown with ⟨outcome, houtcome, hreads⟩
  have hrecounts := execute?_recounts talliedRounds #[] ⟨none, [("tally", .number 5.0)]⟩ 13 outcome
    "tally" hloops houtcome
  rw [hinitial] at hrecounts
  exact ⟨outcome, houtcome, hreads, hloops, hrecounts⟩

end Graph
end FlowTrace
