import FlowTrace.Proofs.Execution.Effects
import FlowTrace.Proofs.Execution.Moves

/-!
# Runs over indexes that agree

A run looks at an index only where it stands, where it can go from there, and where the inputs of
the nodes on its way read from.  Two indexes that agree on a set of ids closed under these needs
therefore give the same run, move by move.

* `Node.reads` — the inputs that a node reads, and no others matter to its output or its effect;
* `NodeKind.operands` — those among them that matter to its output;
* `Index.AgreeOn` — two indexes agree on a closed set of ids;
* `Index.AgreeOn.inputAfter?_eq` — inputs read the same;
* `Index.AgreeOn.perform_eq` — nodes have the same effects;
* `Index.AgreeOn.runFor_eq` — runs are the same.
-/

namespace FlowTrace

def Node.reads (node : Node) : List String :=
  node.kind.dataInputs.map Prod.fst

/-! ## What matters to a node -/

namespace NodeKind

/-- The inputs that the data output of a kind is computed from. -/
def operands : NodeKind → List String
  | ifCondition => ["left", "right"]
  | arrayAccess => ["index", "array"]
  | arrayCompare => ["i", "j"]
  | start | finish | forLoop | arraySwap | arrayHighlight | variableSet | variableGet
  | counterIncrement | updateDescription | pauseExecution => []

theorem mem_dataInputs_of_mem_operands (kind : NodeKind) :
    ∀ handle ∈ kind.operands, handle ∈ kind.dataInputs.map Prod.fst := by
  cases kind <;> decide

end NodeKind

namespace Context

/-- The output of a node depends on nothing but its operands. -/
theorem output?_congr_operands (context : Context) {node : Node}
    {read other : String → Option Value}
    (hread : ∀ handle ∈ node.kind.operands, read handle = other handle) :
    context.output? node read = context.output? node other := by
  unfold output?
  cases hkind : node.kind with
  | ifCondition =>
      have hsides : read "left" = other "left" ∧ read "right" = other "right" := by
        simpa [hkind, NodeKind.operands] using hread
      simp only [Node.readOrZero, hsides]
  | arrayAccess =>
      have hsides : read "index" = other "index" ∧ read "array" = other "array" := by
        simpa [hkind, NodeKind.operands] using hread
      simp only [Node.readOrZero, hsides]
  | arrayCompare =>
      have hsides : read "i" = other "i" ∧ read "j" = other "j" := by
        simpa [hkind, NodeKind.operands] using hread
      simp only [Node.readOrZero, hsides]
  | _ => rfl

/-- The output of a node depends on nothing but the inputs that it reads. -/
theorem output?_congr (context : Context) {node : Node} {read other : String → Option Value}
    (hread : ∀ handle ∈ node.reads, read handle = other handle) :
    context.output? node read = context.output? node other := by
  apply context.output?_congr_operands
  intro handle hmem
  exact hread handle (node.kind.mem_dataInputs_of_mem_operands handle hmem)

end Context

namespace Index

/-! ## Inputs -/

/-- An input that nothing feeds reads its literal. -/
theorem inputAfter?_of_unfed {index : Index} (context : Context) (visited : List NodeId)
    {node : Node} {handle : String} (hsource : index.source? node.id handle = none) :
    index.inputAfter? context visited node handle = context.inputLiteral? node handle := by
  rw [inputAfter?]
  simp only [hsource]

/-- So does an input that is fed by a node that is not there. -/
theorem inputAfter?_of_lost {index : Index} (context : Context) (visited : List NodeId)
    {node : Node} {handle output : String} {id : NodeId}
    (hsource : index.source? node.id handle = some (id, output)) (hnode : index.node? id = none) :
    index.inputAfter? context visited node handle = context.inputLiteral? node handle := by
  rw [inputAfter?]
  simp only [hsource]
  split
  · rfl
  · next producer hfound => cases hnode.symm.trans hfound

/-- An input that is fed reads the output of its producer, or the zero of it if the chain of reads
has passed the producer before. -/
theorem inputAfter?_of_fed {index : Index} (context : Context) (visited : List NodeId)
    {node producer : Node} {handle output : String} {id : NodeId}
    (hsource : index.source? node.id handle = some (id, output))
    (hnode : index.node? id = some producer) :
    index.inputAfter? context visited node handle =
      if id ∈ visited then
        some (.zero (producer.outputKind output))
      else
        some (context.output producer output fun input =>
          index.inputAfter? context (id :: visited) producer input) := by
  rw [inputAfter?]
  simp only [hsource]
  split
  · next hlost => cases hlost.symm.trans hnode
  · next other hfound =>
      cases hnode.symm.trans hfound
      simp

/-- Two indexes agree on a set of ids: they find the same nodes under them, these nodes lead to the
same nodes and read from the same outputs, and what they lead to and read from is in the set. -/
structure AgreeOn (first second : Index) (needed : NodeId → Prop) : Prop where
  id_eq : ∀ {id : NodeId} {node : Node}, first.node? id = some node → node.id = id
  node : ∀ {id : NodeId}, needed id → second.node? id = first.node? id
  next : ∀ {id : NodeId} (handle : String), needed id →
    second.next? id handle = first.next? id handle
  source : ∀ {id : NodeId} {node : Node}, needed id → first.node? id = some node →
    ∀ handle ∈ node.reads, second.source? id handle = first.source? id handle
  next_needed : ∀ {id target : NodeId} {handle : String}, needed id →
    first.next? id handle = some target → needed target
  source_needed : ∀ {id producer : NodeId} {node : Node} {output : String}, needed id →
    first.node? id = some node → ∀ handle ∈ node.reads,
      first.source? id handle = some (producer, output) → needed producer

namespace AgreeOn

variable {first second : Index} {needed : NodeId → Prop}

/-- The inputs of a needed node read the same. -/
theorem inputAfter?_eq (hagree : AgreeOn first second needed) (context : Context)
    (visited : List NodeId) (node : Node) (handle : String) :
    needed node.id → first.node? node.id = some node → handle ∈ node.reads →
      second.inputAfter? context visited node handle =
        first.inputAfter? context visited node handle := by
  -- The induction follows the chain of reads over the first index.
  fun_induction inputAfter? first context visited node handle with
  | case1 visited node handle hsource =>
      intro hneeded hnode hreads
      have hsame := (hagree.source hneeded hnode handle hreads).trans hsource
      exact inputAfter?_of_unfed context visited hsame
  | case2 visited node handle id output hsource hlost =>
      intro hneeded hnode hreads
      have hsame := (hagree.source hneeded hnode handle hreads).trans hsource
      have hproducer := hagree.source_needed hneeded hnode handle hreads hsource
      exact inputAfter?_of_lost context visited hsame ((hagree.node hproducer).trans hlost)
  | case3 visited node handle id output hsource producer hfound hvisited =>
      intro hneeded hnode hreads
      have hsame := (hagree.source hneeded hnode handle hreads).trans hsource
      have hproducer := hagree.source_needed hneeded hnode handle hreads hsource
      rw [inputAfter?_of_fed context visited hsame ((hagree.node hproducer).trans hfound),
        if_pos (by simpa using hvisited)]
  | case4 visited node handle id output hsource producer hfound hvisited ih =>
      intro hneeded hnode hreads
      have hsame := (hagree.source hneeded hnode handle hreads).trans hsource
      have hproducer := hagree.source_needed hneeded hnode handle hreads hsource
      have hid : producer.id = id := hagree.id_eq hfound
      rw [inputAfter?_of_fed context visited hsame ((hagree.node hproducer).trans hfound),
        if_neg (by simpa using hvisited)]
      -- The producer is needed too, so the inputs that it reads agree.
      have hinputs : ∀ input ∈ producer.reads,
          second.inputAfter? context (id :: visited) producer input =
            first.inputAfter? context (id :: visited) producer input := by
        intro input hinput
        exact ih input (hid.symm ▸ hproducer) (hid.symm ▸ hfound) hinput
      unfold Context.output
      rw [context.output?_congr hinputs]

/-! ## Nodes -/

/-- A needed node has the same effect. -/
theorem perform_eq (hagree : AgreeOn first second needed) (context : Context) {node : Node}
    (hneeded : needed node.id) (hnode : first.node? node.id = some node) :
    second.perform context node = first.perform context node := by
  have hoptional : ∀ handle ∈ node.reads,
      second.input? context node handle = first.input? context node handle := by
    intro handle hreads
    exact hagree.inputAfter?_eq context [] node handle hneeded hnode hreads
  have hread : ∀ handle ∈ node.reads,
      second.input context node handle = first.input context node handle := by
    intro handle hreads
    unfold Index.input Node.readOrZero
    rw [hoptional handle hreads]
  have hfed : ∀ handle ∈ node.reads, second.isFed node handle = first.isFed node handle := by
    intro handle hreads
    unfold isFed
    rw [hagree.source hneeded hnode handle hreads]
  -- The catalog names the inputs of each kind, so the agreement is listed input by input.
  cases hkind : node.kind
  all_goals
    simp only [Node.reads, hkind, NodeKind.dataInputs, List.map_cons, List.map_nil,
      List.forall_mem_cons] at hoptional hread hfed
  case forLoop => simp only [perform, hkind, Context.performLoop, Context.enterLoop, hread]
  case ifCondition => simp only [perform, hkind, Context.performCondition, hread]
  case arrayAccess => simp only [perform, hkind, Context.performAccess, hread, hoptional]
  case arrayCompare => simp only [perform, hkind, Context.performCompare, hread]
  case arraySwap => simp only [perform, hkind, Context.performSwap, hread]
  case arrayHighlight => simp only [perform, hkind, Context.performHighlight, hread]
  case variableSet => simp only [perform, hkind, Context.performSet, hread, hfed]
  case updateDescription => simp only [perform, hkind, Context.performNarration, hread]
  case start | finish | variableGet | counterIncrement | pauseExecution =>
    simp only [perform, hkind]

end AgreeOn

/-! ## Loops stay where the run has been -/

/-- Performing a node puts no frame on the stack but its own. -/
theorem node_of_mem_loops (index : Index) {context : Context} {node : Node} {frame : LoopFrame}
    (hmem : frame ∈ (index.perform context node).context.loops) :
    frame.node = node.id ∨ ∃ earlier ∈ context.loops, earlier.node = frame.node := by
  rcases index.frame_of_mem_loops context node hmem with
    hold | ⟨-, rfl⟩ | ⟨earlier, hearlier, -, rfl⟩
  · exact Or.inr ⟨frame, hold, rfl⟩
  · exact Or.inl rfl
  · exact Or.inr ⟨earlier, hearlier, rfl⟩

end Index

/-! ## Moves -/

/-- A run goes on at a needed id, and the loops that it can go back to are needed. -/
structure State.Confined (needed : NodeId → Prop) (state : State) : Prop where
  current : needed state.current
  loops : ∀ frame ∈ state.run.context.loops, needed frame.node

namespace Index.AgreeOn

variable {first second : Index} {needed : NodeId → Prop} {state : State}

/-- Performing a needed node leaves only needed loops on the stack. -/
theorem loops_perform (hagree : AgreeOn first second needed) (hconfined : state.Confined needed)
    {node : Node} (hnode : first.node? state.current = some node) :
    ∀ frame ∈ (first.perform state.run.context node).context.loops, needed frame.node := by
  intro frame hmem
  rcases first.node_of_mem_loops hmem with hown | ⟨earlier, hearlier, hsame⟩
  · rw [hown, hagree.id_eq hnode]
    exact hconfined.current
  · rw [← hsame]
    exact hconfined.loops earlier hearlier

/-- A move from a needed id goes on at a needed id. -/
theorem confined_of_running (hagree : AgreeOn first second needed)
    (hconfined : state.Confined needed) {stepLimit : Option Nat} {next : State}
    (hstep : state.step first stepLimit = .running next) : next.Confined needed := by
  cases State.move_of_step hstep with
  | @onward node handle target _ hnode _ hnext =>
      have hid : needed node.id := by
        rw [hagree.id_eq hnode]
        exact hconfined.current
      exact ⟨hagree.next_needed hid hnext, hagree.loops_perform hconfined hnode⟩
  | @returned node loopNode handle frame outer _ hnode _ _ hloops hloop =>
      have hneeded := hagree.loops_perform hconfined hnode
      have hframe : needed loopNode.id := by
        rw [hagree.id_eq hloop]
        exact hneeded frame (by simp [hloops])
      exact ⟨hframe, hneeded⟩

/-- A node is dispatched alike over both indexes. -/
theorem dispatch_eq (hagree : AgreeOn first second needed) (hconfined : state.Confined needed)
    {node : Node} (hnode : first.node? state.current = some node) :
    state.run.dispatch second node = state.run.dispatch first node := by
  have hid : node.id = state.current := hagree.id_eq hnode
  have hneeded : needed node.id := hid ▸ hconfined.current
  have hperform : second.perform state.run.context node = first.perform state.run.context node :=
    hagree.perform_eq _ hneeded (hid.symm ▸ hnode)
  have hframes := hagree.loops_perform hconfined hnode
  simp only [Run.dispatch, hperform]
  cases (first.perform state.run.context node).exit with
  | none => rfl
  | some handle =>
      simp only [Run.advance, hagree.next handle hneeded, Run.context_record]
      cases first.next? node.id handle with
      | some target => rfl
      | none =>
          cases hloops : (first.perform state.run.context node).context.loops with
          | nil => rfl
          | cons frame outer =>
              have hframe : needed frame.node := hframes frame (by simp [hloops])
              simp only [hagree.node hframe]

/-- A run that keeps to needed ids makes the same move with either index. -/
theorem step_eq (hagree : AgreeOn first second needed) (hconfined : state.Confined needed)
    (stepLimit : Option Nat) : state.step second stepLimit = state.step first stepLimit := by
  simp only [State.step, hagree.node hconfined.current]
  cases hnode : first.node? state.current with
  | none => rfl
  | some node => simp only [hagree.dispatch_eq hconfined hnode]

/-- A run from a needed id is the same over both indexes. -/
theorem runFor_eq (hagree : AgreeOn first second needed) (stepLimit : Option Nat) (moves : Nat) :
    ∀ {state : State}, state.Confined needed →
      state.runFor second stepLimit moves = state.runFor first stepLimit moves := by
  induction moves with
  | zero =>
      intro state _
      rfl
  | succ moves ih =>
      intro state hconfined
      simp only [State.runFor, hagree.step_eq hconfined stepLimit]
      cases hstep : state.step first stepLimit with
      | ended run => rfl
      | running next => exact ih (hagree.confined_of_running hconfined hstep)

end Index.AgreeOn
end FlowTrace
