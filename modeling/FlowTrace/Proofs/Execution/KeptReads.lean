import FlowTrace.Proofs.Execution.Agreement
import FlowTrace.Proofs.Execution.LoopStack

/-!
# What array accesses keep

An array access keeps the element that it found until it has its turn again.  So the table of the
values last read is a record of the run: it has an entry for an access if and only if the last turn
of the access was within bounds, and the entry is what was found then.  Whoever reads the output of
the access in the meantime reads that, whatever has happened to the array, the variables or the
loops; after a turn out of bounds nothing is kept, and the output is looked up afresh.

* `Context.element?` — the element that an array access finds;
* `Graph.LastPerformed` — the last turn of a node before a number of moves;
* `Graph.get?_reads_iff` — the table is the record of these turns;
* `Index.Asked` — the reads that come about when inputs are read; none of them asks for the inputs
  of an access that keeps an element.
-/

namespace FlowTrace

/-! ## Array accesses -/

def Context.element? (context : Context) (node : Node) (read : String → Option Value) :
    Option Float := do
  let i ← (node.readOrZero read "index").asIndex
  (context.accessedArray (read "array")).1[i]?

/-- The element that an array access finds when it has its turn; none out of bounds. -/
def Index.accessed? (index : Index) (context : Context) (node : Node) : Option Float :=
  context.element? node (index.input? context node)

/-- An array access that has its turn keeps what it finds, and nothing if it is out of bounds; the
other entries stay. -/
theorem Index.get?_reads_of_access (index : Index) (context : Context) {node : Node}
    (hkind : node.kind = .arrayAccess) (id : NodeId) :
    (index.perform context node).context.reads.get? id =
      if id = node.id then (index.accessed? context node).map Value.number
      else context.reads.get? id := by
  simp only [perform, hkind, Context.performAccess]
  have hindex : index.input context node "index" =
      node.readOrZero (index.input? context node) "index" := rfl
  split
  · next i x hfound =>
      rcases Option.bind_eq_some_iff.1 hfound with ⟨j, hposition, hpair⟩
      rcases Option.map_eq_some_iff.1 hpair with ⟨y, hitem, hsame⟩
      cases hsame
      have helement : index.accessed? context node = some x := by
        simp [accessed?, Context.element?, ← hindex, hposition, hitem]
      simp [helement, Table.get?_insert]
  · next hlost =>
      have helement : index.accessed? context node = none := by
        simpa [accessed?, Context.element?, ← hindex] using hlost
      simp [helement, Table.get?_erase]

/-- Performing any other node, or another access, leaves an entry alone. -/
theorem Index.get?_reads_of_other (index : Index) (context : Context) {node : Node} {id : NodeId}
    (hother : ¬ (node.kind = .arrayAccess ∧ id = node.id)) :
    (index.perform context node).context.reads.get? id = context.reads.get? id := by
  by_cases hkind : node.kind = .arrayAccess
  · rw [index.get?_reads_of_access context hkind, if_neg fun hid => hother ⟨hkind, hid⟩]
  · rw [index.reads_perform context node hkind]

theorem Node.zero_of_access {node : Node} (hkind : node.kind = .arrayAccess) :
    Value.zero (node.outputKind "value") = .number 0.0 := by
  simp only [outputKind, output?, hkind]
  decide

namespace Context

variable {context : Context} {node : Node}

/-- An access that keeps an element gives it out, however its inputs read. -/
theorem output_of_kept (hkind : node.kind = .arrayAccess) {value : Value}
    (hkept : context.reads.get? node.id = some value) (handle : String)
    (read : String → Option Value) : context.output node handle read = value := by
  simp [output, output?, hkind, hkept]

/-- An access that keeps nothing looks its element up. -/
theorem output?_of_not_kept (hkind : node.kind = .arrayAccess)
    (hfree : context.reads.get? node.id = none) (read : String → Option Value) :
    context.output? node read = (context.element? node read).map Value.number := by
  simp only [output?, hkind, hfree, element?]
  cases (node.readOrZero read "index").asIndex with
  | none => rfl
  | some i => cases h : (context.accessedArray (read "array")).1[i]? <;> simp [h]

/-- An access that keeps nothing gives out the element that its inputs lead to now, and zero out of
bounds. -/
theorem output_of_not_kept (hkind : node.kind = .arrayAccess)
    (hfree : context.reads.get? node.id = none) (read : String → Option Value) :
    context.output node "value" read = .number ((context.element? node read).getD 0.0) := by
  unfold output
  rw [output?_of_not_kept hkind hfree, Node.zero_of_access hkind]
  cases context.element? node read <;> rfl

end Context

/-! ## Reads that come about -/

/-- The inputs that a node asks for to give its output.  An array access that keeps an element asks
for none. -/
def Context.asked (context : Context) (node : Node) : List String :=
  if node.kind = .arrayAccess ∧ (context.reads.get? node.id).isSome = true then []
  else node.kind.operands

/-- The output of a node depends on nothing but the inputs that it asks for. -/
theorem Context.output?_congr_asked (context : Context) {node : Node}
    {read other : String → Option Value}
    (hread : ∀ handle ∈ context.asked node, read handle = other handle) :
    context.output? node read = context.output? node other := by
  by_cases hkept : node.kind = .arrayAccess ∧ (context.reads.get? node.id).isSome = true
  · rcases hkept with ⟨hkind, hsome⟩
    rcases Option.isSome_iff_exists.1 hsome with ⟨value, hvalue⟩
    simp [output?, hkind, hvalue]
  · rw [asked, if_neg hkept] at hread
    exact context.output?_congr_operands hread

/-- A read of an input that comes about, with the producers that were passed to get there: the first
of a chain, or one that a producer asks for. -/
inductive Index.Asked (index : Index) (context : Context) : List NodeId → Node → String → Prop where
  | first (node : Node) (handle : String) : Asked index context [] node handle
  | next {visited : List NodeId} {node producer : Node} {handle output input : String}
      {id : NodeId} :
      Asked index context visited node handle → index.source? node.id handle = some (id, output) →
      index.node? id = some producer → id ∉ visited → input ∈ context.asked producer →
      Asked index context (id :: visited) producer input

/-- No read that comes about has passed an access that keeps an element. -/
theorem Graph.not_mem_of_asked {graph : Graph} {context : Context} {visited : List NodeId}
    {node access : Node} {handle : String} (hasked : graph.index.Asked context visited node handle)
    (haccess : graph.index.node? access.id = some access) (hkind : access.kind = .arrayAccess)
    (hkept : (context.reads.get? access.id).isSome = true) : access.id ∉ visited := by
  induction hasked with
  | first => exact List.not_mem_nil
  | @next visited node producer handle output input id _ _ hproducer _ hinput ih =>
      intro hmem
      rcases List.mem_cons.1 hmem with rfl | hmem
      · -- The access itself would have been asked for an input.
        cases haccess.symm.trans hproducer
        rw [Context.asked, if_pos ⟨hkind, hkept⟩] at hinput
        cases hinput
      · exact ih hmem

/-! ## Turns -/

namespace State

/-- A move performs a node: the limit leaves room, and the run stands at the node. -/
def Performs (index : Index) (stepLimit : Option Nat) (state : State) (node : Node) : Prop :=
  state.WithinLimit stepLimit ∧ index.node? state.current = some node

variable {index : Index} {stepLimit : Option Nat} {state : State}

theorem Performs.unique {node other : Node} (h : state.Performs index stepLimit node)
    (hother : state.Performs index stepLimit other) : node = other :=
  Option.some.inj (h.2.symm.trans hother.2)

theorem not_performs_of_limit {limit : Nat} (hlimit : stepLimit = some limit)
    (hreached : limit ≤ state.run.trace.size) (node : Node) :
    ¬ state.Performs index stepLimit node := by
  rintro ⟨hwithin, -⟩
  exact absurd (hwithin limit hlimit) (Nat.not_lt.2 hreached)

theorem not_performs_of_missing (hmissing : index.node? state.current = none) (node : Node) :
    ¬ state.Performs index stepLimit node := by
  rintro ⟨-, hnode⟩
  cases hmissing.symm.trans hnode

/-- A move changes the context as the node that it performs does; if it performs none, it notes an
error and leaves all else alone. -/
theorem performs_or_fails (index : Index) (stepLimit : Option Nat) (state : State) :
    (∃ node, state.Performs index stepLimit node ∧
      (state.step index stepLimit).run.context = (index.perform state.run.context node).context) ∨
    (∀ node, ¬ state.Performs index stepLimit node) ∧
      ∃ error, (state.step index stepLimit).run.context =
        { state.run.context with error := some error } := by
  have hmove := move_step index stepLimit state
  generalize state.step index stepLimit = progress at hmove
  cases hmove with
  | limitReached hlimit hle => exact Or.inr ⟨not_performs_of_limit hlimit hle, _, rfl⟩
  | nodeMissing _ hmissing => exact Or.inr ⟨not_performs_of_missing hmissing, _, rfl⟩
  | finished hwithin hnode => exact Or.inl ⟨_, ⟨hwithin, hnode⟩, rfl⟩
  | onward hwithin hnode => exact Or.inl ⟨_, ⟨hwithin, hnode⟩, rfl⟩
  | pathEnded hwithin hnode => exact Or.inl ⟨_, ⟨hwithin, hnode⟩, rfl⟩
  | returned hwithin hnode => exact Or.inl ⟨_, ⟨hwithin, hnode⟩, rfl⟩
  | loopLost hwithin hnode => exact Or.inl ⟨_, ⟨hwithin, hnode⟩, rfl⟩

theorem Performs.context_step {node : Node} (h : state.Performs index stepLimit node) :
    (state.step index stepLimit).run.context = (index.perform state.run.context node).context := by
  rcases state.performs_or_fails index stepLimit with ⟨other, hother, hcontext⟩ | ⟨hnone, -⟩
  · cases hother.unique h
    exact hcontext
  · exact absurd h (hnone node)

end State

namespace Graph

variable {graph : Graph} {array : Array Float} {settings : Settings} {moves : Nat} {node : Node}
  {state current : State} {run : Run}

/-- Among the moves before a number of moves, the last one that performs a node starts from a
state. -/
def LastPerformed (graph : Graph) (array : Array Float) (settings : Settings) (moves : Nat)
    (node : Node) (state : State) : Prop :=
  ∃ last < moves, graph.stateAt? array settings last = some state ∧
    state.Performs graph.index settings.stepLimit node ∧
    ∀ between other, last < between → between < moves →
      graph.stateAt? array settings between = some other →
        ¬ other.Performs graph.index settings.stepLimit node

theorem not_lastPerformed_zero : ¬ graph.LastPerformed array settings 0 node state := by
  rintro ⟨last, hlast, -⟩
  exact Nat.not_lt_zero last hlast

/-- A move that performs the node is its last turn. -/
theorem lastPerformed_succ_of_performs
    (hcurrent : graph.stateAt? array settings moves = some current)
    (hperforms : current.Performs graph.index settings.stepLimit node) :
    graph.LastPerformed array settings (moves + 1) node state ↔ state = current := by
  constructor
  · rintro ⟨last, hlast, hstate, -, hnone⟩
    rcases Nat.lt_or_eq_of_le (Nat.le_of_lt_succ hlast) with hlt | rfl
    · exact absurd hperforms (hnone moves current hlt (Nat.lt_succ_self moves) hcurrent)
    · exact Option.some.inj (hstate.symm.trans hcurrent)
  · rintro rfl
    refine ⟨moves, Nat.lt_succ_self moves, hcurrent, hperforms, ?_⟩
    intro between other hafter hbefore
    omega

/-- A move that does not perform the node leaves its last turn as it is. -/
theorem lastPerformed_succ_of_not_performs
    (hcurrent : graph.stateAt? array settings moves = some current)
    (hnot : ¬ current.Performs graph.index settings.stepLimit node) :
    graph.LastPerformed array settings (moves + 1) node state ↔
      graph.LastPerformed array settings moves node state := by
  constructor
  · rintro ⟨last, hlast, hstate, hperforms, hnone⟩
    rcases Nat.lt_or_eq_of_le (Nat.le_of_lt_succ hlast) with hlt | rfl
    · refine ⟨last, hlt, hstate, hperforms, ?_⟩
      intro between other hafter hbefore
      exact hnone between other hafter (Nat.lt_succ_of_lt hbefore)
    · cases hstate.symm.trans hcurrent
      exact absurd hperforms hnot
  · rintro ⟨last, hlast, hstate, hperforms, hnone⟩
    refine ⟨last, Nat.lt_succ_of_lt hlast, hstate, hperforms, ?_⟩
    intro between other hafter hbefore hother
    rcases Nat.lt_or_eq_of_le (Nat.le_of_lt_succ hbefore) with hlt | rfl
    · exact hnone between other hafter hlt hother
    · cases hcurrent.symm.trans hother
      exact hnot

/-- The node is found under its id. -/
theorem LastPerformed.node? (h : graph.LastPerformed array settings moves node state) :
    graph.index.node? node.id = some node := by
  rcases h with ⟨last, -, -, ⟨-, hnode⟩, -⟩
  exact index_node?_self hnode

/-- A node has one last turn. -/
theorem LastPerformed.unique {other : State}
    (h : graph.LastPerformed array settings moves node state)
    (hother : graph.LastPerformed array settings moves node other) : state = other := by
  rcases h with ⟨last, hlast, hstate, hperforms, hnone⟩
  rcases hother with ⟨again, hagain, hstate', hperforms', hnone'⟩
  rcases Nat.lt_trichotomy last again with hlt | rfl | hlt
  · exact absurd hperforms' (hnone again other hlt hagain hstate')
  · exact Option.some.inj (hstate.symm.trans hstate')
  · exact absurd hperforms (hnone' last state hlt hlast hstate)

/-- Behind some moves an array access keeps a value: the last turn of the access was within bounds,
and the value is the element found then. -/
def Keeps (graph : Graph) (array : Array Float) (settings : Settings) (moves : Nat) (id : NodeId)
    (value : Value) : Prop :=
  ∃ node state x, graph.index.node? id = some node ∧ node.kind = .arrayAccess ∧
    graph.LastPerformed array settings moves node state ∧
    graph.index.accessed? state.run.context node = some x ∧ value = .number x

/-- A move that performs no access of that id changes nothing about what is kept under it. -/
theorem keeps_succ_of_not_performs {id : NodeId} {value : Value}
    (hcurrent : graph.stateAt? array settings moves = some current)
    (hnot : ∀ node, graph.index.node? id = some node → node.kind = .arrayAccess →
      ¬ current.Performs graph.index settings.stepLimit node) :
    graph.Keeps array settings (moves + 1) id value ↔
      graph.Keeps array settings moves id value := by
  constructor
  · rintro ⟨node, state, x, hnode, hkind, hlast, hfound⟩
    have hother := hnot node hnode hkind
    exact ⟨node, state, x, hnode, hkind,
      (lastPerformed_succ_of_not_performs hcurrent hother).1 hlast, hfound⟩
  · rintro ⟨node, state, x, hnode, hkind, hlast, hfound⟩
    have hother := hnot node hnode hkind
    exact ⟨node, state, x, hnode, hkind,
      (lastPerformed_succ_of_not_performs hcurrent hother).2 hlast, hfound⟩

/-- The table of the values last read is the record of the turns of the array accesses. -/
theorem get?_reads_iff :
    ∀ {moves : Nat} {run : Run}, graph.runAfter? array settings moves = some run →
      ∀ id value, run.context.reads.get? id = some value ↔
        graph.Keeps array settings moves id value := by
  -- One more move can change the entry and the last turn of the access that it performs, and of no
  -- other, so both sides change together.
  intro moves
  induction moves with
  | zero =>
      intro run hrun id value
      rcases Option.map_eq_some_iff.1 hrun with ⟨state, hstate, rfl⟩
      rcases stateAt?_zero.1 hstate with ⟨start, others, -, rfl⟩
      constructor
      · intro hsome
        simp [initialState, initialContext] at hsome
      · rintro ⟨node, state, x, -, -, hlast, -⟩
        exact absurd hlast not_lastPerformed_zero
  | succ moves ih =>
      intro run hrun id value
      rcases runAfter?_succ.1 hrun with ⟨current, hcurrent, rfl⟩
      have hbefore := ih (runAfter?_of_stateAt? hcurrent) id value
      rcases current.performs_or_fails graph.index settings.stepLimit with
        ⟨performed, hperforms, hcontext⟩ | ⟨hnone, error, hcontext⟩
      · by_cases hturn : performed.kind = .arrayAccess ∧ id = performed.id
        · -- This is the turn of the access, so the entry is what it finds now.
          rcases hturn with ⟨hkind, rfl⟩
          have hself := index_node?_self hperforms.2
          rw [hcontext, graph.index.get?_reads_of_access _ hkind, if_pos rfl,
            Option.map_eq_some_iff]
          constructor
          · rintro ⟨x, hfound, rfl⟩
            exact ⟨performed, current, x, hself, hkind,
              (lastPerformed_succ_of_performs hcurrent hperforms).2 rfl, hfound, rfl⟩
          · rintro ⟨node, state, x, hnode, -, hlast, hfound, rfl⟩
            cases hself.symm.trans hnode
            cases (lastPerformed_succ_of_performs hcurrent hperforms).1 hlast
            exact ⟨x, hfound, rfl⟩
        · -- Another node has its turn.
          have hsame : (current.step graph.index settings.stepLimit).run.context.reads.get? id =
              current.run.context.reads.get? id := by
            rw [hcontext, graph.index.get?_reads_of_other _ hturn]
          rw [hsame, hbefore, keeps_succ_of_not_performs hcurrent]
          intro node hnode hkind hother
          cases hperforms.unique hother
          exact hturn ⟨hkind, (index_node?_id hnode).symm⟩
      · rw [hcontext, hbefore, keeps_succ_of_not_performs hcurrent]
        intro node _ _
        exact hnone node

/-- What an access keeps is what it found in its last turn. -/
theorem get?_reads_of_lastPerformed (hrun : graph.runAfter? array settings moves = some run)
    (hkind : node.kind = .arrayAccess)
    (hlast : graph.LastPerformed array settings moves node state) :
    run.context.reads.get? node.id =
      (graph.index.accessed? state.run.context node).map Value.number := by
  apply Option.ext
  intro value
  rw [get?_reads_iff hrun, Option.map_eq_some_iff]
  constructor
  · rintro ⟨other, before, x, hnode, -, hbefore, hfound, rfl⟩
    cases hlast.node?.symm.trans hnode
    cases hlast.unique hbefore
    exact ⟨x, hfound, rfl⟩
  · rintro ⟨x, hfound, rfl⟩
    exact ⟨node, state, x, hlast.node?, hkind, hlast, hfound, rfl⟩

/-- Throughout a run over any graph, the table of the values last read holds an entry exactly for
the array accesses whose last turn was within bounds, and it is the element found then.  Until the
next turn of such an access, whatever reads its output reads that element.  After a turn out of bounds
there is no entry, and the output is what its inputs lead to at the moment of reading, zero where a
chain of reads comes back to it or where they lead out of bounds. -/
theorem accesses_kept (graph : Graph) (array : Array Float) (settings : Settings) (moves : Nat)
    (run : Run) (hrun : graph.runAfter? array settings moves = some run) :
    (∀ id value, run.context.reads.get? id = some value ↔
      graph.Keeps array settings moves id value) ∧
    (∀ node state x, node.kind = .arrayAccess →
      graph.LastPerformed array settings moves node state →
      graph.index.accessed? state.run.context node = some x →
      ∀ visited consumer handle, graph.index.Asked run.context visited consumer handle →
        graph.index.source? consumer.id handle = some (node.id, "value") →
        graph.index.inputAfter? run.context visited consumer handle = some (.number x)) ∧
    (∀ node state, node.kind = .arrayAccess →
      graph.LastPerformed array settings moves node state →
      graph.index.accessed? state.run.context node = none →
      run.context.reads.get? node.id = none ∧
      ∀ visited consumer handle,
        graph.index.source? consumer.id handle = some (node.id, "value") →
        graph.index.inputAfter? run.context visited consumer handle =
          some (.number (if node.id ∈ visited then 0.0
            else (run.context.element? node fun input =>
              graph.index.inputAfter? run.context (node.id :: visited) node input).getD 0.0))) := by
  refine ⟨get?_reads_iff hrun, ?_, ?_⟩
  · intro node state x hkind hlast hfound visited consumer handle hasked hsource
    have hkept : run.context.reads.get? node.id = some (.number x) := by
      rw [get?_reads_of_lastPerformed hrun hkind hlast, hfound]
      rfl
    -- An access that keeps an element asks for nothing, so no chain of reads has passed it.
    have hfresh : node.id ∉ visited :=
      not_mem_of_asked hasked hlast.node? hkind (by simp [hkept])
    rw [Index.inputAfter?_of_fed run.context visited hsource hlast.node?, if_neg hfresh,
      Context.output_of_kept hkind hkept]
  · intro node state hkind hlast hlost
    have hfree : run.context.reads.get? node.id = none := by
      rw [get?_reads_of_lastPerformed hrun hkind hlast, hlost]
      rfl
    refine ⟨hfree, ?_⟩
    intro visited consumer handle hsource
    rw [Index.inputAfter?_of_fed run.context visited hsource hlast.node?,
      Node.zero_of_access hkind, Context.output_of_not_kept hkind hfree]
    by_cases hvisited : node.id ∈ visited
    · rw [if_pos hvisited, if_pos hvisited]
    · rw [if_neg hvisited, if_neg hvisited]

/-- In each of three rounds the element at the index of the round is read, two elements are swapped,
and then what was read is noted. -/
def notedReads : Graph where
  nodes :=
    [Node.new "begin" .start,
      (Node.new "rounds" .forLoop).withParameter "end" (.int 3),
      Node.new "read" .arrayAccess,
      Node.new "swap" .arraySwap,
      Node.new "note" .variableSet,
      Node.new "finish" .finish]
  connections :=
    [⟨⟨"begin", execOut, "rounds", execIn⟩, "1"⟩,
      ⟨⟨"rounds", "body", "read", execIn⟩, "2"⟩,
      ⟨⟨"read", execOut, "swap", execIn⟩, "3"⟩,
      ⟨⟨"swap", execOut, "note", execIn⟩, "4"⟩,
      ⟨⟨"rounds", "complete", "finish", execIn⟩, "5"⟩,
      ⟨⟨"rounds", "index", "read", "index"⟩, "6"⟩,
      ⟨⟨"read", "value", "note", "value"⟩, "7"⟩]

/-- In the first round the element read is noted although the swap has moved it away.  The third
round reads beyond the array of two, and nothing that was read before is noted. -/
theorem accesses_kept_notedReads :
    (∃ run, notedReads.runAfter? #[4.0, 6.0] {} 4 = some run ∧ run.context.array = #[6.0, 4.0] ∧
      notedReads.Keeps #[4.0, 6.0] {} 4 "read" (.number 4.0) ∧
      notedReads.index.input? run.context (Node.new "note" .variableSet) "value" =
        some (.number 4.0)) ∧
    ∃ run state, notedReads.runAfter? #[4.0, 6.0] {} 11 = some run ∧
      notedReads.LastPerformed #[4.0, 6.0] {} 11 (Node.new "read" .arrayAccess) state ∧
      notedReads.index.accessed? state.run.context (Node.new "read" .arrayAccess) = none ∧
      notedReads.index.input? run.context (Node.new "note" .variableSet) "value" =
        some (.number 0.0) := by
  have hsource : notedReads.index.source? "note" "value" = some ("read", "value") := by
    decide +kernel
  constructor
  · have hafter : ((notedReads.runAfter? #[4.0, 6.0] {} 4).map fun run =>
        (run.context.array, run.context.reads.get? "read")) =
          some (#[6.0, 4.0], some (.number 4.0)) := by
      decide +kernel
    rcases Option.map_eq_some_iff.1 hafter with ⟨run, hrun, hshown⟩
    have hall := accesses_kept notedReads #[4.0, 6.0] {} 4 run hrun
    have hkeeps := (hall.1 "read" (.number 4.0)).1 (congrArg Prod.snd hshown)
    refine ⟨run, hrun, congrArg Prod.fst hshown, hkeeps, ?_⟩
    rcases hkeeps with ⟨node, state, x, hnode, hkind, hlast, hfound, hvalue⟩
    rw [hvalue]
    have hid : node.id = "read" := index_node?_id hnode
    exact hall.2.1 node state x hkind hlast hfound [] _ "value" (.first _ _) (hid ▸ hsource)
  · have hturn : ((notedReads.stateAt? #[4.0, 6.0] {} 10).map fun state =>
        (state.current,
          notedReads.index.accessed? state.run.context (Node.new "read" .arrayAccess))) =
            some ("read", none) := by
      decide +kernel
    have hafter : ((notedReads.runAfter? #[4.0, 6.0] {} 11).map fun run =>
        run.context.element? (Node.new "read" .arrayAccess) fun input =>
          notedReads.index.inputAfter? run.context ["read"] (Node.new "read" .arrayAccess) input) =
            some none := by
      decide +kernel
    have hread : notedReads.index.node? "read" = some (Node.new "read" .arrayAccess) := by
      decide +kernel
    rcases Option.map_eq_some_iff.1 hturn with ⟨state, hstate, hshown⟩
    rcases Option.map_eq_some_iff.1 hafter with ⟨run, hrun, helement⟩
    have hcurrent : state.current = "read" := congrArg Prod.fst hshown
    have hperforms : state.Performs notedReads.index none (Node.new "read" .arrayAccess) := by
      refine ⟨?_, ?_⟩
      · intro limit hlimit
        cases hlimit
      · rw [hcurrent, hread]
    have hlast := (lastPerformed_succ_of_performs hstate hperforms).2 rfl
    have hlost := congrArg Prod.snd hshown
    have hnote := ((accesses_kept notedReads #[4.0, 6.0] {} 11 run hrun).2.2 _ state rfl hlast
      hlost).2 [] (Node.new "note" .variableSet) "value" hsource
    refine ⟨run, state, hrun, hlast, hlost, hnote.trans ?_⟩
    rw [if_neg List.not_mem_nil]
    exact congrArg (fun found : Option Float => some (Value.number (found.getD 0.0))) helement

end Graph
end FlowTrace
