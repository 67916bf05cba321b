import FlowTrace.Proofs.Execution.KeptReads
import FlowTrace.Proofs.Execution.LoopStack
import FlowTrace.Proofs.Execution.Reading
import Mathlib.Data.List.Basic
import Mathlib.Data.List.Dedup

/-!
# How deep reads go

All the reads that one input leads to share one list of the producers that they are at.  A producer
puts its id on the list, reads its inputs and takes the id off again; where its id is on the list
already, it gives its zero and reads nothing.  Here the list is carried along as a state, every list
that comes about is noted down, and the nesting of producers is limited.  The limit is never reached
if it lies above the number of ids that are not on the list, however the graph leads back to itself.

* `Index.readOutput` and `Index.readInput` — reads that share a list and are limited in depth;
* `Graph.Restores` — a read gives a value and leaves the list as it was;
* `Graph.restores_readOutput` and `Graph.restores_readInput` — reads do, within the limit;
* `Graph.reads_end` — what that means for an input that is read by itself.
-/

namespace FlowTrace

/-! ## Reads that share a list -/

/-- The producers that reads are at, innermost first, and all such lists that have come about. -/
structure Visits where
  visiting : List NodeId := []
  held : List (List NodeId) := []
deriving DecidableEq

/-- A read that shares the list; it comes to nothing where it would go too deep. -/
abbrev Visiting := StateT Visits Option

namespace Visiting

def enter (id : NodeId) : Visiting Unit :=
  modify fun visits =>
    { visiting := id :: visits.visiting, held := (id :: visits.visiting) :: visits.held }

def leave : Visiting Unit :=
  modify fun visits => { visits with visiting := visits.visiting.tail }

def inside {α : Type} (id : NodeId) (read : Visiting α) : Visiting α := do
  enter id
  let value ← read
  leave
  return value

end Visiting

/-- The output of a node is settled once the inputs that it asks for have been read. -/
theorem Context.output_lookup_asked (context : Context) (node : Node) (handle : String)
    (read : String → Option Value) :
    context.output node handle (fun input =>
      (((context.asked node).map fun asked => (asked, read asked)).lookup input).join) =
        context.output node handle read := by
  unfold output
  rw [context.output?_congr_asked]
  intro input hinput
  rw [List.lookup_graph read hinput]
  rfl

namespace Index

def producer? (index : Index) (node : Node) (handle : String) : Option (Node × String) := do
  let (id, output) ← index.source? node.id handle
  let producer ← index.node? id
  return (producer, output)

def readInput (index : Index) (context : Context) (readOutput : Node → String → Visiting Value)
    (node : Node) (handle : String) : Visiting (Option Value) :=
  match index.producer? node handle with
  | some (producer, output) => return some (← readOutput producer output)
  | none => return context.inputLiteral? node handle

/-- Reads an output with at most a given number of producers inside of each other, this one
included. -/
def readOutput (index : Index) (context : Context) : Nat → Node → String → Visiting Value
  | 0, _, _ => failure
  | depth + 1, producer, output => do
      if producer.id ∈ (← get).visiting then
        -- The chain has come back to a producer that is still being read.
        return .zero (producer.outputKind output)
      else
        let inputs ← Visiting.inside producer.id <| (context.asked producer).mapM fun handle => do
          let value ← index.readInput context (index.readOutput context depth) producer handle
          return (handle, value)
        return context.output producer output fun handle => (inputs.lookup handle).join

/-- The output of a producer for a chain of reads that has passed the visited nodes. -/
def outputAfter (index : Index) (context : Context) (visited : List NodeId) (producer : Node)
    (output : String) : Value :=
  if producer.id ∈ visited then
    .zero (producer.outputKind output)
  else
    context.output producer output (index.inputAfter? context (producer.id :: visited) producer)

end Index

namespace Graph

variable {graph : Graph} {visiting : List NodeId} {α β : Type}

def nodeIds (graph : Graph) : List NodeId :=
  (graph.nodes.map Node.id).dedup

/-- A list without repetitions, of ids of the graph only. -/
def Simple (graph : Graph) (list : List NodeId) : Prop :=
  list.Nodup ∧ ∀ id ∈ list, id ∈ graph.nodeIds

theorem mem_nodeIds_of_node? {id : NodeId} {node : Node}
    (hnode : graph.index.node? id = some node) : id ∈ graph.nodeIds := by
  rw [← index_node?_id hnode]
  exact List.mem_dedup.2 (List.mem_map_of_mem (mem_of_node? (by simpa using hnode)))

/-! ## Reads that leave the list as it was -/

/-- A read that begins with a list gives a value and ends with the same list.  If that list is
simple, so are all that come about in between. -/
def Restores (graph : Graph) (visiting : List NodeId) (read : Visiting α) (value : α) : Prop :=
  ∀ held, ∃ more, read.run ⟨visiting, held⟩ = some (value, ⟨visiting, more ++ held⟩) ∧
    (graph.Simple visiting → ∀ list ∈ more, graph.Simple list)

namespace Restores

theorem pure (value : α) : graph.Restores visiting (pure value) value := by
  intro held
  exact ⟨[], rfl, fun _ list hmem => absurd hmem List.not_mem_nil⟩

/-- Two reads in a row restore the list if each of them does. -/
theorem bind {read : Visiting α} {next : α → Visiting β} {value : α} {result : β}
    (hread : graph.Restores visiting read value)
    (hnext : graph.Restores visiting (next value) result) :
    graph.Restores visiting (read >>= next) result := by
  intro held
  obtain ⟨more, hrun, hmore⟩ := hread held
  obtain ⟨most, hrest, hmost⟩ := hnext (more ++ held)
  refine ⟨most ++ more, ?_, ?_⟩
  · rw [StateT.run_bind, hrun, List.append_assoc]
    exact hrest
  · intro hsimple list hmem
    rcases List.mem_append.1 hmem with hlate | hearly
    · exact hmost hsimple list hlate
    · exact hmore hsimple list hearly

/-- A read may look at the list before it goes on. -/
theorem bind_get {next : Visits → Visiting β} {result : β}
    (hnext : ∀ held, graph.Restores visiting (next ⟨visiting, held⟩) result) :
    graph.Restores visiting (get >>= next) result := by
  intro held
  exact hnext held held

/-- Any number of reads in a row restore the list if each of them does. -/
theorem mapM {read : α → Visiting β} {value : α → β} :
    ∀ {items : List α}, (∀ item ∈ items, graph.Restores visiting (read item) (value item)) →
      graph.Restores visiting (items.mapM read) (items.map value)
  | [], _ => by
      rw [List.mapM_nil]
      exact pure []
  | item :: items, hread => by
      rw [List.mapM_cons]
      refine bind (hread item List.mem_cons_self) (bind (mapM ?_) (pure _))
      intro other hmem
      exact hread other (List.mem_cons_of_mem item hmem)

/-- What restores the longer list restores the list without the producer. -/
theorem inside {id : NodeId} {read : Visiting α} {value : α}
    (hread : graph.Restores (id :: visiting) read value) (hid : id ∈ graph.nodeIds)
    (hnew : id ∉ visiting) : graph.Restores visiting (Visiting.inside id read) value := by
  intro held
  obtain ⟨more, hrun, hmore⟩ := hread ((id :: visiting) :: held)
  refine ⟨more ++ [id :: visiting], ?_, ?_⟩
  · have hentered : (Visiting.enter id).run ⟨visiting, held⟩ =
        some ((), ⟨id :: visiting, (id :: visiting) :: held⟩) := rfl
    have hleft : Visiting.leave.run ⟨id :: visiting, more ++ (id :: visiting) :: held⟩ =
        some ((), ⟨visiting, more ++ (id :: visiting) :: held⟩) := rfl
    simp [Visiting.inside, hentered, hrun, hleft]
  · -- Besides the lists that come about inside, there is the one that the producer is put on.
    rintro ⟨hnodup, hknown⟩ list hmem
    have hsimple : graph.Simple (id :: visiting) :=
      ⟨List.nodup_cons.2 ⟨hnew, hnodup⟩, List.forall_mem_cons.2 ⟨hid, hknown⟩⟩
    rcases List.mem_append.1 hmem with hinside | hself
    · exact hmore hsimple list hinside
    · rw [List.mem_singleton.1 hself]
      exact hsimple

end Restores

/-! ## The reads of a graph -/

variable {context : Context}

/-- An input that is fed reads the output of its producer. -/
theorem inputAfter?_eq_outputAfter {visited : List NodeId} {node producer : Node}
    {handle output : String} {id : NodeId}
    (hsource : graph.index.source? node.id handle = some (id, output))
    (hnode : graph.index.node? id = some producer) :
    graph.index.inputAfter? context visited node handle =
      some (graph.index.outputAfter context visited producer output) := by
  cases index_node?_id hnode
  rw [Index.inputAfter?_of_fed context visited hsource hnode, Index.outputAfter]
  split <;> rfl

/-- Reading an input restores the list if reading outputs does. -/
theorem restores_readInput {readOutput : Node → String → Visiting Value}
    (hread : ∀ producer output, graph.index.node? producer.id = some producer →
      graph.Restores visiting (readOutput producer output)
        (graph.index.outputAfter context visiting producer output))
    (node : Node) (handle : String) :
    graph.Restores visiting (graph.index.readInput context readOutput node handle)
      (graph.index.inputAfter? context visiting node handle) := by
  unfold Index.readInput Index.producer?
  cases hsource : graph.index.source? node.id handle with
  | none =>
      rw [Index.inputAfter?_of_unfed context visiting hsource]
      exact Restores.pure _
  | some feed =>
      rcases feed with ⟨id, output⟩
      simp only [Option.bind_eq_bind, Option.bind_some]
      cases hnode : graph.index.node? id with
      | none =>
          rw [Index.inputAfter?_of_lost context visiting hsource hnode]
          exact Restores.pure _
      | some producer =>
          rw [inputAfter?_eq_outputAfter hsource hnode]
          exact Restores.bind (hread producer output (index_node?_self hnode)) (Restores.pure _)

/-- Within the limit a producer gives its output and restores the list. -/
theorem restores_readOutput (context : Context) :
    ∀ {depth : Nat} {visiting : List NodeId} {producer : Node} (output : String),
      graph.index.node? producer.id = some producer →
      (graph.index.unvisited visiting).length < depth →
      graph.Restores visiting (graph.index.readOutput context depth producer output)
        (graph.index.outputAfter context visiting producer output) := by
  -- The induction is on the limit; what it stays above is the number of ids left to pass.
  intro depth
  induction depth with
  | zero =>
      intro visiting producer output hfound hdepth
      exact absurd hdepth (Nat.not_lt_zero _)
  | succ depth ih =>
      intro visiting producer output hfound hdepth
      unfold Index.readOutput Index.outputAfter
      refine Restores.bind_get fun held => ?_
      by_cases hmem : producer.id ∈ visiting
      · simp only [hmem, if_true]
        exact Restores.pure _
      · simp only [hmem, if_false]
        -- The producer goes on the list, so fewer ids are left to pass than before.
        have hdeep : (graph.index.unvisited (producer.id :: visiting)).length < depth := by
          have hless : (graph.index.unvisited (producer.id :: visiting)).length <
              (graph.index.unvisited visiting).length :=
            Index.length_unvisited_lt hfound (by simpa using hmem)
          omega
        have hinputs : ∀ handle ∈ context.asked producer,
            graph.Restores (producer.id :: visiting)
              (do
                let value ← graph.index.readInput context (graph.index.readOutput context depth)
                  producer handle
                return (handle, value))
              (handle,
                graph.index.inputAfter? context (producer.id :: visiting) producer handle) := by
          intro handle _
          have hread := restores_readInput (fun other name hother => ih name hother hdeep) producer
            handle
          exact Restores.bind hread (Restores.pure _)
        have hlist := Restores.inside (Restores.mapM hinputs) (mem_nodeIds_of_node? hfound) hmem
        rw [← Context.output_lookup_asked]
        exact Restores.bind hlist (Restores.pure _)

def idsBeyond (graph : Graph) (visiting : List NodeId) : List NodeId :=
  graph.nodeIds.filter (· ∉ visiting)

theorem length_unvisited_le_beyond (graph : Graph) (visiting : List NodeId) :
    (graph.index.unvisited visiting).length ≤ (graph.idsBeyond visiting).length := by
  have hnodup : (graph.index.unvisited visiting).Nodup :=
    graph.index.nodes.nodup_names.filter _
  refine hnodup.length_le_of_subset ?_
  intro id hmem
  have hknown : id ∈ graph.nodeIds := List.mem_dedup.2 (graph.unvisited_subset visiting hmem)
  have hbeyond : id ∉ visiting := by simpa using (List.mem_filter.1 hmem).2
  exact List.mem_filter.2 ⟨hknown, by simpa using hbeyond⟩

/-- Reads end, whatever cycles there are among the data connections of a graph.  An input that is
read by itself gets its value with producers nested once deeper than there are ids at the most; the
list of producers is empty again in the end, and it never holds an id twice or one that is not of
the graph.  The same goes for every call on the way: one that begins with any list, and may nest
deeper than there are ids beyond that list, gives its value and leaves the list as it was. -/
theorem reads_end (graph : Graph) (context : Context) :
    (∀ node handle, ∃ held,
      (graph.index.readInput context (graph.index.readOutput context (graph.nodeIds.length + 1))
        node handle).run {} = some (graph.index.input? context node handle, ⟨[], held⟩) ∧
      ∀ list ∈ held, graph.Simple list) ∧
    (∀ visiting depth, (graph.idsBeyond visiting).length < depth →
      (∀ node handle, graph.Restores visiting
        (graph.index.readInput context (graph.index.readOutput context depth) node handle)
        (graph.index.inputAfter? context visiting node handle)) ∧
      ∀ producer output, graph.index.node? producer.id = some producer →
        graph.Restores visiting (graph.index.readOutput context depth producer output)
          (graph.index.outputAfter context visiting producer output)) := by
  have houtput : ∀ visiting depth, (graph.idsBeyond visiting).length < depth →
      ∀ producer output, graph.index.node? producer.id = some producer →
        graph.Restores visiting (graph.index.readOutput context depth producer output)
          (graph.index.outputAfter context visiting producer output) := by
    intro visiting depth hdepth producer output hfound
    exact restores_readOutput context output hfound
      ((graph.length_unvisited_le_beyond visiting).trans_lt hdepth)
  refine ⟨?_, ?_⟩
  · intro node handle
    have hdepth : (graph.idsBeyond []).length < graph.nodeIds.length + 1 :=
      Nat.lt_succ_of_le (List.length_filter_le _ _)
    obtain ⟨held, hrun, hheld⟩ :=
      restores_readInput (houtput [] (graph.nodeIds.length + 1) hdepth) node handle []
    rw [List.append_nil] at hrun
    exact ⟨held, hrun, hheld ⟨List.nodup_nil, fun id hmem => absurd hmem List.not_mem_nil⟩⟩
  · intro visiting depth hdepth
    exact ⟨restores_readInput (houtput visiting depth hdepth), houtput visiting depth hdepth⟩

/-- A condition of a graph in which it is one of its own sides. -/
def ownSide : Node :=
  Node.new "test" .ifCondition

def selfFed : Graph where
  nodes := [ownSide]
  connections := [⟨⟨"test", "result", "test", "left"⟩, "1"⟩]

/-- The condition is asked for its result twice, the second time inside of the first.  So a depth of
one is too small, and two is enough.  The inner one finds its id on the list and gives its zero. -/
theorem reads_end_selfFed :
    selfFed.nodeIds.length = 1 ∧
      (selfFed.index.readInput { array := #[] } (selfFed.index.readOutput { array := #[] } 1)
        ownSide "left").run {} = none ∧
      (∃ held, (selfFed.index.readInput { array := #[] }
        (selfFed.index.readOutput { array := #[] } 2) ownSide "left").run {} =
          some (some (.bool true), ⟨[], held⟩) ∧ ∀ list ∈ held, selfFed.Simple list) ∧
      (selfFed.idsBeyond ["test"]).length < 1 ∧
      selfFed.Restores ["test"] (selfFed.index.readOutput { array := #[] } 1 ownSide "result")
        (.bool false) := by
  obtain ⟨hfirst, hcalls⟩ := reads_end selfFed { array := #[] }
  have hbeyond : (selfFed.idsBeyond ["test"]).length < 1 := by decide +kernel
  refine ⟨by decide +kernel, by decide +kernel, ?_, hbeyond, ?_⟩
  · have hread : selfFed.index.input? { array := #[] } ownSide "left" = some (.bool true) := by
      decide +kernel
    rw [← hread]
    exact hfirst ownSide "left"
  · have hzero : selfFed.index.outputAfter { array := #[] } ["test"] ownSide "result" =
        .bool false := by
      decide +kernel
    rw [← hzero]
    exact (hcalls ["test"] 1 hbeyond).2 ownSide "result" (by decide +kernel)

end Graph
end FlowTrace
