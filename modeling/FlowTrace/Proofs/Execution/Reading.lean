import FlowTrace.Proofs.Execution.Agreement
import FlowTrace.Proofs.Graph.Rules
import FlowTrace.Table.Lemmas
import Mathlib.Data.List.Chain
import Mathlib.Logic.Function.Iterate
import Mathlib.Logic.Relation

/-!
# Reading without a guard

A chain of reads remembers the producers that it has passed and gives up when it comes back to one
of them.  Where the operands of no node lead back to it, that never happens: inputs then read as by
the plain recursive definition, which remembers nothing.

* `Index.unguarded?` — the plain definition, in terms of how the inputs of producers read;
* `Graph.Draws` and `Graph.Acyclic` — producers behind operands, and graphs without a cycle of them;
* `Graph.Chain` — the chains of reads that come about;
* `Graph.iterate_unguarded?` — unfolded deep enough, the plain definition leaves nothing open and
  gives what the chain of reads gives;
* `Graph.Chain.inputAfter?_eq` — so it does not matter through which chain an input is read.
-/

namespace FlowTrace

/-- The plain recursive definition of the value of an input, given how the inputs of producers
read.  A producer that has been passed before is read like any other. -/
def Index.unguarded? (index : Index) (context : Context) (read : Node → String → Option Value)
    (node : Node) (handle : String) : Option Value :=
  match index.source? node.id handle with
  | none => context.inputLiteral? node handle
  | some (id, output) =>
      match index.node? id with
      | none => context.inputLiteral? node handle
      | some producer => some (context.output producer output (read producer))

namespace Graph

variable {graph : Graph} {visited : List NodeId} {node producer : Node} {id : NodeId}
  {handle output : String}

/-! ## Cycles -/

/-- The first connection that feeds some operand of the consumer comes from the producer. -/
def Draws (graph : Graph) (producer consumer : NodeId) : Prop :=
  ∃ node, graph.node? consumer = some node ∧ ∃ handle ∈ node.kind.operands, ∃ ends,
    (graph.feeds consumer handle).head? = some ends ∧ ends.source = producer

/-- No node draws on itself, be it through others. -/
def Acyclic (graph : Graph) : Prop :=
  ∀ id, ¬ Relation.TransGen graph.Draws id id

/-- A producer that an operand reads from is drawn on. -/
theorem draws_of_source? (hnode : graph.node? node.id = some node)
    (hoperand : handle ∈ node.kind.operands)
    (hsource : graph.index.source? node.id handle = some (id, output)) :
    graph.Draws id node.id := by
  rw [index_source?_eq_head?] at hsource
  rcases Option.map_eq_some_iff.1 hsource with ⟨ends, hends, hsame⟩
  exact ⟨node, hnode, handle, hoperand, ends, hends, congrArg Prod.fst hsame⟩

/-- A graph is acyclic if numbers go down from every consumer to its producers. -/
theorem acyclic_of_rank (rank : NodeId → Nat)
    (hrank : ∀ node ∈ graph.nodes, ∀ handle ∈ node.kind.operands,
      ∀ ends ∈ (graph.feeds node.id handle).head?, rank ends.source < rank node.id) :
    graph.Acyclic := by
  have hdraws : ∀ {producer consumer}, graph.Draws producer consumer →
      rank producer < rank consumer := by
    rintro producer consumer ⟨node, hnode, handle, hoperand, ends, hends, rfl⟩
    have hid : node.id = consumer := node?_id hnode
    subst hid
    exact hrank node (mem_of_node? hnode) handle hoperand ends hends
  -- The rank climbs along every path, so none comes back to where it began.
  have hclimb : ∀ {low high}, Relation.TransGen graph.Draws low high → rank low < rank high := by
    intro low high hpath
    induction hpath with
    | single hstep => exact hdraws hstep
    | tail _ hstep ih => exact Nat.lt_trans ih (hdraws hstep)
  intro id hcycle
  exact Nat.lt_irrefl _ (hclimb hcycle)

/-! ## Chains of reads -/

/-- A chain of reads that is about to read an input.  It begins there, or it has come to the node
from operand to operand and goes on with another one. -/
inductive Chain (graph : Graph) : List NodeId → Node → String → Prop where
  | begun (node : Node) (handle : String) : Chain graph [] node handle
  | passed {visited : List NodeId} {node : Node} {handle : String} :
      graph.node? node.id = some node → (node.id :: visited).IsChain graph.Draws →
      handle ∈ node.kind.operands → Chain graph (node.id :: visited) node handle

namespace Chain

/-- Without cycles, the producer that comes next has not been passed. -/
theorem not_mem (hacyclic : graph.Acyclic) (hchain : graph.Chain visited node handle)
    (hsource : graph.index.source? node.id handle = some (id, output)) : id ∉ visited := by
  cases hchain with
  | begun =>
      exact List.not_mem_nil
  | @passed visited _ _ hnode hdraws hoperand =>
      intro hmem
      have hlast : graph.Draws id node.id := draws_of_source? hnode hoperand hsource
      -- All that has been passed draws on the node, so the producer would draw on itself.
      have hback : ∀ other ∈ node.id :: visited,
          Relation.ReflTransGen graph.Draws node.id other := by
        apply hdraws.induction (Relation.ReflTransGen graph.Draws node.id)
        · intro near far hstep hnear
          exact hnear.tail hstep
        · intro _
          exact Relation.ReflTransGen.refl
      exact hacyclic id (Relation.TransGen.head' hlast (hback id hmem))

/-- A chain that comes to a producer goes on with each of its operands. -/
theorem extend (hchain : graph.Chain visited node handle)
    (hsource : graph.index.source? node.id handle = some (id, output))
    (hproducer : graph.node? id = some producer) :
    ∀ input ∈ producer.kind.operands, graph.Chain (id :: visited) producer input := by
  intro input hinput
  have hid : producer.id = id := node?_id hproducer
  subst hid
  cases hchain with
  | begun =>
      exact passed hproducer (List.isChain_singleton _) hinput
  | passed hnode hdraws hoperand =>
      have hlast := draws_of_source? hnode hoperand hsource
      exact passed hproducer (List.isChain_cons_cons.2 ⟨hlast, hdraws⟩) hinput

end Chain

/-! ## Unfolding the plain definition -/

/-- Unfolded once more than there are producers left to pass, the plain definition reads like the
chain, whatever reads further down. -/
theorem iterate_unguarded? (hacyclic : graph.Acyclic) (context : Context)
    (base : Node → String → Option Value) (visited : List NodeId) (node : Node)
    (handle : String) :
    graph.Chain visited node handle →
      ∀ depth, (graph.index.unvisited visited).length ≤ depth →
        (graph.index.unguarded? context)^[depth + 1] base node handle =
          graph.index.inputAfter? context visited node handle := by
  -- The induction follows the chain; each producer that it passes takes up one unfolding.
  fun_induction Index.inputAfter? graph.index context visited node handle with
  | case1 visited node handle hsource =>
      intro _ depth _
      simp only [Function.iterate_succ_apply', Index.unguarded?, hsource]
  | case2 visited node handle id output hsource hlost =>
      intro _ depth _
      simp only [Function.iterate_succ_apply', Index.unguarded?, hsource, hlost]
  | case3 visited node handle id output hsource producer hfound hvisited =>
      intro hchain
      -- This is where the guard would show.
      exact absurd (by simpa using hvisited) (hchain.not_mem hacyclic hsource)
  | case4 visited node handle id output hsource producer hfound hvisited ih =>
      intro hchain depth hdepth
      have hproducer : graph.node? id = some producer := by simpa using hfound
      have hless := Index.length_unvisited_lt hfound hvisited
      rcases Nat.exists_eq_add_one_of_ne_zero (Nat.ne_zero_of_lt (hless.trans_le hdepth)) with
        ⟨rest, rfl⟩
      have hoperands : ∀ input ∈ producer.kind.operands,
          (graph.index.unguarded? context)^[rest + 1] base producer input =
            graph.index.inputAfter? context (id :: visited) producer input := by
        intro input hinput
        exact ih input (hchain.extend hsource hproducer input hinput) rest (by omega)
      rw [Function.iterate_succ_apply', Index.unguarded?]
      simp only [hsource, hfound, Context.output, context.output?_congr_operands hoperands]

theorem unvisited_subset (graph : Graph) (visited : List NodeId) :
    graph.index.unvisited visited ⊆ graph.nodes.map Node.id := by
  intro id hmem
  rcases List.mem_map.1 (List.mem_filter.1 hmem).1 with ⟨⟨name, node⟩, hentry, rfl⟩
  have hfound : graph.node? name = some node := by
    rw [← index_node?]
    exact Table.get?_eq_some_iff.2 hentry
  exact List.mem_map.2 ⟨node, mem_of_node? hfound, node?_id hfound⟩

theorem length_unvisited_le (graph : Graph) (visited : List NodeId) :
    (graph.index.unvisited visited).length ≤ graph.nodes.length := by
  have hnodup : (graph.index.unvisited visited).Nodup :=
    graph.index.nodes.nodup_names.filter _
  simpa using hnodup.length_le_of_subset (graph.unvisited_subset visited)

/-- In an acyclic graph the plain recursion gives what guarded reads give, once it is unrolled deep
enough. -/
theorem iterate_unguarded?_eq_input? (hacyclic : graph.Acyclic) (context : Context)
    (base : Node → String → Option Value) {depth : Nat} (hdepth : graph.nodes.length ≤ depth) :
    (graph.index.unguarded? context)^[depth + 1] base = graph.index.input? context := by
  funext node handle
  exact iterate_unguarded? hacyclic context base [] node handle (Chain.begun node handle) depth
    ((graph.length_unvisited_le []).trans hdepth)

/-- What inputs read meets the plain definition, and nothing else does. -/
theorem unguarded?_eq_self_iff (hacyclic : graph.Acyclic) (context : Context)
    (read : Node → String → Option Value) :
    graph.index.unguarded? context read = read ↔ read = graph.index.input? context := by
  have hdeep := @iterate_unguarded?_eq_input? graph hacyclic context
  constructor
  · intro hfixed
    calc read
        = (graph.index.unguarded? context)^[graph.nodes.length + 1] read :=
          (Function.iterate_fixed hfixed _).symm
      _ = graph.index.input? context := hdeep read (Nat.le_refl _)
  · rintro rfl
    -- Unfolding once more makes no difference.
    calc graph.index.unguarded? context (graph.index.input? context)
        = (graph.index.unguarded? context)^[graph.nodes.length + 2] fun _ _ => none := by
          rw [Function.iterate_succ_apply', hdeep _ (Nat.le_refl _)]
      _ = graph.index.input? context := hdeep _ (Nat.le_succ _)

/-- In an acyclic graph a chain of reads gives what a read from its beginning would. -/
theorem Chain.inputAfter?_eq (hacyclic : graph.Acyclic) (context : Context)
    (hchain : graph.Chain visited node handle) :
    graph.index.inputAfter? context visited node handle =
      graph.index.input? context node handle := by
  calc graph.index.inputAfter? context visited node handle
      = (graph.index.unguarded? context)^[graph.nodes.length + 1] (fun _ _ => none) node handle :=
        (iterate_unguarded? hacyclic context _ visited node handle hchain _
          (graph.length_unvisited_le visited)).symm
    _ = graph.index.input? context node handle := by
        rw [iterate_unguarded?_eq_input? hacyclic context _ (Nat.le_refl _)]

/-- In a graph without cycles of operands the guard never shows.  What inputs read is the one
solution of the recursive definition without it; unfolded more often than there are nodes, that
definition gives it and leaves nothing open; and the output of a producer is the same through
whichever chain of producers it is reached. -/
theorem guard_never_shows (graph : Graph) (hacyclic : graph.Acyclic) (context : Context) :
    (∀ read, graph.index.unguarded? context read = read ↔ read = graph.index.input? context) ∧
    (∀ depth base node handle, graph.nodes.length < depth →
      (graph.index.unguarded? context)^[depth] base node handle =
        graph.index.input? context node handle ∧
      node.readOrZero ((graph.index.unguarded? context)^[depth] base node) handle =
        graph.index.input context node handle) ∧
    ∀ id visited producer output, graph.node? id = some producer →
      (id :: visited).IsChain graph.Draws →
      context.output producer output (graph.index.inputAfter? context (id :: visited) producer) =
        context.output producer output (graph.index.input? context producer) := by
  refine ⟨unguarded?_eq_self_iff hacyclic context, ?_, ?_⟩
  · intro depth base node handle hdepth
    rcases Nat.exists_eq_add_of_lt hdepth with ⟨more, rfl⟩
    rw [iterate_unguarded?_eq_input? hacyclic context base (Nat.le_add_right _ more)]
    exact ⟨rfl, rfl⟩
  · intro id visited producer output hproducer hdraws
    have hid : producer.id = id := node?_id hproducer
    subst hid
    have hoperands : ∀ input ∈ producer.kind.operands,
        graph.index.inputAfter? context (producer.id :: visited) producer input =
          graph.index.input? context producer input := by
      intro input hinput
      exact (Chain.passed hproducer hdraws hinput).inputAfter?_eq hacyclic context
    simp only [Context.output, context.output?_congr_operands hoperands]

/-- Both sides of the condition read the comparison, and both of its indices the array access.  None
of these reads is taken for a cycle, which would give `false` or zero. -/
theorem guard_never_shows_sharedReads :
    sharedReads.Acyclic ∧ ["read", "compare", "check"].IsChain sharedReads.Draws ∧
      (sharedReads.index.unguarded? { array := #[1.0, 4.0] })^[7] (fun _ _ => none)
          (Node.new "check" .ifCondition) "left" = some (.bool true) ∧
      Context.output { array := #[1.0, 4.0] } (Node.new "read" .arrayAccess) "value"
          (sharedReads.index.inputAfter? { array := #[1.0, 4.0] } ["read", "compare", "check"]
            (Node.new "read" .arrayAccess)) = .number 1.0 := by
  have hacyclic : sharedReads.Acyclic :=
    acyclic_of_rank (fun id => sharedReads.nodes.findIdx (·.id = id)) (by decide +kernel)
  have hcompare : sharedReads.Draws "read" "compare" :=
    ⟨_, rfl, "i", by decide, ⟨"read", "value", "compare", "i"⟩, by decide +kernel, rfl⟩
  have hcheck : sharedReads.Draws "compare" "check" :=
    ⟨_, rfl, "left", by decide, ⟨"compare", "result", "check", "left"⟩, by decide +kernel, rfl⟩
  have hdraws : ["read", "compare", "check"].IsChain sharedReads.Draws := by
    simp [hcompare, hcheck]
  rcases guard_never_shows sharedReads hacyclic { array := #[1.0, 4.0] } with
    ⟨-, hunfolds, hchains⟩
  have hside := (hunfolds 7 (fun _ _ => none) (Node.new "check" .ifCondition) "left"
    (by decide)).1
  have houtput := hchains "read" ["compare", "check"] (Node.new "read" .arrayAccess) "value"
    (by decide +kernel) hdraws
  exact ⟨hacyclic, hdraws, hside.trans (by decide +kernel), houtput.trans (by decide +kernel)⟩

end Graph
end FlowTrace
