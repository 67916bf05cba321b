import FlowTrace.Proofs.Execution.Agreement
import FlowTrace.Proofs.Graph.Rules
import Mathlib.Data.List.Find

/-!
# Graphs drawn differently

Where the nodes stand on the canvas, in which order nodes and connections were added and which ids
the connections got is a matter of drawing.  A run takes no notice of it, as long as no look-up
depends on what comes first.

* `Index.placeless` — an index whose nodes have lost their places; runs over it are the same;
* `Graph.Redrawn` — a graph with the same nodes and connections in another order;
* `Graph.Redrawn.agreeOn` — the indexes of the two agree, places aside;
* `Graph.execute?_redrawn` — hence their runs are the same.
-/

namespace FlowTrace

/-! ## Places -/

/-- A node at the origin of the canvas. -/
def Node.placeless (node : Node) : Node :=
  { node with position := {} }

namespace Index

def placeless (index : Index) : Index :=
  { index with nodes := index.nodes.map Node.placeless }

theorem node?_placeless (index : Index) (id : NodeId) :
    index.placeless.node? id = (index.node? id).map Node.placeless :=
  Table.get?_map Node.placeless index.nodes id

theorem inputAfter?_of_place (index : Index) (context : Context) (visited : List NodeId)
    (node : Node) (handle : String) :
    index.inputAfter? context visited node.placeless handle =
      index.inputAfter? context visited node handle := by
  rw [inputAfter?, inputAfter?]
  rfl

/-- Inputs read the same wherever the producers stand. -/
theorem inputAfter?_placeless (index : Index) (context : Context) (visited : List NodeId)
    (node : Node) (handle : String) :
    index.placeless.inputAfter? context visited node handle =
      index.inputAfter? context visited node handle := by
  fun_induction inputAfter? index context visited node handle with
  | case1 visited node handle hsource =>
      exact inputAfter?_of_unfed context visited hsource
  | case2 visited node handle id output hsource hlost =>
      have hmissing : index.placeless.node? id = none := by
        rw [node?_placeless, hlost, Option.map_none]
      exact inputAfter?_of_lost context visited hsource hmissing
  | case3 visited node handle id output hsource producer hfound hvisited =>
      have hsame : index.placeless.source? node.id handle = some (id, output) := hsource
      have hplaced : index.placeless.node? id = some producer.placeless := by
        rw [node?_placeless, hfound, Option.map_some]
      rw [inputAfter?_of_fed context visited hsame hplaced, if_pos (by simpa using hvisited)]
      rfl
  | case4 visited node handle id output hsource producer hfound hvisited ih =>
      have hsame : index.placeless.source? node.id handle = some (id, output) := hsource
      have hplaced : index.placeless.node? id = some producer.placeless := by
        rw [node?_placeless, hfound, Option.map_some]
      -- The chain of reads goes on at the same producer, which stands elsewhere.
      have hinputs : (fun input =>
            index.placeless.inputAfter? context (id :: visited) producer.placeless input) =
          fun input => index.inputAfter? context (id :: visited) producer input := by
        funext input
        rw [inputAfter?_of_place, ih]
      rw [inputAfter?_of_fed context visited hsame hplaced, if_neg (by simpa using hvisited),
        hinputs]
      rfl

/-- Where nodes stand on the canvas has no part in what they do. -/
theorem perform_placeless (index : Index) (context : Context) (node : Node) :
    index.placeless.perform context node.placeless = index.perform context node := by
  have hoptional : index.placeless.input? context node.placeless = index.input? context node := by
    funext handle
    unfold input?
    rw [inputAfter?_placeless, inputAfter?_of_place]
  have hread : index.placeless.input context node.placeless = index.input context node := by
    funext handle
    unfold input
    rw [hoptional]
    rfl
  unfold perform
  rw [hread, hoptional]
  -- What is left mentions the id, the kind and the parameters of the node.
  rcases node with ⟨id, kind, position, data⟩
  cases kind <;> rfl

end Index

theorem Run.dispatch_placeless (index : Index) (run : Run) (node : Node) :
    run.dispatch index.placeless node.placeless = run.dispatch index node := by
  have hloop : ∀ id, (index.placeless.node? id).map Node.id = (index.node? id).map Node.id := by
    intro id
    rw [Index.node?_placeless, Option.map_map]
    rfl
  simp only [Run.dispatch, Index.perform_placeless]
  cases (index.perform run.context node).exit with
  | none => rfl
  | some handle =>
      simp only [Run.advance, hloop]
      rfl

namespace State

theorem step_placeless (index : Index) (stepLimit : Option Nat) (state : State) :
    state.step index.placeless stepLimit = state.step index stepLimit := by
  simp only [State.step, Index.node?_placeless]
  cases index.node? state.current with
  | none => rfl
  | some node =>
      simp only [Option.map_some, Run.dispatch_placeless]
      rfl

/-- A run does not look at places. -/
theorem runFor_placeless (index : Index) (stepLimit : Option Nat) (moves : Nat) :
    ∀ state : State, state.runFor index.placeless stepLimit moves =
      state.runFor index stepLimit moves := by
  induction moves with
  | zero =>
      intro state
      rfl
  | succ moves ih =>
      intro state
      simp only [State.runFor, step_placeless]
      cases state.step index stepLimit with
      | ended run => rfl
      | running next => exact ih next

end State

/-! ## Order -/

namespace Graph

variable {graph other : Graph}

/-- A graph with the same nodes and connections in another order: the nodes may stand elsewhere and
the connections may have other ids, but those that feed an input keep their order. -/
structure Redrawn (graph other : Graph) : Prop where
  nodes : (other.nodes.map Node.placeless).Perm (graph.nodes.map Node.placeless)
  connections : (other.connections.map Connection.toEndpoints).Perm
    (graph.connections.map Connection.toEndpoints)
  feeds : ∀ node handle, other.feeds node handle = graph.feeds node handle

namespace Redrawn

/-- With distinct ids the same node is found under each id, places aside. -/
theorem node?_eq (h : graph.Redrawn other) (hids : (graph.nodes.map Node.id).Nodup) (id : NodeId) :
    (other.node? id).map Node.placeless = (graph.node? id).map Node.placeless := by
  have hsearch : ∀ nodes : List Node, (nodes.find? (·.id = id)).map Node.placeless =
      (nodes.map Node.placeless).find? (·.id = id) := by
    intro nodes
    rw [List.find?_map]
    rfl
  have hdistinct : ((graph.nodes.map Node.placeless).map Node.id).Nodup := by
    rw [List.map_map]
    exact hids
  rw [Graph.node?, Graph.node?, hsearch, hsearch]
  symm
  apply List.find?_eq_find?_of_perm h.nodes.symm
  rintro a ⟨ha, haid⟩ b ⟨hb, hbid⟩
  simp only [decide_eq_true_eq] at haid hbid
  exact List.inj_on_of_nodup_map hdistinct ha hb (haid.trans hbid.symm)

/-- A redrawn graph orders execution in the same way. -/
theorem ordersExecution_eq (h : graph.Redrawn other) (hids : (graph.nodes.map Node.id).Nodup)
    (id : NodeId) (handle : String) :
    (other.node? id).any (·.isExecutionOutput handle) =
      (graph.node? id).any (·.isExecutionOutput handle) := by
  have hplaceless : ∀ found : Option Node, found.any (·.isExecutionOutput handle) =
      (found.map Node.placeless).any (·.isExecutionOutput handle) := by
    intro found
    cases found <;> rfl
  rw [hplaceless (other.node? id), h.node?_eq hids, ← hplaceless]

/-- Where at most one connection leaves an execution output, it leads to the same node. -/
theorem next?_eq (h : graph.Redrawn other) (hids : (graph.nodes.map Node.id).Nodup)
    (houtputs : NoTwo graph.SameOutput (graph.connections.map Connection.toEndpoints))
    (id : NodeId) (handle : String) :
    other.index.next? id handle = graph.index.next? id handle := by
  have hsearch : ∀ connections : List Connection,
      (connections.find? (·.leaves id handle)).map (·.target) =
        ((connections.map Connection.toEndpoints).find? fun ends =>
          ends.source = id && ends.sourceHandle = handle).map (·.target) := by
    intro connections
    rw [List.find?_map, Option.map_map]
    rfl
  rw [index_next?, index_next?, h.ordersExecution_eq hids, hsearch, hsearch]
  split
  · next hexec =>
      congr 1
      symm
      apply List.find?_eq_find?_of_perm h.connections.symm
      rintro a ⟨ha, haleaves⟩ b ⟨hb, hbleaves⟩
      simp only [Bool.and_eq_true, decide_eq_true_eq] at haleaves hbleaves
      -- Two connections out of one execution output stand at the same place of the list.
      rcases List.getElem_of_mem ha with ⟨i, hi, rfl⟩
      rcases List.getElem_of_mem hb with ⟨j, hj, rfl⟩
      by_contra hne
      have hplaces : i ≠ j := by
        rintro rfl
        exact hne rfl
      apply houtputs i j hi hj hplaces
      refine ⟨?_, haleaves.1.trans hbleaves.1.symm, haleaves.2.trans hbleaves.2.symm⟩
      simpa only [ordersExecution, haleaves] using hexec
  · rfl

/-- In a redrawn graph every input reads from the same output. -/
theorem source?_eq (h : graph.Redrawn other) (id : NodeId) (handle : String) :
    other.index.source? id handle = graph.index.source? id handle := by
  rw [index_source?_eq_head?, index_source?_eq_head?, h.feeds]

/-- The indexes of a graph and of its redrawing agree everywhere but for places on the canvas. -/
theorem agreeOn (h : graph.Redrawn other) (hids : (graph.nodes.map Node.id).Nodup)
    (houtputs : NoTwo graph.SameOutput (graph.connections.map Connection.toEndpoints)) :
    graph.index.placeless.AgreeOn other.index.placeless fun _ => True := by
  -- The ids are not confined to a part of the graph, so the last two goals ask nothing.
  refine ⟨?_, ?_, ?_, ?_, ?_, ?_⟩
  · intro id node hnode
    rw [Index.node?_placeless, index_node?] at hnode
    rcases Option.map_eq_some_iff.1 hnode with ⟨found, hfound, rfl⟩
    have hid : found.id = id := node?_id hfound
    exact hid
  · intro id _
    rw [Index.node?_placeless, Index.node?_placeless, index_node?, index_node?, h.node?_eq hids]
  · intro id handle _
    exact h.next?_eq hids houtputs id handle
  · intro id node _ _ handle _
    exact h.source?_eq id handle
  · intros
    trivial
  · intros
    trivial

/-- The one start node is the same, its place aside. -/
theorem exists_start (h : graph.Redrawn other) {start : Node}
    (hstart : graph.nodesOfKind .start = [start]) :
    ∃ node, other.nodesOfKind .start = [node] ∧ node.id = start.id := by
  have hsearch : ∀ nodes : List Node, (nodes.filter (·.kind = .start)).map Node.placeless =
      (nodes.map Node.placeless).filter (·.kind = .start) := by
    intro nodes
    rw [List.filter_map]
    rfl
  have hperm : ((other.nodesOfKind .start).map Node.placeless).Perm
      ((graph.nodesOfKind .start).map Node.placeless) := by
    rw [nodesOfKind, nodesOfKind, hsearch, hsearch]
    exact h.nodes.filter _
  rw [hstart, List.map_singleton, List.perm_singleton, List.map_eq_singleton_iff] at hperm
  rcases hperm with ⟨node, hnode, hsame⟩
  have hid : node.placeless.id = start.placeless.id := by rw [hsame]
  exact ⟨node, hnode, hid⟩

end Redrawn

/-- Of a graph with distinct node ids, one start node and at most one connection out of each
execution output, all drawings run alike: they take the same moves to the same outcome, or go on
forever together. -/
theorem execute?_redrawn (graph other : Graph) (hids : (graph.nodes.map Node.id).Nodup)
    (hstart : graph.nodes.countP (·.kind = .start) = 1)
    (houtputs : NoTwo graph.SameOutput (graph.connections.map Connection.toEndpoints))
    (hredrawn : graph.Redrawn other) (array : Array Float) (settings : Settings) (moves : Nat) :
    other.execute? array settings moves = graph.execute? array settings moves := by
  rw [List.countP_eq_length_filter, List.length_eq_one_iff] at hstart
  rcases hstart with ⟨start, hstart⟩
  rcases hredrawn.exists_start hstart with ⟨node, hnode, hid⟩
  have hinitial : initialState node array settings = initialState start array settings := by
    rw [initialState, initialState, hid]
  have hconfined : (initialState start array settings).Confined fun _ => True :=
    ⟨trivial, fun _ _ => trivial⟩
  have hrun : (initialState start array settings).runFor other.index settings.stepLimit moves =
      (initialState start array settings).runFor graph.index settings.stepLimit moves :=
    calc (initialState start array settings).runFor other.index settings.stepLimit moves
        = (initialState start array settings).runFor other.index.placeless settings.stepLimit
            moves := (State.runFor_placeless _ _ _ _).symm
      _ = (initialState start array settings).runFor graph.index.placeless settings.stepLimit
            moves := (hredrawn.agreeOn hids houtputs).runFor_eq settings.stepLimit moves hconfined
      _ = (initialState start array settings).runFor graph.index settings.stepLimit moves :=
          State.runFor_placeless _ _ _ _
  have hstarts : graph.nodesOfKind .start = [start] := hstart
  simp only [execute?, hnode, hstarts, hinitial, hrun]

/-- The graph of shared reads, drawn elsewhere and from its end to its start. -/
def redrawnReads : Graph where
  nodes := sharedReads.nodes.reverse.map fun node =>
    { node with position := { x := 3.0, y := 4.0 } }
  connections :=
    (sharedReads.connections.drop 5 ++ (sharedReads.connections.take 5).reverse).map fun c =>
      { c with id := "wire " ++ c.id }

theorem redrawn_redrawnReads : sharedReads.Redrawn redrawnReads := by
  refine ⟨by decide +kernel, by decide +kernel, ?_⟩
  -- The connections that carry data stand in the same order altogether.
  have hdata : (redrawnReads.connections.map Connection.toEndpoints).filter
        redrawnReads.carriesData =
      (sharedReads.connections.map Connection.toEndpoints).filter sharedReads.carriesData := by
    decide +kernel
  have hfeeds : ∀ (graph : Graph) (node : NodeId) (handle : String), graph.feeds node handle =
      ((graph.connections.map Connection.toEndpoints).filter graph.carriesData).filter fun ends =>
        ends.target = node && ends.targetHandle = handle := by
    intro graph node handle
    rw [List.filter_filter]
    rfl
  intro node handle
  rw [hfeeds, hfeeds, hdata]

/-- Reads that are shared give the same run when they are drawn the other way round. -/
theorem execute?_redrawn_redrawnReads :
    sharedReads.Redrawn redrawnReads ∧ redrawnReads ≠ sharedReads ∧
      ∃ outcome, redrawnReads.execute? #[2.0, 1.0] {} 6 = some outcome ∧
        outcome.completed = true ∧ outcome.finalArray = #[1.0, 2.0] ∧
        sharedReads.execute? #[2.0, 1.0] {} 6 = some outcome := by
  have hvalid : sharedReads.validate.isValid = true := by decide +kernel
  rcases isValid_iff_rules.1 hvalid with ⟨hstart, -, hregular⟩
  have hsame := execute?_redrawn sharedReads redrawnReads (by decide +kernel) hstart
    hregular.outputs redrawn_redrawnReads #[2.0, 1.0] {} 6
  have hends : (sharedReads.execute? #[2.0, 1.0] {} 6).isSome = true := by decide +kernel
  have hshows : ∀ outcome ∈ sharedReads.execute? #[2.0, 1.0] {} 6,
      outcome.completed = true ∧ outcome.finalArray = #[1.0, 2.0] := by
    decide +kernel
  rcases Option.isSome_iff_exists.1 hends with ⟨outcome, houtcome⟩
  rcases hshows outcome houtcome with ⟨hcompleted, harray⟩
  exact ⟨redrawn_redrawnReads, by decide +kernel, outcome, hsame.trans houtcome, hcompleted, harray,
    houtcome⟩

end Graph

end FlowTrace
