import FlowTrace.Graph.Validation
import FlowTrace.Proofs.Graph.Reachability
import Mathlib.Data.List.Basic
import Mathlib.Order.Bounds.Basic

/-!
# What a search from an id finds

The ids that are collected from an id on are exactly those that it needs, directly or through
others: they are the least set that contains the id and is closed under what nodes need.  The same
set is found by a search that takes one id at a time from a queue.  Such a search ends, whatever the
connections look like: ids may wait in the queue several times or name no node, but each end of a
connection is followed once at most.

* `Graph.Encloses` — a set of ids that is closed under what nodes need;
* `Graph.isLeast_reachable` — the ids collected are the least such set;
* `Graph.Search` and `Graph.Search.turn?` — the search with a queue, one turn at a time;
* `Graph.Search.Sound` — its invariant, with the step lemma `Graph.Search.Sound.turn?`;
* `Graph.Search.outstanding_turn?_lt` — every turn leaves less to do;
* `Graph.Search.exists_ended` — hence it ends, with the ids reachable as the ids visited.
-/

namespace FlowTrace

def Warning.isUnreachable : Warning → Bool
  | unreachable _ _ => true
  | unresolved _ _ => false

namespace Graph

variable {graph : Graph} {start : NodeId}

/-! ## The least closed set -/

/-- A set of ids that contains a given id.  With the id of a node it contains the targets of all
connections from its execution outputs and the sources of all connections into its data inputs. -/
structure Encloses (graph : Graph) (start : NodeId) (ids : Set NodeId) : Prop where
  start_mem : start ∈ ids
  target_mem : ∀ id ∈ ids, ∀ node, graph.node? id = some node →
    ∀ connection ∈ graph.connections, connection.source = id →
      node.isExecutionOutput connection.sourceHandle = true → connection.target ∈ ids
  source_mem : ∀ id ∈ ids, ∀ node, graph.node? id = some node →
    ∀ connection ∈ graph.connections, connection.target = id →
      node.isDataInput connection.targetHandle = true → connection.source ∈ ids

namespace Encloses

variable {ids : Set NodeId}

/-- A set is closed if it contains what its nodes need. -/
theorem of_neighbours (hstart : start ∈ ids)
    (hneeds : ∀ id ∈ ids, ∀ other ∈ graph.neighbours id, other ∈ ids) :
    graph.Encloses start ids where
  start_mem := hstart
  target_mem := by
    intro id hid node hnode connection hmem hsource hexec
    apply hneeds id hid
    exact mem_neighbours_iff.2 ⟨node, hnode, connection, hmem, Or.inl ⟨hsource, hexec, rfl⟩⟩
  source_mem := by
    intro id hid node hnode connection hmem htarget hdata
    apply hneeds id hid
    exact mem_neighbours_iff.2 ⟨node, hnode, connection, hmem, Or.inr ⟨htarget, hdata, rfl⟩⟩

theorem neighbour_mem (h : graph.Encloses start ids) {id other : NodeId} (hid : id ∈ ids)
    (hneeds : other ∈ graph.neighbours id) : other ∈ ids := by
  rcases mem_neighbours_iff.1 hneeds with
    ⟨node, hnode, connection, hmem, ⟨hsource, hexec, htarget⟩ | ⟨htarget, hdata, hsource⟩⟩
  · exact htarget ▸ h.target_mem id hid node hnode connection hmem hsource hexec
  · exact hsource ▸ h.source_mem id hid node hnode connection hmem htarget hdata

/-- A round from within a closed set stays in it, and so do all that follow. -/
theorem reachFrom_mem (h : graph.Encloses start ids) (unvisited : List Node)
    (frontier : List NodeId) (hfrontier : ∀ id ∈ frontier, id ∈ ids) :
    ∀ id ∈ graph.reachFrom unvisited frontier, id ∈ ids := by
  fun_induction reachFrom graph unvisited frontier with
  | case1 unvisited frontier _ =>
      exact hfrontier
  | case2 unvisited frontier _ ih =>
      have hnext : ∀ id ∈ (within frontier unvisited).flatMap fun node =>
          graph.neighbours node.id, id ∈ ids := by
        intro other hother
        rcases List.mem_flatMap.1 hother with ⟨node, hnode, hneeds⟩
        have hvisited : node.id ∈ frontier := by simpa using (List.mem_filter.1 hnode).2
        exact h.neighbour_mem (hfrontier node.id hvisited) hneeds
      intro id hmem
      rcases List.mem_append.1 hmem with hnow | hlater
      · exact hfrontier id hnow
      · exact ih hnext id hlater

end Encloses

/-- The ids collected from an id on are the least closed set that contains it. -/
theorem isLeast_reachable (graph : Graph) (start : NodeId) :
    IsLeast {ids : Set NodeId | graph.Encloses start ids} {id | id ∈ graph.reachable start} := by
  have hclosed : graph.Encloses start {id | id ∈ graph.reachable start} := by
    apply Encloses.of_neighbours (graph.self_mem_reachable start)
    intro id hid other hneeds
    exact mem_reachable_of_neighbour hid hneeds
  refine ⟨hclosed, ?_⟩
  -- The rounds begin inside of any closed set that contains the id.
  intro ids hids id hmem
  have hfrontier : ∀ other ∈ [start], other ∈ ids := by
    intro other hother
    exact List.mem_singleton.1 hother ▸ hids.start_mem
  exact hids.reachFrom_mem graph.nodes [start] hfrontier id hmem

/-! ## Searching with a queue -/

/-- A search under way: the ids visited so far, and those that wait for their turn. -/
structure Search where
  visited : List NodeId
  waiting : List NodeId

namespace Search

/-- The search takes the first id that waits.  It visits the id unless it has done so before, and
what the id needs goes to the end of the queue.  With an empty queue there is no turn. -/
def turn? (graph : Graph) (search : Search) : Option Search :=
  match search.waiting with
  | [] => none
  | id :: waiting =>
      if id ∈ search.visited then
        some { search with waiting }
      else
        some { visited := id :: search.visited, waiting := waiting ++ graph.neighbours id }

/-- The search after a number of turns, if it goes on for so long. -/
def after? (graph : Graph) : (turns : Nat) → Search → Option Search
  | 0, search => some search
  | turns + 1, search => (search.turn? graph).bind (after? graph turns)

def Knows (search : Search) (id : NodeId) : Prop :=
  id ∈ search.visited ∨ id ∈ search.waiting

/-- What a turn does: it drops an id that was visited before, or visits a new one. -/
theorem turn?_cases {search next : Search} (hturn : search.turn? graph = some next) :
    ∃ id waiting, search.waiting = id :: waiting ∧
      ((id ∈ search.visited ∧ next = { search with waiting }) ∨
        (id ∉ search.visited ∧ next = {
          visited := id :: search.visited
          waiting := waiting ++ graph.neighbours id })) := by
  unfold turn? at hturn
  cases hwaiting : search.waiting with
  | nil =>
      simp [hwaiting] at hturn
  | cons id waiting =>
      refine ⟨id, waiting, rfl, ?_⟩
      by_cases hvisited : id ∈ search.visited
      · left
        exact ⟨hvisited, by simpa [hwaiting, hvisited] using hturn.symm⟩
      · right
        exact ⟨hvisited, by simpa [hwaiting, hvisited] using hturn.symm⟩

/-! ### What every turn keeps -/

/-- A search that goes right: no id is visited twice, the first id is known, all known ids are
reachable, and what a visited id needs is known. -/
structure Sound (graph : Graph) (start : NodeId) (search : Search) : Prop where
  nodup : search.visited.Nodup
  start_known : search.Knows start
  reachable : ∀ id, search.Knows id → id ∈ graph.reachable start
  followed : ∀ id ∈ search.visited, ∀ other ∈ graph.neighbours id, search.Knows other

namespace Sound

variable {search next : Search}

theorem initial (graph : Graph) (start : NodeId) : Sound graph start ⟨[], [start]⟩ where
  nodup := List.nodup_nil
  start_known := Or.inr (List.mem_singleton_self start)
  reachable := by
    rintro id (hvisited | hwaiting)
    · cases hvisited
    · exact List.mem_singleton.1 hwaiting ▸ graph.self_mem_reachable start
  followed := by
    intro id hvisited
    cases hvisited

/-- An id that was visited before can leave the queue: it stays known. -/
theorem dropped {id : NodeId} {waiting : List NodeId} (h : Sound graph start search)
    (hwaiting : search.waiting = id :: waiting) (hvisited : id ∈ search.visited) :
    Sound graph start { search with waiting } := by
  have hknows : ∀ other, Knows { search with waiting } other ↔ search.Knows other := by
    intro other
    unfold Knows
    rw [hwaiting, List.mem_cons]
    constructor
    · rintro (hmem | hmem)
      · exact Or.inl hmem
      · exact Or.inr (Or.inr hmem)
    · rintro (hmem | rfl | hmem)
      · exact Or.inl hmem
      · exact Or.inl hvisited
      · exact Or.inr hmem
  constructor
  · exact h.nodup
  · exact (hknows start).2 h.start_known
  · intro other hother
    exact h.reachable other ((hknows other).1 hother)
  · intro other hother needed hneeds
    exact (hknows needed).2 (h.followed other hother needed hneeds)

/-- An id that is visited for the first time brings what it needs, and nothing else is new. -/
theorem extended {id : NodeId} {waiting : List NodeId} (h : Sound graph start search)
    (hwaiting : search.waiting = id :: waiting) (hnew : id ∉ search.visited) :
    Sound graph start ⟨id :: search.visited, waiting ++ graph.neighbours id⟩ := by
  have hid : id ∈ graph.reachable start :=
    h.reachable id (Or.inr (hwaiting ▸ List.mem_cons_self))
  have hkept : ∀ other, search.Knows other →
      Knows ⟨id :: search.visited, waiting ++ graph.neighbours id⟩ other := by
    rintro other (hmem | hmem)
    · exact Or.inl (List.mem_cons_of_mem id hmem)
    · rcases List.mem_cons.1 (hwaiting ▸ hmem) with rfl | hmem
      · exact Or.inl List.mem_cons_self
      · exact Or.inr (List.mem_append_left _ hmem)
  constructor
  · exact List.nodup_cons.2 ⟨hnew, h.nodup⟩
  · exact hkept start h.start_known
  · -- What comes to the queue is needed by an id that is reachable itself.
    rintro other (hmem | hmem)
    · rcases List.mem_cons.1 hmem with rfl | hmem
      · exact hid
      · exact h.reachable other (Or.inl hmem)
    · rcases List.mem_append.1 hmem with hmem | hneeds
      · exact h.reachable other (Or.inr (hwaiting ▸ List.mem_cons_of_mem id hmem))
      · exact mem_reachable_of_neighbour hid hneeds
  · intro other hother needed hneeds
    rcases List.mem_cons.1 hother with rfl | hother
    · exact Or.inr (List.mem_append_right _ hneeds)
    · exact hkept needed (h.followed other hother needed hneeds)

/-- Every turn keeps a search right. -/
theorem turn? (h : Sound graph start search) (hturn : search.turn? graph = some next) :
    Sound graph start next := by
  rcases turn?_cases hturn with ⟨id, waiting, hwaiting, ⟨hvisited, rfl⟩ | ⟨hnew, rfl⟩⟩
  · exact h.dropped hwaiting hvisited
  · exact h.extended hwaiting hnew

/-- With an empty queue, the ids visited are a closed set, and so they are all that is reachable. -/
theorem mem_visited_iff {visited : List NodeId} (h : Sound graph start ⟨visited, []⟩)
    {id : NodeId} : id ∈ visited ↔ id ∈ graph.reachable start := by
  have hknows : ∀ other, Knows ⟨visited, []⟩ other → other ∈ visited := by
    rintro other (hmem | hmem)
    · exact hmem
    · cases hmem
  have hclosed : graph.Encloses start {other | other ∈ visited} := by
    apply Encloses.of_neighbours (hknows start h.start_known)
    intro other hother needed hneeds
    exact hknows needed (h.followed other hother needed hneeds)
  constructor
  · intro hmem
    exact h.reachable id (Or.inl hmem)
  · intro hmem
    exact (isLeast_reachable graph start).2 hclosed hmem

end Sound

/-! ### What is left to do -/

/-- The ids that wait, and the ends of connections at ids that have not been visited. -/
def outstanding (graph : Graph) (search : Search) : Nat :=
  search.waiting.length + graph.connections.countP (·.source ∉ search.visited) +
    graph.connections.countP (·.target ∉ search.visited)

/-- Visiting an id settles the ends of connections at it. -/
theorem countP_visit {visited : List NodeId} {id : NodeId} (hnew : id ∉ visited)
    (side : Connection → NodeId) (connections : List Connection) :
    connections.countP (side · ∉ id :: visited) + connections.countP (side · = id) =
      connections.countP (side · ∉ visited) := by
  induction connections with
  | nil =>
      rfl
  | cons connection rest ih =>
      by_cases hside : side connection = id
      · rw [List.countP_cons_of_neg (by simp [hside]), List.countP_cons_of_pos (by simp [hside]),
          List.countP_cons_of_pos (by simpa [hside] using hnew), ← ih, Nat.add_assoc]
      · have hhead : (side connection ∉ id :: visited) ↔ side connection ∉ visited := by
          simp [hside]
        rw [List.countP_cons_of_neg (p := (side · = id)) (by simp [hside]), List.countP_cons,
          List.countP_cons, ← ih]
        simp only [hhead]
        omega

theorem length_neighbours_le (graph : Graph) (id : NodeId) :
    (graph.neighbours id).length ≤
      graph.connections.countP (·.source = id) + graph.connections.countP (·.target = id) := by
  unfold neighbours
  cases graph.node? id with
  | none =>
      exact Nat.zero_le _
  | some node =>
      simp only [List.length_append, List.length_map, ← List.countP_eq_length_filter]
      apply Nat.add_le_add
      · apply List.countP_mono_left
        intro connection _ hnext
        exact (Bool.and_eq_true_iff.1 hnext).1
      · apply List.countP_mono_left
        intro connection _ hread
        exact (Bool.and_eq_true_iff.1 hread).1

/-- Every turn leaves less to do. -/
theorem outstanding_turn?_lt {search next : Search} (hturn : search.turn? graph = some next) :
    next.outstanding graph < search.outstanding graph := by
  rcases turn?_cases hturn with ⟨id, waiting, hwaiting, ⟨-, rfl⟩ | ⟨hnew, rfl⟩⟩
  · simp only [outstanding, hwaiting, List.length_cons]
    omega
  · -- The queue grows by what the id needs, and that many ends are settled.
    have hneeds := length_neighbours_le graph id
    have hsources := countP_visit hnew (·.source) graph.connections
    have htargets := countP_visit hnew (·.target) graph.connections
    simp only [outstanding, hwaiting, List.length_cons, List.length_append]
    omega

/-- A search that goes right ends before it has done more than what is left to do. -/
theorem exists_ended (bound : Nat) :
    ∀ {search : Search}, Sound graph start search → search.outstanding graph ≤ bound →
      ∃ turns ≤ bound, ∃ visited, after? graph turns search = some ⟨visited, []⟩ ∧
        Sound graph start ⟨visited, []⟩ := by
  induction bound with
  | zero =>
      intro search hsound hbound
      have hempty : search.waiting = [] := by
        apply List.eq_nil_of_length_eq_zero
        unfold outstanding at hbound
        omega
      obtain ⟨visited, waiting⟩ := search
      cases hempty
      exact ⟨0, Nat.le_refl 0, visited, rfl, hsound⟩
  | succ bound ih =>
      intro search hsound hbound
      cases hturn : search.turn? graph with
      | none =>
          -- No turn is left because nothing waits.
          obtain ⟨visited, waiting⟩ := search
          cases waiting with
          | nil =>
              exact ⟨0, Nat.zero_le _, visited, rfl, hsound⟩
          | cons id waiting =>
              simp only [turn?] at hturn
              split at hturn <;> cases hturn
      | some next =>
          have hless := outstanding_turn?_lt hturn
          rcases ih (hsound.turn? hturn) (by omega) with ⟨turns, hturns, visited, hafter, hend⟩
          refine ⟨turns + 1, Nat.succ_le_succ hturns, visited, ?_, hend⟩
          simpa [after?, hturn] using hafter

/-- The search from an id ends with the ids that are reachable, after at most one turn more than
there are ends of connections. -/
theorem exists_visited (graph : Graph) (start : NodeId) :
    ∃ turns ≤ 2 * graph.connections.length + 1, ∃ visited,
      after? graph turns ⟨[], [start]⟩ = some ⟨visited, []⟩ ∧ visited.Nodup ∧
        ∀ id, id ∈ visited ↔ id ∈ graph.reachable start := by
  -- Each connection has two ends to settle, and one id waits.
  have hall : outstanding graph ⟨[], [start]⟩ =
      1 + graph.connections.length + graph.connections.length := by
    simp [outstanding]
  have hbound : outstanding graph ⟨[], [start]⟩ ≤ 2 * graph.connections.length + 1 := by
    omega
  rcases exists_ended _ (Sound.initial graph start) hbound with
    ⟨turns, hturns, visited, hafter, hend⟩
  exact ⟨turns, hturns, visited, hafter, hend.nodup, fun _ => hend.mem_visited_iff⟩

end Search

/-! ## Warnings -/

/-- The warnings about unreachable nodes are those about nodes that the search does not reach. -/
theorem filter_isUnreachable_warnings {first : Node} {others : List Node}
    (hstarts : graph.nodesOfKind .start = first :: others) :
    graph.validate.warnings.filter Warning.isUnreachable =
      (graph.nodes.filter fun node => node.id ∉ graph.reachable first.id).map fun node =>
        Warning.unreachable node.id node.kind := by
  have hunreachable : graph.unreachableWarnings.filter Warning.isUnreachable =
      graph.unreachableWarnings := by
    apply List.filter_eq_self.2
    intro warning hmem
    simp only [unreachableWarnings, hstarts, List.mem_map] at hmem
    rcases hmem with ⟨node, -, rfl⟩
    rfl
  -- The other warnings are about inputs.
  have hunresolved : graph.unresolvedWarnings.filter Warning.isUnreachable = [] := by
    apply List.filter_eq_nil_iff.2
    intro warning hmem
    rcases List.mem_flatMap.1 hmem with ⟨node, -, hmem⟩
    rcases List.mem_map.1 hmem with ⟨input, -, rfl⟩
    simp [Warning.isUnreachable]
  rw [validate, List.filter_append, hunreachable, hunresolved, List.append_nil]
  simp [unreachableWarnings, hstarts]

/-- The search from an id ends, and what it finds is the least set of ids that contains the id and
is closed under what nodes need.  Validation warns about a node as unreachable if and only if its id
is not in the set found from the first start node. -/
theorem reachable_exact (graph : Graph) :
    (∀ start, ∃ turns ≤ 2 * graph.connections.length + 1, ∃ visited,
      Search.after? graph turns ⟨[], [start]⟩ = some ⟨visited, []⟩ ∧ visited.Nodup ∧
        ∀ id, id ∈ visited ↔ id ∈ graph.reachable start) ∧
    (∀ start, IsLeast {ids : Set NodeId | graph.Encloses start ids}
      {id | id ∈ graph.reachable start}) ∧
    ∀ first others, graph.nodesOfKind .start = first :: others →
      graph.validate.warnings.filter Warning.isUnreachable =
        (graph.nodes.filter fun node => node.id ∉ graph.reachable first.id).map fun node =>
          Warning.unreachable node.id node.kind := by
  refine ⟨Search.exists_visited graph, isLeast_reachable graph, ?_⟩
  intro first others hstarts
  exact filter_isUnreachable_warnings hstarts

/-- Two accesses that lead to each other and read from each other, and beyond them a connection to
no node.  A swap leads to them, but nothing leads to it. -/
def tangledReads : Graph where
  nodes :=
    [Node.new "begin" .start, Node.new "one" .arrayAccess, Node.new "two" .arrayAccess,
      Node.new "idle" .arraySwap, Node.new "count" .counterIncrement]
  connections :=
    [⟨⟨"begin", execOut, "one", execIn⟩, "1"⟩, ⟨⟨"one", execOut, "two", execIn⟩, "2"⟩,
      ⟨⟨"two", execOut, "one", execIn⟩, "3"⟩, ⟨⟨"two", execOut, "nowhere", execIn⟩, "4"⟩,
      ⟨⟨"one", "value", "two", "index"⟩, "5"⟩, ⟨⟨"two", "value", "one", "index"⟩, "6"⟩,
      ⟨⟨"idle", execOut, "one", execIn⟩, "7"⟩, ⟨⟨"count", "value", "two", "index"⟩, "8"⟩]

/-- The search comes across all but the idle swap, the id without a node included. -/
theorem reachable_exact_tangledReads :
    ∃ first, tangledReads.nodesOfKind .start = [first] ∧ first.id = "begin" ∧
      tangledReads.validate.warnings.filter Warning.isUnreachable =
        [.unreachable "idle" .arraySwap] ∧
      (∃ turns ≤ 17, ∃ visited,
        Search.after? tangledReads turns ⟨[], ["begin"]⟩ = some ⟨visited, []⟩ ∧
          "nowhere" ∈ visited) ∧
      ∀ ids : Set NodeId, tangledReads.Encloses "begin" ids → "count" ∈ ids := by
  have hstarts : tangledReads.nodesOfKind .start = [Node.new "begin" .start] := by decide +kernel
  have hcount : "count" ∈ tangledReads.reachable "begin" := by decide +kernel
  have hnowhere : "nowhere" ∈ tangledReads.reachable "begin" := by decide +kernel
  have hmissed : ((tangledReads.nodes.filter fun node =>
      node.id ∉ tangledReads.reachable "begin").map fun node =>
        Warning.unreachable node.id node.kind) = [.unreachable "idle" .arraySwap] := by
    decide +kernel
  rcases reachable_exact tangledReads with ⟨hends, hleast, hwarnings⟩
  rcases hends "begin" with ⟨turns, hturns, visited, hafter, -, hvisited⟩
  refine ⟨_, hstarts, rfl, (hwarnings _ _ hstarts).trans hmissed,
    ⟨turns, hturns, visited, hafter, (hvisited _).2 hnowhere⟩, ?_⟩
  intro ids hids
  exact (hleast "begin").2 hids hcount

end Graph
end FlowTrace
