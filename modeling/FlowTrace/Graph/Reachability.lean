import FlowTrace.Graph.Basic

/-!
# Reachability

A node needs the nodes that its execution outputs lead to and the nodes that its data inputs read
from.  This file collects the ids needed, directly or through others, from a given id on.
-/

namespace FlowTrace

namespace Graph

/-- The ids that a node needs directly: the targets of its execution outputs and the sources of its
data inputs. -/
def neighbours (graph : Graph) (id : NodeId) : List NodeId :=
  match graph.node? id with
  | none => []
  | some node =>
      let next := graph.connections.filter fun c =>
        c.source = id && node.isExecutionOutput c.sourceHandle
      let read := graph.connections.filter fun c =>
        c.target = id && node.isDataInput c.targetHandle
      next.map (·.target) ++ read.map (·.source)

def within (ids : List NodeId) (nodes : List Node) : List Node :=
  nodes.filter fun node => ids.contains node.id

def beyond (ids : List NodeId) (nodes : List Node) : List Node :=
  nodes.filter fun node => !ids.contains node.id

theorem length_beyond_lt {ids : List NodeId} {nodes : List Node} (h : within ids nodes ≠ []) :
    (beyond ids nodes).length < nodes.length := by
  obtain ⟨node, hmem⟩ := List.exists_mem_of_ne_nil _ h
  obtain ⟨hnode, hin⟩ := List.mem_filter.1 hmem
  unfold beyond
  apply List.length_filter_lt_length_iff_exists.2
  exact ⟨node, hnode, by simpa using hin⟩

/-- The ids reached from a frontier, round by round.  Each round takes the nodes of the frontier off
the unvisited ones, and their neighbours are the next frontier. -/
def reachFrom (graph : Graph) (unvisited : List Node) (frontier : List NodeId) : List NodeId :=
  if _ : within frontier unvisited = [] then
    frontier
  else
    frontier ++ graph.reachFrom (beyond frontier unvisited)
      ((within frontier unvisited).flatMap fun node => graph.neighbours node.id)
termination_by unvisited.length
decreasing_by
  exact length_beyond_lt (by assumption)

/-- The ids reached from an id, itself included. -/
def reachable (graph : Graph) (start : NodeId) : List NodeId :=
  graph.reachFrom graph.nodes [start]

end Graph
end FlowTrace
