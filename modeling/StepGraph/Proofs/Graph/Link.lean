import StepGraph.Graph.Index
import StepGraph.Workflow.Compile

/-!
# Where edges lead

`Graph.stepIdAt?` and `Graph.firstLink?` say, by search in the lists of a graph, which step an edge
leads to.  The look-up tables that a compilation uses say the same.

* `handleTarget?_index` and `successor?_index` are about the edges out of a node, and
  `handleTarget?_eq_none_iff` is about a handle that leads nowhere.
* `startNode?_index` is about the node that a run begins at.
-/

namespace StepGraph

variable {α : Type}

namespace Graph

/-- The identity of the step of an id, in the first node that has the id. -/
def stepIdAt? (g : Graph α) (id : String) : Option String := (g.node? id).map (·.data.stepId)

/-- The step that the first resolved edge out of an id leads to, among the edges with a property. -/
def firstLink? (g : Graph α) (id : String) (p : Edge → Bool) : Option String :=
  (g.resolvedEdges.find? fun edge => edge.source == id && p edge).bind fun edge =>
    g.stepIdAt? edge.target

/-- The step that a handle of a node leads to. -/
def linkThrough? (g : Graph α) (id handle : String) : Option String :=
  g.firstLink? id (·.leavesThrough handle)

/-- The first node into which no resolved edge leads. -/
def firstStart? (g : Graph α) : Option (Node α) :=
  g.nodes.find? fun node => g.resolvedEdges.all (·.target != node.id)

theorem exists_node?_of_hasNode {g : Graph α} {id : String} (h : g.hasNode id = true) :
    ∃ node, g.node? id = some node := by
  rw [← Option.isSome_iff_exists, node?, List.find?_isSome]
  simpa [hasNode] using h

end Graph

namespace Index

theorem targetStep?_index (g : Graph α) :
    g.index.targetStep? = fun edge => g.stepIdAt? edge.target := by
  funext edge
  rw [targetStep?, node?_index, Graph.stepIdAt?]

/-- The tables find the first edge through a handle. -/
theorem handleTarget?_index (g : Graph α) (node : Node α) (handle : String) :
    g.index.handleTarget? node handle = g.linkThrough? node.id handle := by
  unfold handleTarget? edgeFromHandle? Graph.linkThrough? Graph.firstLink?
  rw [outgoing_index, List.find?_filter, targetStep?_index]
  simp only [Bool.decide_and, Bool.decide_eq_true]

/-- An edge in the tables leads to a step, so a handle without a target has no edge. -/
theorem handleTarget?_eq_none_iff (g : Graph α) (node : Node α) (handle : String) :
    g.index.handleTarget? node handle = none ↔
      g.index.edgeFromHandle? node.id handle = none := by
  unfold handleTarget?
  cases hedge : g.index.edgeFromHandle? node.id handle with
  | none => simp
  | some edge =>
    have hmem : edge ∈ g.index.outgoing node.id := List.mem_of_find?_eq_some hedge
    rw [outgoing_index, List.mem_filter, Graph.resolvedEdges, List.mem_filter] at hmem
    obtain ⟨target, htarget⟩ :=
      Graph.exists_node?_of_hasNode (Bool.and_eq_true_iff.1 hmem.1.2).2
    simp [targetStep?, htarget]

/-- The tables find the first edge out of a node. -/
theorem successor?_index (g : Graph α) (node : Node α) :
    g.index.successor? node = g.firstLink? node.id fun _ => true := by
  unfold successor? Graph.firstLink?
  rw [outgoing_index, List.head?_filter, targetStep?_index]
  simp only [Bool.and_true]

/-- The tables find the first node that a run may begin at. -/
theorem startNode?_index (g : Graph α) : g.index.startNode? = g.firstStart? := by
  unfold startNode? startCandidates Graph.firstStart?
  rw [nodes_index, List.head?_filter]
  congr 1
  funext node
  rw [incomingCount_index, Bool.eq_iff_iff]
  simp [List.countP_eq_zero]

end Index

end StepGraph
