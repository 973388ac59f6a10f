import Mathlib.Data.List.Forall2
import Mathlib.Data.Option.Basic
import StepGraph.Graph.Index
import StepGraph.Proofs.List

/-!
# What an editor keeps for itself

Positions, the further keys of a step and the notes of where paths lead are there for an editor.
Nodes that differ in nothing else are alike.  Of the edges, what matters is where those out of an id
lead and through which handles, in their order; how edges out of different ids are mixed, their own
ids and the handles they lead to do not.

There are three groups.

* `Node.Alike`, and what nodes that are alike have in common.
* `Graph.SameFlow`, and graphs that an edit gives the same flow.
* `Index.Alike`, which says that look-up tables are alike.  `SameFlow.index` is the one place where
  tables are looked at; everything that is made from tables is compared through `Index.Alike`.
-/

namespace StepGraph

variable {α : Type}

/-! ## Nodes -/

/-- A path without the note of where it leads. -/
def BranchPath.withoutNote (path : BranchPath) : BranchPath := { path with target := none }

/-- What matters of the data of a step. -/
def StepData.core (data : StepData) : StepData :=
  { data with branches := data.branches.map (·.withoutNote), extra := .empty }

/-- Nodes that differ at most in what an editor keeps for itself. -/
structure Node.Alike (node node' : Node α) : Prop where
  id : node.id = node'.id
  kind : node.kind = node'.kind
  core : node.data.core = node'.data.core

namespace Node.Alike

variable {node node' : Node α}

theorem refl (node : Node α) : node.Alike node := ⟨rfl, rfl, rfl⟩

/-- Where a node is put does not matter. -/
theorem move (node : Node α) (position : Point α) : node.Alike { node with position := position } :=
  ⟨rfl, rfl, rfl⟩

section

variable (h : node.Alike node')

include h

/-- The parts of the data that do not hold notes. -/
theorem parts : node.data.label = node'.data.label ∧ node.data.stepId = node'.data.stepId ∧
    node.data.stepName = node'.data.stepName ∧ node.data.actionId = node'.data.actionId ∧
    node.data.definition = node'.data.definition ∧ node.data.config = node'.data.config := by
  have hcore := h.core
  simp only [StepData.core, StepData.mk.injEq] at hcore
  exact ⟨hcore.1, hcore.2.1, hcore.2.2.1, hcore.2.2.2.1, hcore.2.2.2.2.1, hcore.2.2.2.2.2.1⟩

theorem stepId : node.data.stepId = node'.data.stepId := h.parts.2.1

/-- The paths up to their notes. -/
theorem branches :
    node.data.branches.map (·.withoutNote) = node'.data.branches.map (·.withoutNote) :=
  congrArg StepData.branches h.core

/-- What does not look at the notes is the same for the paths. -/
theorem of_branches {β : Type} (f : List BranchPath → β)
    (hf : ∀ branches : List BranchPath, f (branches.map (·.withoutNote)) = f branches) :
    f node.data.branches = f node'.data.branches := by
  rw [← hf, h.branches, hf]

theorem length_branches : node.data.branches.length = node'.data.branches.length :=
  h.of_branches List.length fun _ => List.length_map _

theorem displayName : node.displayName = node'.displayName := by
  obtain ⟨hlabel, -, hname, -⟩ := h.parts
  simp only [Node.displayName, hlabel, hname, h.id]

theorem isBranch : node.isBranch = node'.isBranch := by
  simp only [Node.isBranch, h.kind]

theorem isApproval : node.isApproval = node'.isApproval := by
  obtain ⟨-, -, -, -, hdefinition, -⟩ := h.parts
  simp only [Node.isApproval, Node.isAction, h.kind, hdefinition]

end

end Node.Alike

/-! ## Graphs -/

/-- Where an edge leads, and through which handle it leaves. -/
def Edge.way (edge : Edge) : String × Option String := (edge.target, edge.sourceHandle)

/-- The ways out of an id, in the order of the list. -/
def Graph.ways (g : Graph α) (id : String) : List (String × Option String) :=
  (g.edges.filter (·.source == id)).map (·.way)

/-- Graphs that differ at most in what an editor keeps for itself and in the mixing of edges out of
different ids. -/
structure Graph.SameFlow (g g' : Graph α) : Prop where
  nodes : List.Forall₂ Node.Alike g.nodes g'.nodes
  ways : ∀ id, g.ways id = g'.ways id

namespace Graph

variable {g g' : Graph α}

theorem SameFlow.isEmpty (h : g.SameFlow g') : g.isEmpty = g'.isEmpty := by
  rw [Bool.eq_iff_iff, Graph.isEmpty, Graph.isEmpty, List.isEmpty_iff, List.isEmpty_iff,
    ← List.length_eq_zero_iff, ← List.length_eq_zero_iff, h.nodes.length_eq]

theorem SameFlow.map_id (h : g.SameFlow g') : g.nodes.map (·.id) = g'.nodes.map (·.id) :=
  map_eq_of_forall₂ h.nodes fun _ _ halike => halike.id

theorem SameFlow.hasNode (h : g.SameFlow g') : g.hasNode = g'.hasNode := by
  have hany : ∀ g : Graph α, g.hasNode = fun id => (g.nodes.map (·.id)).any (· == id) := by
    intro g
    funext id
    simp [Graph.hasNode, List.any_map, Function.comp_def]
  rw [hany, hany, h.map_id]

/-- Where nodes are put and that an edit arranges them does not matter. -/
theorem sameFlow_of_nodes {nodes : List (Node α)} (h : List.Forall₂ Node.Alike g.nodes nodes) :
    g.SameFlow { g with nodes := nodes } := ⟨h, fun _ => rfl⟩

/-- The ways of edges that resolve are the ways that lead to nodes. -/
theorem map_way_outgoing (g : Graph α) (id : String) :
    (g.index.outgoing id).map (·.way) =
      (g.ways id).filter fun way => g.hasNode id && g.hasNode way.1 := by
  rw [Index.outgoing_index, ways, List.filter_map, resolvedEdges, List.filter_filter,
    List.filter_filter]
  refine congrArg _ (List.filter_congr fun edge _ => ?_)
  rw [Bool.eq_iff_iff]
  simp only [resolves, Edge.way, Function.comp_apply, Bool.and_eq_true, beq_iff_eq]
  constructor
  · rintro ⟨rfl, hboth⟩
    exact ⟨hboth, rfl⟩
  · rintro ⟨hboth, rfl⟩
    exact ⟨rfl, hboth⟩

/-- The edges into an id are counted by the ways out of all ids. -/
theorem incomingCount_eq_countP (g : Graph α) (id : String) :
    g.index.incomingCount id = (g.edges.map fun edge => (edge.source, edge.way)).countP
      fun p => p.2.1 == id && (g.hasNode p.1 && g.hasNode p.2.1) := by
  rw [Index.incomingCount_index, resolvedEdges, List.countP_filter, List.countP_map]
  rfl

end Graph

/-! ## Look-up tables -/

/-- Look-up tables in which look-ups give what is alike. -/
structure Index.Alike (index index' : Index α) : Prop where
  nodes : List.Forall₂ Node.Alike index.nodes index'.nodes
  node? : ∀ id, Option.Rel Node.Alike (index.node? id) (index'.node? id)
  slot? : ∀ id, index.slot? id = index'.slot? id
  incomingCount : ∀ id, index.incomingCount id = index'.incomingCount id
  ways : ∀ id, (index.outgoing id).map (·.way) = (index'.outgoing id).map (·.way)

/-- What is the same for nodes that are alike is the same for the nodes of an id. -/
theorem Index.Alike.map_node? {index index' : Index α} (h : index.Alike index') {β : Type}
    {f : Node α → β} (hf : ∀ node node', node.Alike node' → f node = f node') (id : String) :
    (index.node? id).map f = (index'.node? id).map f := by
  have hnode := h.node? id
  generalize index.node? id = found at hnode
  generalize index'.node? id = found' at hnode
  cases hnode with
  | none => rfl
  | some halike => exact congrArg some (hf _ _ halike)

/-- Graphs with the same flow have tables that are alike. -/
theorem Graph.SameFlow.index {g g' : Graph α} (h : g.SameFlow g') : g.index.Alike g'.index where
  nodes := h.nodes
  node? id := by
    rw [Index.node?_index, Index.node?_index]
    exact rel_find?_of_forall₂ h.nodes fun _ _ halike => by rw [halike.id]
  slot? id := by
    have hslot : ∀ g : Graph α, g.index.slot? id = (g.nodes.map (·.id)).findIdx? (· == id) := by
      intro g
      rw [Index.slot?_index, List.findIdx?_map]
      rfl
    rw [hslot, hslot, h.map_id]
  incomingCount id := by
    rw [incomingCount_eq_countP, incomingCount_eq_countP, h.hasNode]
    exact (perm_of_filter_key_eq h.ways).countP_eq _
  ways id := by rw [map_way_outgoing, map_way_outgoing, h.ways, h.hasNode]

end StepGraph
