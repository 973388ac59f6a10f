import StepGraph.Layout.Rows
import StepGraph.Proofs.Editing.Outcome
import StepGraph.Proofs.Graph.Alike
import StepGraph.Validation.Basic

/-!
# What a validation depends on

No rule looks at what an editor keeps for itself, and only the rule about edges without ends looks
at edges by themselves: graphs with the same flow have the same verdict where that rule is not in
force, and everywhere when they have the same edges.

There are four groups.

* Findings about nodes that are alike.
* Findings from tables that are alike, rule by rule.
* Verdicts: `SameFlow.findings_eq` and `SameFlow.validate_eq`.
* Edits that only place nodes keep the flow: `sameFlow_moveNode` and `sameFlow_arrange`.
-/

namespace StepGraph

open Validation

variable {α : Type}

/-! ## Findings about a node -/

namespace Node.Alike

variable {node node' : Node α} (h : node.Alike node')

include h

theorem conditionFindings_eq : conditionFindings node = conditionFindings node' := by
  have hcount : node.data.branches.countP (!·.hasConditions) =
      node'.data.branches.countP (!·.hasConditions) := by
    refine h.of_branches (·.countP (!·.hasConditions)) fun branches => ?_
    rw [List.countP_map]
    rfl
  rw [conditionFindings, conditionFindings, h.id, hcount]

theorem nodeFindings_eq : nodeFindings node = nodeFindings node' := by
  obtain ⟨-, -, -, hactionId, hdefinition, hconfig⟩ := h.parts
  have haction : actionFindings node = actionFindings node' := by
    rw [actionFindings, actionFindings, h.id, hactionId]
  have hinput : inputFindings node = inputFindings node' := by
    rw [inputFindings, inputFindings, h.id, hdefinition, hconfig]
  rw [nodeFindings, nodeFindings, h.kind, haction, hinput, h.conditionFindings_eq]

end Node.Alike

/-! ## Findings from tables -/

namespace Index.Alike

variable {index index' : Index α} (h : index.Alike index')

include h

theorem startCandidates :
    List.Forall₂ Node.Alike index.startCandidates index'.startCandidates := by
  refine List.rel_filter (fun node node' halike => ?_) h.nodes
  simp only [halike.id, h.incomingCount]

/-- What is the same for nodes that are alike is the same for the nodes where a run begins. -/
theorem map_startNode? {β : Type} {f : Node α → β}
    (hf : ∀ node node', node.Alike node' → f node = f node') :
    index.startNode?.map f = index'.startNode?.map f := by
  rw [Index.startNode?, Index.startNode?, ← List.head?_map, ← List.head?_map,
    map_eq_of_forall₂ h.startCandidates hf]

theorem length_outgoing (id : String) :
    (index.outgoing id).length = (index'.outgoing id).length := by
  simpa using congrArg List.length (h.ways id)

theorem way_edgeFromHandle? (id handle : String) :
    (index.edgeFromHandle? id handle).map (·.way) =
      (index'.edgeFromHandle? id handle).map (·.way) := by
  have hways : ∀ index : Index α, (index.edgeFromHandle? id handle).map (·.way) =
      ((index.outgoing id).map (·.way)).find? (·.2 == some handle) := by
    intro index
    rw [List.find?_map]
    rfl
  rw [hways, hways, h.ways]

theorem isNone_edgeFromHandle? (id handle : String) :
    (index.edgeFromHandle? id handle).isNone = (index'.edgeFromHandle? id handle).isNone := by
  simpa using congrArg Option.isNone (h.way_edgeFromHandle? id handle)

theorem successors_eq : successors index = successors index' := by
  funext id
  have htargets : ∀ index : Index α,
      successors index id = ((index.outgoing id).map (·.way)).map (·.1) := by
    intro index
    rw [List.map_map]
    rfl
  rw [htargets, htargets, h.ways]

theorem startFindings_eq : startFindings index = startFindings index' := by
  have hstarts := h.startCandidates
  unfold startFindings
  generalize index.startCandidates = starts at hstarts
  generalize index'.startCandidates = starts' at hstarts
  cases hstarts with
  | nil => rfl
  | cons halike hrest =>
    cases hrest with
    | nil => rfl
    | cons _ _ => simp only [halike.displayName]

theorem unconnectedPaths_eq {node node' : Node α} (halike : node.Alike node') :
    unconnectedPaths index node = unconnectedPaths index' node' := by
  simp only [unconnectedPaths, halike.id, h.isNone_edgeFromHandle?]
  refine halike.of_branches (fun branches => (branches.zipIdx.filter fun path =>
    (index'.edgeFromHandle? node'.id (Handle.branch path.2)).isNone).map (·.1.name))
    fun branches => ?_
  rw [List.zipIdx_map, List.filter_map, List.map_map]
  rfl

theorem coverageFindings_eq (coverage : Coverage) {node node' : Node α}
    (halike : node.Alike node') :
    coverageFindings coverage index node = coverageFindings coverage index' node' := by
  cases coverage with
  | count =>
    simp only [coverageFindings, halike.id, halike.length_branches, h.length_outgoing]
  | perHandle => simp only [coverageFindings, halike.id, h.unconnectedPaths_eq halike]

theorem configurationFindings_eq (coverage : Coverage) :
    configurationFindings coverage index = configurationFindings coverage index' := by
  rw [configurationFindings, configurationFindings, List.flatMap_def, List.flatMap_def]
  refine congrArg _ (map_eq_of_forall₂ h.nodes fun node node' halike => ?_)
  rw [halike.nodeFindings_eq, halike.isBranch, h.coverageFindings_eq coverage halike]

theorem disconnectedFindings_eq : disconnectedFindings index = disconnectedFindings index' := by
  have hstart := h.map_startNode? fun _ _ halike => halike.id
  simp only [disconnectedFindings, hstart, h.incomingCount]
  refine map_eq_of_forall₂ (List.rel_filter (fun node node' halike => ?_) h.nodes)
    fun node node' halike => by rw [halike.id]
  simp only [halike.id]

theorem cycleFindings_eq : cycleFindings index = cycleFindings index' := by
  have hids : index.nodes.map (·.id) = index'.nodes.map (·.id) :=
    map_eq_of_forall₂ h.nodes fun _ _ halike => halike.id
  have hname := h.map_node? fun _ _ halike => halike.displayName
  simp only [cycleFindings, h.successors_eq, hids, hname]

omit h in
theorem duplicateFindings_eq {nodes nodes' : List (Node α)}
    (hnodes : List.Forall₂ Node.Alike nodes nodes') (seen : List String) :
    duplicateFindings seen nodes = duplicateFindings seen nodes' := by
  induction hnodes generalizing seen with
  | nil => rfl
  | cons halike _ ih => simp only [duplicateFindings, halike.id, halike.stepId, ih]

end Index.Alike

/-! ## Verdicts -/

namespace Graph

variable {g g' : Graph α}

/-- The rules find the same in graphs with the same flow, where they look at no edge by itself or
the edges are the same. -/
theorem SameFlow.findings_eq (h : g.SameFlow g') (coverage : Coverage) {rule : Rule}
    (hedges : rule = .dangling → g.edges = g'.edges) :
    rule.findings coverage g.index = rule.findings coverage g'.index := by
  cases rule with
  | start => exact h.index.startFindings_eq
  | configuration => exact h.index.configurationFindings_eq coverage
  | disconnected => exact h.index.disconnectedFindings_eq
  | cycle => exact h.index.cycleFindings_eq
  | dangling =>
    have hfinding : danglingFinding g.index = danglingFinding g'.index := by
      funext edge
      simp only [danglingFinding, Index.contains_index, h.hasNode]
    have hresolves : g.resolves = g'.resolves := by
      funext edge
      simp only [resolves, h.hasNode]
    simp only [Rule.findings, danglingFindings, Index.dangling_index, hfinding, hresolves,
      hedges rfl]
  | duplicate => exact Index.Alike.duplicateFindings_eq h.nodes []

/-- Graphs with the same flow have the same verdict, where dangling edges are ignored or the edges
are the same. -/
theorem SameFlow.validate_eq (h : g.SameFlow g') {options : Options}
    (hedges : options.rejectDangling = true → g.edges = g'.edges) :
    g.validate options = g'.validate options := by
  have hreport : g.report options = g'.report options := by
    unfold report
    refine List.map_congr_left fun rule hrule => ?_
    rw [h.findings_eq options.coverage fun hdangling => hedges ?_]
    subst hdangling
    simpa [Options.rules] using hrule
  rw [validate, validate, findings, findings, h.isEmpty, hreport]

end Graph

/-! ## Edits that only place nodes -/

namespace Graph

variable [Coordinate α]

/-- A move gives a graph with the same flow. -/
theorem sameFlow_moveNode {g moved : Graph α} {id : String} {position : Point α}
    (h : g.moveNode id position = .ok moved) : g.SameFlow moved ∧ g.edges = moved.edges := by
  rw [moveNode, bind_eq_ok] at h
  obtain ⟨node, -, h⟩ := h
  cases h
  exact ⟨sameFlow_of_nodes (forall₂_updateFirst .refl (fun node _ => .move node _) g.nodes), rfl⟩

/-- Arranging gives a graph with the same flow. -/
theorem sameFlow_arrange (g : Graph α) : g.SameFlow g.arrange ∧ g.edges = g.arrange.edges := by
  refine ⟨sameFlow_of_nodes ?_, rfl⟩
  have hplaced : List.Forall₂ Node.Alike (g.nodes.zipIdx.map (·.1)) g.arrange.nodes := by
    rw [arrange, List.forall₂_map_left_iff, List.forall₂_map_right_iff, List.forall₂_same]
    exact fun (node, _) _ => .move node _
  rwa [List.zipIdx_map_fst] at hplaced

end Graph

end StepGraph
