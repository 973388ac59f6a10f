import StepGraph.Proofs.Layout.Rows
import StepGraph.Proofs.Validation.Alike
import StepGraph.Proofs.Workflow.Steps

/-!
# What results depend on

What an editor keeps for itself decides nothing: graphs with the same flow have the same verdict,
the same workflow and the same places, where dangling edges are ignored.  Two edits change nothing
but what an editor keeps for itself, so under no options do they change a verdict or a workflow.

There are two groups.

* Steps from tables that are alike, and the workflow.
* The result, `results_eq_of_sameFlow`.
-/

namespace StepGraph

open Validation (Options)

variable {α : Type}

/-! ## Steps -/

theorem Node.Alike.shell_eq {node node' : Node α} (h : node.Alike node') :
    Workflow.Step.shell node = Workflow.Step.shell node' := by
  obtain ⟨hlabel, hstepId, hname, -⟩ := h.parts
  simp only [Workflow.Step.shell, hlabel, hstepId, hname, h.kind]

namespace Index.Alike

variable {index index' : Index α} (h : index.Alike index') {node node' : Node α}
  (halike : node.Alike node')

include h

/-- Edges that lead the same way lead to the same step. -/
theorem bind_targetStep?_eq {edge? edge?' : Option Edge}
    (hways : edge?.map (·.way) = edge?'.map (·.way)) :
    edge?.bind index.targetStep? = edge?'.bind index'.targetStep? := by
  have hstep : ∀ (index : Index α) (edge? : Option Edge), edge?.bind index.targetStep? =
      (edge?.map (·.way)).bind fun way => (index.node? way.1).map (·.data.stepId) := by
    intro index edge?
    rw [Option.bind_map]
    rfl
  rw [hstep, hstep, hways]
  simp only [h.map_node? fun _ _ halike => halike.stepId]

include halike

theorem handleTarget?_eq (handle : String) :
    index.handleTarget? node handle = index'.handleTarget? node' handle := by
  rw [Index.handleTarget?, Index.handleTarget?, halike.id]
  exact h.bind_targetStep?_eq (h.way_edgeFromHandle? node'.id handle)

theorem successor?_eq : index.successor? node = index'.successor? node' := by
  rw [Index.successor?, Index.successor?, halike.id]
  refine h.bind_targetStep?_eq ?_
  rw [← List.head?_map, ← List.head?_map, h.ways]

theorem pathValues_eq : index.pathValues node = index'.pathValues node' := by
  have hbranches := halike.of_branches (fun branches => branches.zipIdx.map fun path =>
      Workflow.Step.pathValue path.1 (index'.handleTarget? node' (Handle.branch path.2)))
    fun branches => by
      rw [List.zipIdx_map, List.map_map]
      rfl
  simp only [Index.pathValues, h.handleTarget?_eq halike]
  exact hbranches

theorem actionStep_eq : index.actionStep node = index'.actionStep node' := by
  obtain ⟨-, -, -, hactionId, -, hconfig⟩ := halike.parts
  simp only [Index.actionStep, halike.isApproval, halike.shell_eq, hactionId, hconfig,
    h.handleTarget?_eq halike, h.successor?_eq halike]

end Index.Alike

namespace Graph

variable {g g' : Graph α}

theorem SameFlow.stepFor_eq (h : g.SameFlow g') {node node' : Node α} (halike : node.Alike node') :
    g.stepFor node = g'.stepFor node' := by
  simp only [stepFor, branchStep, halike.kind, halike.shell_eq, h.index.pathValues_eq halike,
    h.index.actionStep_eq halike]

/-- Graphs with the same flow have the same workflow. -/
theorem SameFlow.workflow_eq (h : g.SameFlow g') (workflowId : Option String) :
    g.workflow workflowId = g'.workflow workflowId := by
  have hstart := h.index.map_startNode? fun _ _ halike => halike.stepId
  have hsteps : g.nodes.map g.stepFor = g'.nodes.map g'.stepFor :=
    map_eq_of_forall₂ h.nodes fun _ _ halike => h.stepFor_eq halike
  rw [workflow_eq_ok, workflow_eq_ok, ← Index.startNode?_index, ← Index.startNode?_index, hstart,
    hsteps]

theorem SameFlow.generate_eq (h : g.SameFlow g') {options : Options}
    (hedges : options.rejectDangling = true → g.edges = g'.edges) (workflowId : Option String) :
    g.generate workflowId options = g'.generate workflowId options := by
  have hverdict : g.validate { options with rejectEmpty := true } =
      g'.validate { options with rejectEmpty := true } := h.validate_eq hedges
  rw [generate, generate, compile, compile, h.isEmpty, h.workflow_eq workflowId, hverdict]

/-! ## The result -/

variable [Coordinate α]

/-- Graphs with the same flow have the same verdict and the same workflow, where dangling edges are
ignored, and they are arranged in the same way.  A move and an arrangement change no verdict and no
workflow. -/
theorem results_eq_of_sameFlow (g : Graph α) :
    (∀ g', g.SameFlow g' → ∀ options : Options, options.rejectDangling = false →
      g.validate options = g'.validate options ∧
        (∀ workflowId, g.generate workflowId options = g'.generate workflowId options) ∧
        g.arrange.positions = g'.arrange.positions) ∧
      (∀ options : Options, g.arrange.validate options = g.validate options ∧
        ∀ workflowId, g.arrange.generate workflowId options = g.generate workflowId options) ∧
      ∀ id position moved, g.moveNode id position = .ok moved →
        ∀ options : Options, moved.validate options = g.validate options ∧
          ∀ workflowId, moved.generate workflowId options = g.generate workflowId options := by
  refine ⟨fun g' h options hignored => ?_, fun options => ?_,
    fun id position moved hmoved options => ?_⟩
  · have hedges : options.rejectDangling = true → g.edges = g'.edges := by simp [hignored]
    exact ⟨h.validate_eq hedges, h.generate_eq hedges, h.positions_arrange_eq⟩
  · obtain ⟨h, hedges⟩ := g.sameFlow_arrange
    exact ⟨(h.validate_eq fun _ => hedges).symm, fun workflowId =>
      (h.generate_eq (fun _ => hedges) workflowId).symm⟩
  · obtain ⟨h, hedges⟩ := sameFlow_moveNode hmoved
    exact ⟨(h.validate_eq fun _ => hedges).symm, fun workflowId =>
      (h.generate_eq (fun _ => hedges) workflowId).symm⟩

/-- A branch with two more below it, and edges between them. -/
def forkGraph (first : Node Rat) (edges : List Edge) : Graph Rat where
  nodes := [first, .fresh "n2" "s2" .branch ⟨0, 0⟩, .fresh "n3" "s3" .branch ⟨0, 0⟩]
  edges := edges

/-- The graph as an editor makes it. -/
def plainFork : Graph Rat :=
  forkGraph (.fresh "n1" "s1" .branch ⟨0, 0⟩) [
    ⟨"e1", "n1", "n2", some "branch-0", none⟩,
    ⟨"e2", "n2", "n3", none, none⟩,
    ⟨"e3", "n1", "n3", some "branch-1", none⟩]

/-- The graph with further keys, an old note, other ids of edges, and the edges mixed. -/
def mixedFork : Graph Rat :=
  forkGraph
    { id := "n1"
      kind := .branch
      position := ⟨60, 0⟩
      data := { StepData.empty with
        label := "Condition"
        stepId := "s1"
        branches := [⟨"Path 1", [], .all, some "s9"⟩, .ofName "Path 2"]
        extra := .ofList [("color", .str "red")] } } [
    ⟨"x2", "n2", "n3", none, some "top"⟩,
    ⟨"x1", "n1", "n2", some "branch-0", none⟩,
    ⟨"x3", "n1", "n3", some "branch-1", none⟩]

/-- What is different decides nothing. -/
theorem results_eq_plainFork :
    plainFork.validate .live = mixedFork.validate .live ∧
      plainFork.generate none .live = mixedFork.generate none .live ∧
      plainFork.arrange.positions = mixedFork.arrange.positions ∧
      ∃ moved, plainFork.moveNode "n1" ⟨60, 0⟩ = .ok moved ∧
        moved.validate .strict = plainFork.validate .strict := by
  have hflow : plainFork.SameFlow mixedFork := by
    refine ⟨.cons ⟨rfl, rfl, rfl⟩ (.cons (.refl _) (.cons (.refl _) .nil)), fun id => ?_⟩
    rcases eq_or_ne "n1" id with rfl | h1
    · decide
    · rcases eq_or_ne "n2" id with rfl | h2
      · decide
      · simp [ways, plainFork, mixedFork, forkGraph, h1, h2]
  obtain ⟨hresults, -, hmove⟩ := plainFork.results_eq_of_sameFlow
  obtain ⟨hverdict, hworkflow, hplaces⟩ := hresults mixedFork hflow .live rfl
  exact ⟨hverdict, hworkflow none, hplaces, _, rfl, (hmove "n1" ⟨60, 0⟩ _ rfl .strict).1⟩

end Graph

end StepGraph
