import Mathlib.Data.List.Forall2
import StepGraph.Graph.Document
import StepGraph.Proofs.Graph.Link
import StepGraph.Proofs.Validation.Validity

/-!
# What a compilation gives

A compilation asks look-up tables for every link.  `Graph.IsStepOf` says what the step of a node
holds by search in the lists of the graph alone, with the documents of branch paths written out, and
`compile_eq_ok` says that the compilation of a valid graph gives these steps, in the order of the
nodes.

There are four groups.

* Documents.  What the values written into the configuration of a branch step look like.
* The step of a branch node.  Its configuration is always an object, so a compilation never stops
  there.
* The step of an action node.
* Compilation.
-/

namespace StepGraph

open Workflow.Step

variable {α : Type}

/-! ## Documents -/

/-- A condition is written into a workflow as it is written into a graph. -/
theorem Condition.json_toValue (c : Condition) : c.toValue.json = c.toJson := by
  unfold Condition.toValue Condition.toJson
  cases c.value with
  | none =>
    simp only [Value.obj, Fields.jsonMembers, Fields.ofList, sortMembers, insertMember,
      List.append_nil, List.foldl_cons, List.foldl_nil, List.map_cons, List.map_nil,
      String.reduceLT, String.reduceEq, if_false, presentMember, Value.str]
  | some value =>
    simp only [Value.obj, Fields.jsonMembers, Fields.ofList, sortMembers, insertMember,
      List.cons_append, List.nil_append, List.foldl_cons, List.foldl_nil, List.map_cons,
      List.map_nil, String.reduceLT, String.reduceEq, if_false, presentMember, Value.str]

/-- The document of a branch path in a workflow: nothing follows it by itself. -/
def Workflow.Step.pathDocument (path : BranchPath) (target : Option String) : Json :=
  .obj [("conditionLogic", .str path.logic.text),
    ("conditions", .arr (path.conditions.map Condition.toJson)), ("name", .str path.name),
    ("nextStepTempIdAfterBranch", .null), ("targetStepTempId", .ofString? target)]

theorem json_pathValue (path : BranchPath) (target : Option String) :
    (pathValue path target).json = pathDocument path target := by
  have hconditions : path.conditions.map (fun c => c.toValue.json) =
      path.conditions.map Condition.toJson :=
    List.map_congr_left fun c _ => c.json_toValue
  unfold pathValue pathDocument
  rw [← hconditions, ← Value.json_ofString?]
  simp only [Value.obj, Fields.jsonMembers, Fields.ofList, sortMembers, insertMember, targetKey,
    List.foldl_cons, List.foldl_nil, List.map_cons, List.map_nil, List.map_map, Function.comp_def,
    String.reduceLT, String.reduceEq, if_true, if_false, Value.str, Value.arr, Value.null]

/-! ## Branch nodes -/

/-- The configuration of a branch step. -/
def Workflow.Step.branchFields (paths : List Value) : Fields :=
  .ofList [(branchesKey, .arr paths), ("defaultTargetTempId", .null)]

/-- The configuration of a branch step is an object. -/
theorem configFields_branchConfig (stepId : String) (paths : List Value) :
    configFields stepId (branchConfig paths) = .ok (branchFields paths) := by
  unfold configFields branchConfig branchFields
  rw [Fields.ofJson?_obj]

theorem jsonMembers_branchFields (paths : List Value) :
    (branchFields paths).jsonMembers =
      [("branches", .arr (paths.map (·.json))), ("defaultTargetTempId", .null)] := by
  unfold branchFields
  simp only [Fields.jsonMembers, Fields.ofList, sortMembers, insertMember, branchesKey,
    List.foldl_cons, List.foldl_nil, List.map_cons, List.map_nil, String.reduceLT, String.reduceEq,
    if_false, Value.arr, Value.null]

/-- The reader of a branch step finds the target of the path at an index. -/
theorem branchTarget?_branchFields {step : Workflow.Step} {paths : List Value}
    (h : step.config = branchFields paths) (i : Nat) :
    step.branchTarget? i =
      ((paths[i]?.map (·.json)).bind (·.member? targetKey)).bind Json.string? := by
  have hbranches : step.config.get? branchesKey = some (.arr paths) := by
    simp [h, branchFields, branchesKey, List.lookup_cons]
  unfold branchTarget?
  simp [hbranches, Option.bind_assoc]

theorem member?_pathValue (path : BranchPath) (target : Option String) :
    (pathValue path target).json.member? targetKey = some (.ofString? target) := by
  simp [pathValue, targetKey, List.lookup_cons]

theorem getElem?_pathValues (g : Graph α) (node : Node α) (i : Nat) :
    (g.index.pathValues node)[i]? = node.data.branches[i]?.map fun path =>
      pathValue path (g.linkThrough? node.id (Handle.branch i)) := by
  simp [Index.pathValues, Index.handleTarget?_index, Function.comp_def]

/-! ## The step of a node -/

namespace Graph

/-- The documents of the paths of a node, each with the step that its handle leads to. -/
def pathDocuments (g : Graph α) (node : Node α) : List Json :=
  node.data.branches.mapIdx fun i path =>
    pathDocument path (g.linkThrough? node.id (Handle.branch i))

/-- What the step of a node holds, by search in the lists of the graph. -/
structure IsStepOf (g : Graph α) (node : Node α) (step : Workflow.Step) : Prop where
  stepId : step.stepId = node.data.stepId
  stepName : step.stepName =
    if node.data.stepName = "" then node.data.label else node.data.stepName
  kind : step.kind = node.kind
  conditions : step.conditions = []
  logic : step.logic = .all
  linear : node.isAction = true → node.isApproval = false →
    step.actionId = node.data.actionId ∧ step.config = node.data.config ∧
      step.next = g.firstLink? node.id fun _ => true
  /-- Its two keys are overwritten, and no other key is touched. -/
  approval : node.isApproval = true →
    step.actionId = node.data.actionId ∧ step.next = none ∧
      step.config.get? onApproveKey =
        some (.ofString? (g.linkThrough? node.id Handle.approve)) ∧
      step.config.get? onRejectKey =
        some (.ofString? (g.linkThrough? node.id Handle.reject)) ∧
      ∀ key, key ≠ onApproveKey → key ≠ onRejectKey →
        step.config.get? key = node.data.config.get? key
  branch : node.isBranch = true →
    step.actionId = none ∧ step.next = none ∧
      step.config.jsonMembers =
        [("branches", .arr (g.pathDocuments node)), ("defaultTargetTempId", .null)] ∧
      ∀ i, step.branchTarget? i =
        if i < node.data.branches.length then g.linkThrough? node.id (Handle.branch i) else none

theorem map_json_pathValues (g : Graph α) (node : Node α) :
    (g.index.pathValues node).map (·.json) = g.pathDocuments node := by
  unfold Index.pathValues pathDocuments
  rw [List.mapIdx_eq_zipIdx_map, List.map_map]
  refine List.map_congr_left fun m _ => ?_
  simp only [Function.comp_apply]
  rw [json_pathValue, Index.handleTarget?_index]

/-- The step of a branch node. -/
def branchStep (g : Graph α) (node : Node α) : Workflow.Step :=
  { shell node with config := branchFields (g.index.pathValues node) }

theorem stepOf_branch {g : Graph α} {node : Node α} (h : node.kind = .branch) :
    g.index.stepOf node = .ok (g.branchStep node) := by
  unfold Index.stepOf
  rw [h]
  show (configFields _ _ >>= fun config => Except.ok { shell node with config := config }) = _
  rw [configFields_branchConfig]
  rfl

theorem stepOf_action {g : Graph α} {node : Node α} (h : node.kind = .action) :
    g.index.stepOf node = .ok (g.index.actionStep node) := by
  unfold Index.stepOf
  rw [h]

theorem branchTarget?_branchStep (g : Graph α) (node : Node α) (i : Nat) :
    (g.branchStep node).branchTarget? i =
      if i < node.data.branches.length then g.linkThrough? node.id (Handle.branch i)
      else none := by
  rw [branchTarget?_branchFields rfl, getElem?_pathValues]
  split
  · rename_i hlt
    rw [List.getElem?_eq_getElem hlt]
    simp [member?_pathValue]
  · rename_i hge
    rw [List.getElem?_eq_none (Nat.le_of_not_lt hge)]
    rfl

theorem isStepOf_branchStep {g : Graph α} {node : Node α} (h : node.kind = .branch) :
    g.IsStepOf node (g.branchStep node) where
  stepId := rfl
  stepName := by simp [branchStep, shell]
  kind := rfl
  conditions := rfl
  logic := rfl
  linear haction := by simp [Node.isAction, h] at haction
  approval happroval := by simp [Node.isApproval, Node.isAction, h] at happroval
  branch _ := by
    refine ⟨rfl, rfl, ?_, g.branchTarget?_branchStep node⟩
    show (branchFields (g.index.pathValues node)).jsonMembers = _
    rw [jsonMembers_branchFields, map_json_pathValues]

theorem isStepOf_actionStep {g : Graph α} {node : Node α} (h : node.kind = .action) :
    g.IsStepOf node (g.index.actionStep node) := by
  unfold Index.actionStep
  split
  · rename_i happroval
    exact {
      stepId := rfl
      stepName := by simp [shell]
      kind := rfl
      conditions := rfl
      logic := rfl
      linear := fun _ hlinear => by simp [happroval] at hlinear
      approval := fun _ => by
        refine ⟨rfl, rfl, ?_, ?_, fun key happrove hreject => ?_⟩
        · simp [Index.handleTarget?_index, onApproveKey, onRejectKey]
        · simp [Index.handleTarget?_index]
        · simp [Ne.symm happrove, Ne.symm hreject]
      branch := fun hbranch => by simp [Node.isBranch, h] at hbranch }
  · rename_i hlinear
    exact {
      stepId := rfl
      stepName := by simp [shell]
      kind := rfl
      conditions := rfl
      logic := rfl
      linear := fun _ _ => ⟨rfl, rfl, Index.successor?_index g node⟩
      approval := fun happroval => absurd happroval hlinear
      branch := fun hbranch => by simp [Node.isBranch, h] at hbranch }

/-- The step of a node. -/
def stepFor (g : Graph α) (node : Node α) : Workflow.Step :=
  match node.kind with
  | .branch => g.branchStep node
  | .action => g.index.actionStep node

/-- Every node has a step. -/
theorem stepOf_eq_ok (g : Graph α) (node : Node α) :
    g.index.stepOf node = .ok (g.stepFor node) := by
  rw [stepFor]
  cases hkind : node.kind with
  | branch => exact stepOf_branch hkind
  | action => exact stepOf_action hkind

theorem isStepOf_stepFor (g : Graph α) (node : Node α) : g.IsStepOf node (g.stepFor node) := by
  rw [stepFor]
  cases hkind : node.kind with
  | branch => exact isStepOf_branchStep hkind
  | action => exact isStepOf_actionStep hkind

/-- The steps of all nodes, in their order. -/
theorem forall₂_isStepOf_stepFor (g : Graph α) :
    List.Forall₂ g.IsStepOf g.nodes (g.nodes.map g.stepFor) := by
  rw [List.forall₂_map_right_iff, List.forall₂_same]
  exact fun node _ => g.isStepOf_stepFor node

/-- The step of a node depends on where its handles lead, and on where its first edge leads if it
is an action that asks for no approval. -/
theorem stepFor_congr_links {g g' : Graph α} {node : Node α}
    (hhandles : ∀ handle, g'.linkThrough? node.id handle = g.linkThrough? node.id handle)
    (hfirst : node.kind = .action → node.isApproval = false →
      g'.firstLink? node.id (fun _ => true) = g.firstLink? node.id fun _ => true) :
    g'.stepFor node = g.stepFor node := by
  rw [stepFor, stepFor]
  cases hkind : node.kind with
  | branch =>
    simp only [branchStep, Index.pathValues, Index.handleTarget?_index, hhandles]
  | action =>
    simp only [Index.actionStep, Index.handleTarget?_index, Index.successor?_index, hhandles]
    cases happroval : node.isApproval with
    | true => rfl
    | false => rw [hfirst hkind happroval]

/-! ## Compilation -/

/-- Every list of nodes has its steps. -/
theorem mapM_stepOf_eq_ok (g : Graph α) (nodes : List (Node α)) :
    nodes.mapM g.index.stepOf = .ok (nodes.map g.stepFor) := by
  induction nodes with
  | nil => rfl
  | cons node rest ih =>
    rw [List.mapM_cons, stepOf_eq_ok, ih]
    rfl

/-- Every graph has its workflow. -/
theorem workflow_eq_ok (g : Graph α) (workflowId : Option String) :
    g.workflow workflowId = .ok {
      id := workflowId.getD Workflow.newId
      start := (g.firstStart?.map (·.data.stepId)).getD ""
      steps := g.nodes.map g.stepFor } := by
  unfold workflow
  show (g.nodes.mapM g.index.stepOf >>= _) = _
  rw [mapM_stepOf_eq_ok, ← Index.startNode?_index]
  rfl

theorem exists_workflow_eq_ok (g : Graph α) (workflowId : Option String) :
    ∃ w, g.workflow workflowId = .ok w ∧
      w.id = workflowId.getD Workflow.newId ∧
      w.start = (g.firstStart?.map (·.data.stepId)).getD "" ∧
      List.Forall₂ g.IsStepOf g.nodes w.steps :=
  ⟨_, g.workflow_eq_ok workflowId, rfl, rfl, g.forall₂_isStepOf_stepFor⟩

theorem compile_of_isValid (g : Graph α) (workflowId : Option String) {verdict : Verdict}
    (hvalid : verdict.isValid = true) : g.compile workflowId verdict = g.workflow workflowId := by
  rw [compile, if_pos hvalid]

/-- A graph with nodes is generated by validating and compiling it. -/
theorem generate_of_ne_nil {g : Graph α} (hnodes : g.nodes ≠ []) (workflowId : Option String)
    (options : Validation.Options) :
    g.generate workflowId options = g.compile workflowId (g.validate options) := by
  rw [generate, if_neg (mt isEmpty_eq_true_iff.1 hnodes), validate_rejectEmpty hnodes]

/-- A workflow is generated exactly from a graph with nodes that is valid. -/
theorem generate_eq_ok_iff {g : Graph α} {workflowId : Option String}
    {options : Validation.Options} {w : Workflow} :
    g.generate workflowId options = .ok w ↔
      g.nodes ≠ [] ∧ (g.validate options).isValid = true ∧ g.workflow workflowId = .ok w := by
  by_cases hnodes : g.nodes = []
  · rw [generate, if_pos (isEmpty_eq_true_iff.2 hnodes)]
    simp [hnodes]
  · rw [generate_of_ne_nil hnodes, compile]
    cases (g.validate options).isValid <;> simp [hnodes]

/-- Compiling a graph with a valid verdict gives one step for each node, in the order of the nodes,
and starts at the first node into which no edge leads. -/
theorem compile_eq_ok (g : Graph α) (workflowId : Option String) (verdict : Verdict)
    (hvalid : verdict.isValid = true) :
    ∃ w, g.compile workflowId verdict = .ok w ∧
      w.id = workflowId.getD Workflow.newId ∧
      w.start = (g.firstStart?.map (·.data.stepId)).getD "" ∧
      List.Forall₂ g.IsStepOf g.nodes w.steps := by
  rw [g.compile_of_isValid workflowId hvalid]
  exact g.exists_workflow_eq_ok workflowId

/-- A branch before an approval that already names its successors.  The first edge of the branch
leads to no node, and of the two edges out of the last step one leads back to it. -/
def reviewGraph : Graph Nat where
  nodes := [
    { id := "n1"
      kind := .branch
      position := ⟨0, 0⟩
      data := { StepData.empty with
        label := "Split", stepId := "s1", branches := [.ofName "Path 1", .ofName "Path 2"] } },
    { id := "n2"
      kind := .action
      position := ⟨0, 0⟩
      data := { StepData.empty with
        label := "Review"
        stepId := "s2"
        definition := some ⟨[], some ActionDefinition.approvalCategory⟩
        config := .ofList [(onApproveKey, .str "s9"), ("user", .str "u1")] } },
    { id := "n3"
      kind := .action
      position := ⟨0, 0⟩
      data := { StepData.empty with label := "Done", stepId := "s3", stepName := "Finish" } }]
  edges := [
    ⟨"e1", "n1", "n9", some "branch-0", none⟩,
    ⟨"e2", "n1", "n2", some "branch-0", none⟩,
    ⟨"e3", "n2", "n3", some "approve", none⟩,
    ⟨"e4", "n3", "n8", none, none⟩,
    ⟨"e5", "n3", "n2", some "again", none⟩]

theorem compile_reviewGraph :
    ∃ w split review done, reviewGraph.compile none ⟨true, [], []⟩ = .ok w ∧ w.start = "s1" ∧
      w.steps = [split, review, done] ∧
      split.branchTarget? 0 = some "s2" ∧ split.branchTarget? 1 = none ∧
      review.next = none ∧ review.config.get? onApproveKey = some (.str "s3") ∧
      review.config.get? onRejectKey = some .null ∧
      review.config.get? "user" = some (.str "u1") ∧
      done.stepName = "Finish" ∧ done.next = some "s2" := by
  obtain ⟨w, hw, -, hstart, hsteps⟩ := reviewGraph.compile_eq_ok none ⟨true, [], []⟩ rfl
  obtain ⟨id, start, steps⟩ := w
  obtain _ | ⟨hsplit, _ | ⟨hreview, _ | ⟨hdone, _ | _⟩⟩⟩ := hsteps
  obtain ⟨-, -, -, hsplit⟩ := hsplit.branch rfl
  obtain ⟨-, hnext, happrove, hreject, huser⟩ := hreview.approval rfl
  refine ⟨_, _, _, _, hw, hstart, rfl, ?_, ?_, hnext, ?_, ?_, ?_, ?_, ?_⟩
  · rw [hsplit]
    decide
  · rw [hsplit]
    decide
  · rw [happrove]
    decide
  · rw [hreject]
    decide
  · rw [huser "user" (by decide) (by decide)]
    simp [onApproveKey]
  · rw [hdone.stepName]
    decide
  · rw [(hdone.linear rfl rfl).2.2]
    decide

end Graph

end StepGraph
