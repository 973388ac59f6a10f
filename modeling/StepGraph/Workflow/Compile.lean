import StepGraph.Json.Printer
import StepGraph.Validation.Basic
import StepGraph.Workflow.Basic

/-!
# Compiling a graph

`Graph.compile` turns every node into a step, in the order of the nodes.  It asks for a verdict and
refuses a graph that is not valid; warnings never stand in its way.  `Graph.generate` validates
first, and also refuses a graph without nodes.

There are three groups.

* What stops a compilation.
* The steps.  Edges are followed by node id, and the links written are the stable identities of the
  nodes they lead to.
* Compilation.
-/

namespace StepGraph

variable {α : Type}

/-! ## What stops a compilation -/

/-- Why a graph is not compiled. -/
inductive CompileError where
  /-- There is no node. -/
  | emptyWorkflow
  /-- The verdict is not valid; these are its errors. -/
  | invalidWorkflow (errors : List Diagnostic)
  /-- The configuration of a step is no object. -/
  | configSerialization (stepId message : String)
deriving DecidableEq

/-- The text shown to users. -/
def CompileError.message : CompileError → String
  | .emptyWorkflow => "Workflow is empty. Add at least one step before saving"
  | .invalidWorkflow errors =>
    s!"Cannot generate workflow: fix validation errors ({errors.length} found)"
  | .configSerialization stepId message =>
    s!"Failed to build configuration for step '{stepId}': {message}"

/-! ## The steps -/

namespace Condition

/-- A condition as a free-form value. -/
def toValue (c : Condition) : Value :=
  .obj (.ofList ([("field", .str c.field), ("operator", .str c.operator.name)] ++
    match c.value with
    | some value => [("value", value)]
    | none => []))

end Condition

namespace Workflow.Step

/-- A path of a branch step as its configuration has it. -/
def pathValue (path : BranchPath) (target : Option String) : Value :=
  .obj (.ofList [("name", .str path.name), ("conditions", .arr (path.conditions.map (·.toValue))),
    ("conditionLogic", .str path.logic.text), (targetKey, .ofString? target),
    ("nextStepTempIdAfterBranch", .null)])

/-- The configuration of a branch step.  There is no default path. -/
def branchConfig (paths : List Value) : Value :=
  .obj (.ofList [(branchesKey, .arr paths), ("defaultTargetTempId", .null)])

/-- The fields of a configuration, which must be an object. -/
def configFields (stepId : String) (config : Value) : Except CompileError Fields :=
  match Fields.ofJson? config.json with
  | some fields => .ok fields
  | none => .error (.configSerialization stepId s!"expected an object, found {config.json.compact}")

/-- A step with nothing but what every step has: the name of the node, or else its label. -/
def shell (node : Node α) : Workflow.Step where
  stepId := node.data.stepId
  stepName := if node.data.stepName.isEmpty then node.data.label else node.data.stepName
  kind := node.kind
  actionId := none
  conditions := []
  logic := .all
  config := .empty
  next := none

end Workflow.Step

namespace Index

/-- The stable identity of the node that an edge leads to. -/
def targetStep? (index : Index α) (edge : Edge) : Option String :=
  (index.node? edge.target).map (·.data.stepId)

/-- The step that follows whatever the outcome: only the first edge out of a node counts. -/
def successor? (index : Index α) (node : Node α) : Option String :=
  (index.outgoing node.id).head?.bind index.targetStep?

/-- The step that a handle of a node leads to. -/
def handleTarget? (index : Index α) (node : Node α) (handle : String) : Option String :=
  (index.edgeFromHandle? node.id handle).bind index.targetStep?

/-- The paths of a branch node as its step has them. -/
def pathValues (index : Index α) (node : Node α) : List Value :=
  node.data.branches.zipIdx.map fun (path, i) =>
    Workflow.Step.pathValue path (index.handleTarget? node (Handle.branch i))

open Workflow.Step in
/-- The step of an action.  An approval step names its successors in its configuration, over
whatever the user put there. -/
def actionStep (index : Index α) (node : Node α) : Workflow.Step :=
  if node.isApproval then
    { shell node with
      actionId := node.data.actionId
      config := (node.data.config.insert onApproveKey
          (.ofString? (index.handleTarget? node Handle.approve))).insert onRejectKey
          (.ofString? (index.handleTarget? node Handle.reject)) }
  else
    { shell node with
      actionId := node.data.actionId
      config := node.data.config
      next := index.successor? node }

open Workflow.Step in
/-- The step of a node.  A branch step lists its paths in its configuration. -/
def stepOf (index : Index α) (node : Node α) : Except CompileError Workflow.Step :=
  match node.kind with
  | .branch => do
    let config ← configFields node.data.stepId (branchConfig (index.pathValues node))
    .ok { shell node with config := config }
  | .action => .ok (index.actionStep node)

end Index

/-! ## Compilation -/

namespace Graph

/-- The workflow of a graph, whatever its verdict. -/
def workflow (g : Graph α) (workflowId : Option String) : Except CompileError Workflow := do
  let index := g.index
  let steps ← g.nodes.mapM index.stepOf
  .ok {
    id := workflowId.getD Workflow.newId
    start := (index.startNode?.map (·.data.stepId)).getD ""
    steps := steps }

/-- Compiles a graph with the given verdict. -/
def compile (g : Graph α) (workflowId : Option String) (verdict : Verdict) :
    Except CompileError Workflow :=
  if verdict.isValid then g.workflow workflowId else .error (.invalidWorkflow verdict.errors)

/-- Validates a graph and compiles it. -/
def generate (g : Graph α) (workflowId : Option String) (options : Validation.Options) :
    Except CompileError Workflow :=
  if g.isEmpty then .error .emptyWorkflow
  else g.compile workflowId (g.validate { options with rejectEmpty := true })

end Graph

end StepGraph
