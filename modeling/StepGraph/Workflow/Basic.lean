import StepGraph.Graph.Node

/-!
# Workflows

A workflow is the linked list of steps that is handed on for execution.  Steps refer to each other
by their stable identities.  The paths of a branch step are in its configuration, and so are the two
successors of an approval step.
-/

namespace StepGraph

namespace Workflow

/-- One step of a workflow. -/
structure Step where
  stepId : String
  stepName : String
  kind : NodeKind
  actionId : Option String
  conditions : List Condition
  logic : ConditionLogic
  config : Fields
  /-- The step that follows, if there is one for every outcome. -/
  next : Option String
deriving DecidableEq

namespace Step

/-- Where the configuration of an approval step names the step after an approval. -/
def onApproveKey : String := "onApproveNextStepTempId"

/-- Where the configuration of an approval step names the step after a rejection. -/
def onRejectKey : String := "onRejectNextStepTempId"

/-- Where the configuration of a branch step lists its paths. -/
def branchesKey : String := "branches"

/-- Where a path of a branch step names the step it leads to. -/
def targetKey : String := "targetStepTempId"

/-- The step that the path at an index leads to. -/
def branchTarget? (step : Step) (index : Nat) : Option String := do
  let branches ← step.config.get? branchesKey
  let branch ← branches.json.item? index
  let target ← branch.member? targetKey
  target.string?

end Step

end Workflow

/-- A compiled workflow. -/
structure Workflow where
  id : String
  /-- The step a run begins at. -/
  start : String
  steps : List Workflow.Step
deriving DecidableEq

namespace Workflow

/-- The id of a workflow that has not been saved yet. -/
def newId : String := "new-workflow"

/-- The first step with an identity. -/
def step? (w : Workflow) (stepId : String) : Option Step := w.steps.find? (·.stepId == stepId)

end Workflow

end StepGraph
