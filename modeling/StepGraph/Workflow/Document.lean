import StepGraph.Graph.Document
import StepGraph.Workflow.Basic

/-!
# Documents of workflows

The document of a step names all its parts, also those that are absent.  `Workflow.text` writes a
workflow and `Workflow.ofText?` reads one.
-/

namespace StepGraph

namespace Workflow

namespace Step

/-- The fields of a step's document. -/
def keys : List String :=
  ["tempId", "stepName", "type", "actionId", "conditions", "conditionLogic", "config",
    "nextStepTempId"]

/-- The document of a step. -/
def toJson (step : Step) : Json :=
  .obj [("tempId", .str step.stepId), ("stepName", .str step.stepName),
    ("type", .str step.kind.text), ("actionId", .ofString? step.actionId),
    ("conditions", .arr (step.conditions.map Condition.toJson)),
    ("conditionLogic", .str step.logic.text), ("config", .obj step.config.jsonMembers),
    ("nextStepTempId", .ofString? step.next)]

/-- Reads a step. -/
def ofJson? (j : Json) : Option Step := do
  let r ← Record.ofJson? keys j
  some {
    stepId := ← r.required "tempId" Json.string?
    stepName := ← r.required "stepName" Json.string?
    kind := ← r.required "type" NodeKind.ofJson?
    actionId := ← r.nullable "actionId" Json.string?
    conditions := ← r.required "conditions" (Json.listOf? Condition.ofJson?)
    logic := ← r.required "conditionLogic" ConditionLogic.ofJson?
    config := ← r.required "config" Fields.ofJson?
    next := ← r.nullable "nextStepTempId" Json.string? }

end Step

/-- The fields of a workflow's document. -/
def keys : List String := ["workflowId", "startStepTempId", "steps"]

/-- The document of a workflow. -/
def toJson (w : Workflow) : Json :=
  .obj [("workflowId", .str w.id), ("startStepTempId", .str w.start),
    ("steps", .arr (w.steps.map Step.toJson))]

/-- Reads a workflow. -/
def ofJson? (j : Json) : Option Workflow := do
  let r ← Record.ofJson? keys j
  some {
    id := ← r.required "workflowId" Json.string?
    start := ← r.required "startStepTempId" Json.string?
    steps := ← r.required "steps" (Json.listOf? Step.ofJson?) }

/-- The text of a workflow. -/
def text (w : Workflow) : String := w.toJson.pretty

/-- Reads the text of a workflow. -/
def ofText? (text : String) : Option Workflow := (Json.read? text).bind ofJson?

end Workflow

end StepGraph
