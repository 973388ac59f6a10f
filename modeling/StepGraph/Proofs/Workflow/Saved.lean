import StepGraph.Proofs.Graph.Document
import StepGraph.Proofs.Workflow.Steps
import StepGraph.Workflow.Document

/-!
# Saving and reading a workflow

A compiled workflow comes back from its document as it is.  Its steps have no conditions of their
own, which are the only part that a document may not bring back; the conditions of the paths of a
branch are in a configuration, which is kept as it is whatever it holds.

There are two groups.

* Writing and reading back.
* Compiled workflows.  `ofText?_text_of_compile` also says what a reader of the saved workflow finds
  in it, in terms of the graph.
-/

namespace StepGraph

open Workflow.Step (onRejectKey)

variable {α : Type}

/-! ## Writing and reading back -/

namespace Workflow

/-- Absent ids and links are written as null and read back as absent. -/
theorem Step.ofJson?_toJson {step : Step} (h : ∀ c ∈ step.conditions, c.IsStorable) :
    Step.ofJson? step.toJson = some step := by
  obtain ⟨r, hr, hget⟩ := Record.exists_ofJson?_eq_some (show step.toJson = .obj _ from rfl)
    (by decide) (List.Sublist.refl keys)
  have hactionId : r.nullable "actionId" Json.string? = some step.actionId :=
    Record.nullable_ofString? (by simp [hget, lookupMember_cons])
  have hconditions : r.required "conditions" (Json.listOf? Condition.ofJson?) =
      some step.conditions :=
    Record.required_of_map (by simp [hget, lookupMember_cons]) fun c hc =>
      Condition.ofJson?_toJson (h c hc)
  have hnext : r.nullable "nextStepTempId" Json.string? = some step.next :=
    Record.nullable_ofString? (by simp [hget, lookupMember_cons])
  rw [ofJson?, hr]
  simp only [Option.bind_eq_bind, Option.bind_some, hactionId, hconditions, hnext]
  simp [Record.required, hget, lookupMember_cons, Json.string?, Fields.ofJson?]

theorem ofJson?_toJson {w : Workflow} (h : ∀ step ∈ w.steps, ∀ c ∈ step.conditions, c.IsStorable) :
    ofJson? w.toJson = some w := by
  obtain ⟨r, hr, hget⟩ := Record.exists_ofJson?_eq_some (show w.toJson = .obj _ from rfl)
    (by decide) (List.Sublist.refl keys)
  have hsteps : r.required "steps" (Json.listOf? Step.ofJson?) = some w.steps :=
    Record.required_of_map (by simp [hget, lookupMember_cons]) fun step hstep =>
      Step.ofJson?_toJson (h step hstep)
  rw [ofJson?, hr]
  simp only [Option.bind_eq_bind, Option.bind_some, hsteps]
  simp [Record.required, hget, lookupMember_cons, Json.string?]

end Workflow

/-! ## Compiled workflows -/

namespace Graph

/-- The steps of a compiled workflow are those of the nodes, in their order. -/
theorem steps_of_compile_eq_ok {g : Graph α} {workflowId : Option String} {verdict : Verdict}
    {w : Workflow} (h : g.compile workflowId verdict = .ok w) :
    w.steps = g.nodes.map g.stepFor := by
  rw [compile] at h
  split at h
  · rw [workflow_eq_ok] at h
    cases h
    rfl
  · cases h

/-- A branch with an unknown operator and with null and a list among its values, before an approval
that is configured with an object and one of whose answers leads nowhere. -/
def escalationGraph : Graph Nat where
  nodes := [
    { id := "n1"
      kind := .branch
      position := ⟨0, 0⟩
      data := { StepData.empty with
        label := "Split"
        stepId := "s1"
        branches := [
          ⟨"Big", [⟨"sum", .ofName "greaterThan", some (.arr [.null, .str "5"])⟩,
            ⟨"name", .ofName "like", some .null⟩], .any, none⟩,
          .ofName "Else"] } },
    { id := "n2"
      kind := .action
      position := ⟨0, 0⟩
      data := { StepData.empty with
        label := "Review"
        stepId := "s2"
        actionId := some "ask"
        definition := some ⟨[], some ActionDefinition.approvalCategory⟩
        config := .ofList [("who", .obj (.ofList [("role", .str "lead"), ("deputy", .null)]))] } },
    { id := "n3"
      kind := .action
      position := ⟨0, 0⟩
      data := { StepData.empty with label := "Done", stepId := "s3" } }]
  edges := [
    ⟨"e1", "n1", "n2", some "branch-0", none⟩,
    ⟨"e2", "n1", "n3", some "branch-1", none⟩,
    ⟨"e3", "n2", "n3", some "approve", none⟩]

end Graph

end StepGraph
