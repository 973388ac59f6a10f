import StepGraph.Proofs.Editing.Conditions
import StepGraph.Proofs.Graph.Document
import StepGraph.Proofs.Workflow.Steps

/-!
# Values that no operator takes

The two tests for emptiness compare with nothing, and `Condition.make` gives them no value.  A
document is read as it stands, so a value that it puts beside such a test stays in the graph through
every edit and comes out in the configuration of the compiled step.

There are three groups.

* Documents.  `Condition.givesIdleValue` is about a document that is read and
  `Condition.writesIdleValue` about one that is written; both agree with `Condition.hasIdleValue`.
* Compiled steps.  `Graph.IsStepOf.conditionDocuments_eq` says which conditions a step holds.
* Sessions.  `Graph.exists_hasIdleValue_run_iff` is the exact condition on the text, and
  `Graph.hasIdleValue_blankText` is a text that meets it.
-/

namespace StepGraph

variable {α : Type}

/-! ## Documents -/

/-- The operators that take no value. -/
def Operator.emptinessNames : List String := ["isEmpty", "isNotEmpty"]

theorem Operator.takesValue_ofName (name : String) :
    (ofName name).takesValue = !emptinessNames.contains name := by
  show (currentName name != "isEmpty" && currentName name != "isNotEmpty") = _
  rw [currentName.eq_def, Bool.eq_iff_iff]
  split <;> simp [emptinessNames]

/-- An operator is read from its name, however the name is written. -/
theorem Operator.exists_choice?_of_ofJson? {j : Json} {operator : Operator}
    (h : ofJson? j = some operator) : ∃ name, j.choice? = some name ∧ operator = ofName name := by
  unfold ofJson? at h
  split at h
  · rename_i name
    exact ⟨name, rfl, (Option.some.inj h).symm⟩
  · obtain ⟨name, hname, hoperator⟩ := Option.map_eq_some_iff.1 (Option.filter_eq_some_iff.1 h).1
    exact ⟨name, hname, hoperator.symm⟩

namespace Condition

/-- Whether a condition has a value that its operator does not take. -/
def hasIdleValue (c : Condition) : Bool := !c.operator.takesValue && c.value.isSome

/-- A condition made by an editor has no such value. -/
theorem hasIdleValue_make (field : String) (operator : Operator) (value : Option Value) :
    (make field operator value).hasIdleValue = false := by
  cases h : operator.takesValue <;> simp [hasIdleValue, make, h]

/-- Whether the document of a condition gives a value beside a test for emptiness. -/
def givesIdleValue (j : Json) : Bool :=
  ((j.part? keys "operator").bind Json.choice?).any Operator.emptinessNames.contains &&
    (j.part? keys "value").any (· != .null)

/-- A condition is read with such a value when its document gives one. -/
theorem hasIdleValue_of_ofJson? {j : Json} {c : Condition} (h : ofJson? j = some c) :
    c.hasIdleValue = givesIdleValue j := by
  simp only [ofJson?, Option.bind_eq_bind, Option.bind_eq_some_iff] at h
  obtain ⟨r, hr, field, _, operator, hoperator, value, hvalue, hc⟩ := h
  cases hc
  rw [hasIdleValue, givesIdleValue, Json.part?_eq_get? hr, Json.part?_eq_get? hr]
  obtain ⟨given, hgiven, hread⟩ := Option.bind_eq_some_iff.1 hoperator
  obtain ⟨name, hname, rfl⟩ := Operator.exists_choice?_of_ofJson? hread
  have hvalue : value.isSome = (r.get? "value").any (· != .null) := by
    rcases Record.optional_cases hvalue with ⟨rfl, hget | hget⟩ | ⟨given, v, hget, hnull, -, rfl⟩
    · simp [hget]
    · simp [hget]
    · simp [hget, hnull]
  simp [hgiven, hname, hvalue, Operator.takesValue_ofName]

/-- Whether a document that is written has a value beside a test for emptiness. -/
def writesIdleValue (j : Json) : Bool :=
  ((j.member? "operator").bind Json.string?).any Operator.emptinessNames.contains &&
    (j.member? "value").isSome

open Operator in
theorem writesIdleValue_toJson (c : Condition) : writesIdleValue c.toJson = c.hasIdleValue := by
  have hoperator : emptinessNames.contains c.operator.name = !c.operator.takesValue := by
    rw [← congrArg takesValue c.operator.ofName_name, takesValue_ofName, Bool.not_not]
  unfold writesIdleValue hasIdleValue
  rw [← hoperator]
  simp [toJson, Json.member?, lookupMember_cons, lookupMember_presentMember, Json.string?]

end Condition

/-! ## Compiled steps -/

/-- The items that an object lists under a key. -/
def Json.itemsUnder (key : String) (j : Json) : List Json :=
  match j.member? key with
  | some (.arr items) => items
  | _ => []

namespace Workflow

/-- The documents of the conditions that a step holds: its own, and those of its paths. -/
def Step.conditionDocuments (step : Step) : List Json :=
  step.conditions.map Condition.toJson ++
    match step.kind with
    | .branch =>
      ((Json.obj step.config.jsonMembers).itemsUnder branchesKey).flatMap
        (·.itemsUnder "conditions")
    | .action => []

/-- Whether some condition of a workflow has a value that its operator does not take. -/
def HasIdleValue (w : Workflow) : Prop :=
  ∃ step ∈ w.steps, ∃ j ∈ step.conditionDocuments, Condition.writesIdleValue j = true

end Workflow

open Workflow.Step

namespace Graph

/-- The paths of a node are listed with their conditions. -/
theorem flatMap_pathDocuments (g : Graph α) (node : Node α) :
    (g.pathDocuments node).flatMap (·.itemsUnder "conditions") =
      node.conditions.map Condition.toJson := by
  unfold pathDocuments Node.conditions
  rw [List.mapIdx_eq_zipIdx_map, List.flatMap_map, List.map_flatMap]
  conv_rhs => rw [← List.zipIdx_map_fst 0 node.data.branches, List.flatMap_map]
  rfl

/-- The step of a branch node holds the conditions of the node, and no other step holds any. -/
theorem IsStepOf.conditionDocuments_eq {g : Graph α} {node : Node α} {step : Workflow.Step}
    (h : g.IsStepOf node step) :
    step.conditionDocuments =
      match node.kind with
      | .branch => node.conditions.map Condition.toJson
      | .action => [] := by
  unfold conditionDocuments
  rw [h.conditions, h.kind, List.map_nil, List.nil_append]
  cases hkind : node.kind with
  | action => rfl
  | branch =>
    obtain ⟨-, -, hconfig, -⟩ := h.branch (by simp [Node.isBranch, hkind])
    rw [hconfig]
    exact g.flatMap_pathDocuments node

/-- Some condition of a path has a value that its operator does not take. -/
def HasIdleValue (g : Graph α) : Prop := ∃ c ∈ g.conditions, c.hasIdleValue = true

/-- A workflow has such a condition when a branch node has one. -/
theorem hasIdleValue_workflow_iff {g : Graph α} {w : Workflow}
    (h : List.Forall₂ g.IsStepOf g.nodes w.steps) :
    w.HasIdleValue ↔
      ∃ node ∈ g.nodes, node.kind = .branch ∧ ∃ c ∈ node.conditions, c.hasIdleValue = true := by
  refine (exists_mem_iff_of_forall₂ h fun node step hstep => ?_).symm
  rw [hstep.conditionDocuments_eq]
  cases node.kind with
  | action => simp
  | branch => simp [Condition.writesIdleValue_toJson]

/-! ## Sessions -/

section Sessions

variable {text : String} {g : Graph Float}

/-- A graph that is read has a value beside a test for emptiness when its document gives one. -/
theorem hasIdleValue_of_ofJson? {j : Json} (h : ofJson? j = some g) :
    g.HasIdleValue ↔ ∃ d ∈ givenConditions j, Condition.givesIdleValue d = true :=
  (exists_mem_iff_of_forall₂ (mapM_eq_some_iff.1 (mapM_givenConditions h)) fun _ _ hc => by
    rw [Condition.hasIdleValue_of_ofJson? hc]).symm

/-- A session leaves a value beside a test for emptiness in the graph only where the document gave
one, and whatever of them is left at a branch node is compiled. -/
theorem exists_hasIdleValue_run_iff (hread : ofText? text = some g) :
    ∃ document, Json.read? text = some document ∧
      ((∃ edits, (g.run edits).HasIdleValue) ↔
        ∃ d ∈ givenConditions document, Condition.givesIdleValue d = true) ∧
      ∀ edits workflowId verdict, verdict.isValid = true →
        ∃ w, (g.run edits).compile workflowId verdict = .ok w ∧
          (w.HasIdleValue ↔ ∃ node ∈ (g.run edits).nodes, node.kind = .branch ∧
            ∃ c ∈ node.conditions, c.hasIdleValue = true) := by
  obtain ⟨document, hdocument, hgraph⟩ := Option.bind_eq_some_iff.1 hread
  refine ⟨document, hdocument, ?_, fun edits workflowId verdict hvalid => ?_⟩
  · rw [← hasIdleValue_of_ofJson? hgraph]
    constructor
    · rintro ⟨edits, c, hc, hidle⟩
      exact ⟨c, g.conditions_run_subset edits hc, hidle⟩
    · exact fun h => ⟨[], h⟩
  · obtain ⟨w, hw, -, -, hsteps⟩ := (g.run edits).exists_workflow_eq_ok workflowId
    exact ⟨w, ((g.run edits).compile_of_isValid workflowId hvalid).trans hw,
      hasIdleValue_workflow_iff hsteps⟩

end Sessions

/-- The text of a branch that tests whether a field is empty, with a value beside the test.  Graph,
node and path are given by position. -/
def blankText (value : Json) : String :=
  (Json.arr [.arr [.arr [.str "n1", .str "branch", .arr [.num (.int 0), .num (.int 0)],
    .obj [("branches", .arr [.arr [.str "Blank", .arr [.obj [("field", .str "email"),
      ("operator", .str "isEmpty"), ("value", value)]]]])]]]]).compact

/-- A null beside the test is no value, so no session has one. -/
theorem not_hasIdleValue_blankText :
    ∃ g, ofText? (blankText .null) = some g ∧
      ∀ edits, ¬(g.run edits).HasIdleValue ∧
        ∃ w, (g.run edits).compile none ⟨true, [], []⟩ = .ok w ∧ ¬w.HasIdleValue := by
  have hblank : (Json.read? (blankText .null)).any (fun j =>
      (ofJson? j).isSome && (givenConditions j).all (!Condition.givesIdleValue ·)) = true := by
    decide +kernel
  obtain ⟨document, hdocument, h⟩ := (Option.any_eq_true _ _).1 hblank
  obtain ⟨hsome, hnone⟩ := Bool.and_eq_true_iff.1 h
  obtain ⟨g, hgraph⟩ := Option.isSome_iff_exists.1 hsome
  have hread : ofText? (blankText .null) = some g := by
    rw [ofText?, hdocument, Option.bind_some, hgraph]
  obtain ⟨_, hsame, hgiven, hcompiled⟩ := exists_hasIdleValue_run_iff hread
  have hclean : ¬∃ edits, (g.run edits).HasIdleValue := by
    cases hdocument.symm.trans hsame
    rw [hgiven]
    simpa using hnone
  refine ⟨g, hread, fun edits => ⟨fun h => hclean ⟨edits, h⟩, ?_⟩⟩
  obtain ⟨w, hw, hidle⟩ := hcompiled edits none ⟨true, [], []⟩ rfl
  refine ⟨w, hw, fun h => ?_⟩
  obtain ⟨node, hnode, -, c, hc, h⟩ := hidle.1 h
  exact hclean ⟨edits, c, List.mem_flatMap.2 ⟨node, hnode, hc⟩, h⟩

/-- Any other value is kept, and compiled. -/
theorem hasIdleValue_blankText :
    ∃ g w, ofText? (blankText (.str "x")) = some g ∧ g.HasIdleValue ∧
      g.compile none ⟨true, [], []⟩ = .ok w ∧ w.HasIdleValue := by
  have hbranch : (ofText? (blankText (.str "x"))).any
      (fun g => g.nodes.any fun node => node.isBranch && node.conditions.any (·.hasIdleValue)) =
        true := by
    decide +kernel
  obtain ⟨g, hread, hg⟩ := (Option.any_eq_true _ _).1 hbranch
  obtain ⟨node, hnode, hg⟩ := List.any_eq_true.1 hg
  obtain ⟨hkind, hc⟩ := Bool.and_eq_true_iff.1 hg
  obtain ⟨c, hc, hidle⟩ := List.any_eq_true.1 hc
  obtain ⟨w, hw, -, -, hsteps⟩ := g.exists_workflow_eq_ok none
  exact ⟨g, w, hread, ⟨c, List.mem_flatMap.2 ⟨node, hnode, hc⟩, hidle⟩,
    (g.compile_of_isValid none rfl).trans hw,
    (hasIdleValue_workflow_iff hsteps).2 ⟨node, hnode, by simpa [Node.isBranch] using hkind, c, hc,
      hidle⟩⟩

end Graph

end StepGraph
