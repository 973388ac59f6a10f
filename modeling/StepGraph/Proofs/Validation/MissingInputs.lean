import StepGraph.Proofs.Editing.Configuration
import StepGraph.Proofs.Validation.Configured
import StepGraph.Proofs.Validation.CycleReport

/-!
# Missing inputs

An input of an action is absent when the action requires it and the configuration has no entry under
its name.  The node is reported with the labels of the absent inputs, in their order, and the report
is left out where the labels come to nothing: so a single absent input with neither a name nor a
label goes unnoticed, and nothing else does.

There are four groups.

* Absent inputs, and what a list of values makes of them.
* The report.  `filter_reportsMissing_nodeFindings` says which of the findings about a node it is.
* Validations.  `filter_reportsMissing_validate` says that no other finding looks like it.
* The result, `reportsInputs_of_action`, with an input that goes unnoticed.
-/

namespace StepGraph

open Validation

variable {α : Type}

/-! ## Absent inputs -/

namespace ActionDefinition

/-- The inputs that are required and have no entry under their name, in order. -/
def absentInputs (definition : ActionDefinition) (config : Fields) : List ActionField :=
  definition.fields.filter fun field => field.required && !config.contains field.name

theorem missingLabels_eq (definition : ActionDefinition) (config : Fields) :
    missingLabels definition config =
      (definition.absentInputs config).map (·.displayLabel) := by
  rw [missingLabels, requiredFields, List.filter_filter, absentInputs]
  simp only [Bool.and_comm]

/-- Of the absent inputs, those stay whose name is not among the keys that are set. -/
theorem absentInputs_insertAll (definition : ActionDefinition) (config : Fields)
    (entries : List (String × Value)) :
    definition.absentInputs (config.insertAll entries) =
      (definition.absentInputs config).filter fun field =>
        !entries.any (·.1 == field.name) := by
  rw [absentInputs, absentInputs, List.filter_filter]
  refine List.filter_congr fun field _ => ?_
  rw [Fields.contains_insertAll, Bool.not_or, Bool.and_left_comm]

/-- Where every required input is set, none is absent. -/
theorem absentInputs_insertAll_eq_nil {definition : ActionDefinition} {config : Fields}
    {entries : List (String × Value)}
    (h : ∀ field ∈ definition.fields, field.required = true → ∃ entry ∈ entries,
      entry.1 = field.name) :
    definition.absentInputs (config.insertAll entries) = [] := by
  rw [absentInputs_insertAll, List.filter_eq_nil_iff]
  intro field hfield
  obtain ⟨hfield, hrequired⟩ := List.mem_filter.1 hfield
  obtain ⟨entry, hentry, hname⟩ := h field hfield (Bool.and_eq_true_iff.1 hrequired).1
  have hset : entries.any (·.1 == field.name) = true :=
    List.any_eq_true.2 ⟨entry, hentry, by simpa using hname⟩
  simp [hset]

end ActionDefinition

theorem ActionField.displayLabel_eq_empty_iff {field : ActionField} :
    field.displayLabel = "" ↔ field.label = "" ∧ field.name = "" := by
  rw [displayLabel]
  split
  · rename_i h
    simp [String.isEmpty_iff.1 h]
  · rename_i h
    simp [mt String.isEmpty_iff.2 h]

/-- Absent inputs can be seen in a report: one of them has a name or a label, or there are two. -/
def IsNoticed (absent : List ActionField) : Prop :=
  (∃ field ∈ absent, field.name ≠ "" ∨ field.label ≠ "") ∨ 2 ≤ absent.length

/-- The labels of absent inputs come to nothing when these cannot be seen. -/
theorem isEmpty_intercalate_displayLabel_iff {absent : List ActionField} :
    (", ".intercalate (absent.map (·.displayLabel))).isEmpty = true ↔ ¬IsNoticed absent := by
  rw [isEmpty_intercalate_iff (by decide), IsNoticed]
  match absent with
  | [] => simp
  | [field] => simp [ActionField.displayLabel_eq_empty_iff, and_comm]
  | first :: second :: rest => simp

/-! ## The report -/

/-- How a report of missing inputs begins. -/
def Validation.missingStart : String := "Missing required fields"

/-- Whether a finding is an error that reports missing inputs. -/
def Diagnostic.reportsMissing (d : Diagnostic) : Bool :=
  d.isError && missingStart.toList.isPrefixOf d.message.toList

/-- The error that names absent inputs. -/
def Diagnostic.missing (id : String) (absent : List ActionField) : Diagnostic :=
  .error id ("Missing required fields: " ++ ", ".intercalate (absent.map (·.displayLabel)))

theorem Diagnostic.isError_of_reportsMissing {d : Diagnostic} (h : d.reportsMissing = true) :
    d.isError = true := (Bool.and_eq_true_iff.1 h).1

theorem Diagnostic.reportsMissing_missing (id : String) (absent : List ActionField) :
    (missing id absent).reportsMissing = true := by
  have hstart : missingStart.toList <+: "Missing required fields: ".toList := by decide
  rw [reportsMissing, missing, isError_error, Bool.true_and, List.isPrefixOf_iff_prefix, error,
    String.toList_append]
  exact hstart.trans (List.prefix_append _ _)

namespace Validation

open ActionDefinition

/-- The inputs of an action are reported exactly when the absent ones can be seen. -/
theorem inputFindings_eq {node : Node α} {definition : ActionDefinition}
    (hdefinition : node.data.definition = some definition) :
    (IsNoticed (definition.absentInputs node.data.config) →
        inputFindings node = [.missing node.id (definition.absentInputs node.data.config)]) ∧
      (¬IsNoticed (definition.absentInputs node.data.config) → inputFindings node = []) := by
  simp only [inputFindings, hdefinition, missingLabels_eq]
  constructor
  · intro h
    rw [if_neg (fun hempty => isEmpty_intercalate_displayLabel_iff.1 hempty h)]
    rfl
  · intro h
    rw [if_pos (isEmpty_intercalate_displayLabel_iff.2 h)]

/-- The report of missing inputs is the finding about inputs, and no other finding about a node. -/
theorem filter_reportsMissing_nodeFindings {node : Node α} (hkind : node.kind = .action) :
    (nodeFindings node).filter (·.reportsMissing) = inputFindings node := by
  have haction : (actionFindings node).filter (·.reportsMissing) = [] := by
    rw [actionFindings]
    split
    · rfl
    · have hother : (Diagnostic.error node.id "No action selected").reportsMissing = false := by
        rw [Diagnostic.reportsMissing, isError_error, Bool.true_and]
        show missingStart.toList.isPrefixOf "No action selected".toList = false
        decide
      simp [hother]
  have hinput : (inputFindings node).filter (·.reportsMissing) = inputFindings node := by
    cases hdefinition : node.data.definition with
    | none => simp [inputFindings, hdefinition]
    | some definition =>
      obtain ⟨hnoticed, hunnoticed⟩ := inputFindings_eq hdefinition
      by_cases h : IsNoticed (definition.absentInputs node.data.config)
      · rw [hnoticed h, List.filter_cons_of_pos (Diagnostic.reportsMissing_missing _ _),
          List.filter_nil]
      · rw [hunnoticed h, List.filter_nil]
  rw [nodeFindings, hkind]
  simp only [List.filter_append, haction, hinput, List.nil_append]

/-! ## Validations -/

/-- Of the errors of a rule, those about single nodes report missing inputs, and no others do. -/
theorem eq_configuration_of_reportsMissing {g : Graph α} {coverage : Coverage} {rule : Rule}
    {d : Diagnostic} (h : d ∈ rule.findings coverage g.index) (hd : d.reportsMissing = true) :
    rule = .configuration := by
  obtain ⟨herror, hstart⟩ := Bool.and_eq_true_iff.1 hd
  refine rule_eq_of_prefix (fun rule => ?_) h herror (List.isPrefixOf_iff_prefix.1 hstart)
  cases rule <;> decide

end Validation

/-- A validation reports missing inputs node by node, as the findings about each node do. -/
theorem Graph.filter_reportsMissing_validate (g : Graph α) (options : Options) :
    (g.validate options).errors.filter (·.reportsMissing) =
      g.nodes.flatMap fun node => (nodeFindings node).filter (·.reportsMissing) := by
  by_cases hnodes : g.nodes = []
  · have hempty : g.isEmpty = true := by simp [isEmpty, hnodes]
    rw [validate, findings, if_pos hempty, hnodes, emptyFindings]
    cases options.rejectEmpty <;> rfl
  have hlive : Rule.configuration ∈ Options.live.rules := by decide
  rw [filter_errors_validate (fun _ => Diagnostic.isError_of_reportsMissing) hlive
    (fun _ _ _ => eq_configuration_of_reportsMissing) options hnodes]
  have hcoverage : ∀ node : Node α,
      (coverageFindings options.coverage g.index node).filter (·.reportsMissing) = [] := by
    refine fun node => List.filter_eq_nil_iff.2 fun d hd hreports => ?_
    have herror := Diagnostic.isError_of_reportsMissing hreports
    rw [errorFree_coverageFindings _ _ _ d hd] at herror
    cases herror
  simp only [Rule.findings, configurationFindings, List.filter_flatMap, List.filter_append,
    apply_ite (List.filter _), hcoverage, List.filter_nil, ite_self, List.append_nil,
    Index.nodes_index]

/-! ## The result -/

namespace Node

/-- What is said about the inputs of an action. -/
structure ReportsInputs (node : Node α) (definition : ActionDefinition) : Prop where
  /-- Absent inputs that can be seen are reported once. -/
  reported : IsNoticed (definition.absentInputs node.data.config) →
    (nodeFindings node).filter (·.reportsMissing) =
      [.missing node.id (definition.absentInputs node.data.config)]
  /-- Nothing is reported where none is absent, or one that has neither a name nor a label. -/
  unreported : ¬IsNoticed (definition.absentInputs node.data.config) →
    (nodeFindings node).filter (·.reportsMissing) = []
  /-- A validation has these reports of all nodes, and no others. -/
  validated : ∀ (g : Graph α) (options : Options),
    (g.validate options).errors.filter (·.reportsMissing) =
      g.nodes.flatMap fun other => (nodeFindings other).filter (·.reportsMissing)
  /-- The badge is that of an error when there is a report or no action is chosen. -/
  badge : classify node = .error ↔
    IsNoticed (definition.absentInputs node.data.config) ∨
      (node.data.actionId.any fun actionId => !Text.isBlank actionId) = false
  /-- Values can be set under all names that are required, and then there is no report. -/
  configured : ∀ (g : Graph α) (id : String) (entries : List (String × Value)),
    g.node? id = some node →
    (∀ field ∈ definition.fields, field.required = true → ∃ entry ∈ entries,
      entry.1 = field.name) →
    ∃ g', entries.foldlM (fun g entry => g.setConfigValue id entry.1 entry.2) g = .ok g' ∧
      g'.node? id = some (node.withEntries entries) ∧
      (nodeFindings (node.withEntries entries)).filter (·.reportsMissing) = []

/-- The inputs of an action are reported exactly where the absent ones can be seen, with the labels
of all of them in order, and no longer once values are set under all names that are required. -/
theorem reportsInputs_of_action (node : Node α) {definition : ActionDefinition}
    (hkind : node.kind = .action) (hdefinition : node.data.definition = some definition) :
    node.ReportsInputs definition where
  reported h := (filter_reportsMissing_nodeFindings hkind).trans ((inputFindings_eq hdefinition).1 h)
  unreported h :=
    (filter_reportsMissing_nodeFindings hkind).trans ((inputFindings_eq hdefinition).2 h)
  validated g options := g.filter_reportsMissing_validate options
  badge := by
    have hinputs : ErrorFree (inputFindings node) ↔
        ¬IsNoticed (definition.absentInputs node.data.config) := by
      rw [errorFree_inputFindings, ← isEmpty_intercalate_displayLabel_iff,
        ← ActionDefinition.missingLabels_eq]
      simp [hdefinition]
    have hnodeFindings : nodeFindings node = actionFindings node ++ inputFindings node := by
      rw [nodeFindings, hkind]
    rw [← not_iff_not, ← ne_eq, classify, ofDiagnostics_ne_error_iff, hnodeFindings,
      ErrorFree.append_iff, errorFree_actionFindings, hinputs, not_or, and_comm,
      Bool.not_eq_false]
  configured g id entries hnode hset := by
    have hkind' : (node.withEntries entries).kind = .action := hkind
    have hdefinition' : (node.withEntries entries).data.definition = some definition := hdefinition
    have hnone : definition.absentInputs (node.withEntries entries).data.config = [] :=
      ActionDefinition.absentInputs_insertAll_eq_nil hset
    refine ⟨_, g.foldlM_setConfigValue entries hnode hkind, ?_, ?_⟩
    · rw [Graph.node?_updateNode (id_withEntries entries), hnode, Option.map_some]
    · rw [filter_reportsMissing_nodeFindings hkind',
        (inputFindings_eq hdefinition').2 (by simp [hnone, IsNoticed])]

/-- An action with the given inputs, of which the address is configured. -/
def withForm (fields : List ActionField) : Node Rat where
  id := "n1"
  kind := .action
  position := ⟨0, 0⟩
  data := { StepData.empty with
    label := "Send"
    stepId := "s1"
    actionId := some "send"
    definition := some ⟨fields, none⟩
    config := Fields.empty.insert "url" (.str "x") }

/-- Inputs of which two have one name, one has a label with a separator in it, and one has neither a
name nor a label. -/
def mailForm : List ActionField :=
  [.text "url" "URL" true, .text "to" "To, Cc" true, .text "to" "" true, .text "" "" true,
    .text "note" "Note" false]

/-- All absent inputs are named in the report. -/
theorem reportsInputs_withForm :
    (nodeFindings (withForm mailForm)).filter (·.reportsMissing) =
        [.error "n1" "Missing required fields: To, Cc, to, "] ∧
      classify (withForm mailForm) = .error ∧
      (nodeFindings ((withForm mailForm).withEntries [("to", .str "y"), ("", .null),
        ("url", .null)])).filter (·.reportsMissing) = [] := by
  have h := (withForm mailForm).reportsInputs_of_action rfl rfl
  have hnoticed : IsNoticed (ActionDefinition.absentInputs ⟨mailForm, none⟩
    (withForm mailForm).data.config) := Or.inr (by decide)
  obtain ⟨-, -, -, hnone⟩ := h.configured ⟨[withForm mailForm], []⟩ "n1"
    [("to", .str "y"), ("", .null), ("url", .null)] rfl (by decide)
  refine ⟨?_, h.badge.2 (Or.inl hnoticed), hnone⟩
  rw [h.reported hnoticed]
  decide

/-- A single input with neither a name nor a label is absent, and nothing is said about it. -/
theorem not_reportsMissing_withForm :
    ActionDefinition.absentInputs ⟨[.text "" "" true], none⟩
        (withForm [.text "" "" true]).data.config = [.text "" "" true] ∧
      (nodeFindings (withForm [.text "" "" true])).filter (·.reportsMissing) = [] ∧
      classify (withForm [.text "" "" true]) ≠ .error := by
  decide

end Node

end StepGraph
