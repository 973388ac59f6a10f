import StepGraph.Proofs.Validation.Validity

/-!
# Configured actions

What is wrong with a node by itself is wrong with an action: no action is chosen, or inputs are
missing that it requires.  `StepData.IsConfigured` says that neither is the case, and
`classify_ne_error_iff` that nothing else makes the badge of a node that of an error.

There are three groups.

* Joined texts.  `isEmpty_intercalate_iff` says when a finding has nothing to name.
* Badges.
* More configuration.  A value more leaves no more inputs missing.
-/

namespace StepGraph

open Validation

variable {α : Type}

/-! ## Joined texts -/

/-- A joined text is empty when there is nothing to join, or one text that is empty itself: two
texts have a separator between them. -/
theorem isEmpty_intercalate_iff {separator : String} {texts : List String}
    (hseparator : separator ≠ "") :
    (separator.intercalate texts).isEmpty = true ↔ texts = [] ∨ texts = [""] := by
  match texts with
  | [] => simp
  | [text] => simp [String.isEmpty_iff]
  | first :: second :: rest =>
    rw [String.intercalate_cons_cons, String.isEmpty_iff]
    simp [hseparator]

/-! ## Badges -/

/-- What an action needs: it is chosen, and what it requires is configured. -/
structure StepData.IsConfigured (data : StepData) : Prop where
  chosen : (data.actionId.any fun actionId => !Text.isBlank actionId) = true
  complete : ∀ definition, data.definition = some definition →
    (", ".intercalate (missingLabels definition data.config)).isEmpty = true

/-- The other parts of the data do not matter. -/
theorem StepData.IsConfigured.of_eq {data data' : StepData} (h : data.IsConfigured)
    (hactionId : data'.actionId = data.actionId) (hdefinition : data'.definition = data.definition)
    (hconfig : data'.config = data.config) : data'.IsConfigured := by
  constructor
  · rw [hactionId]
    exact h.chosen
  · rw [hdefinition, hconfig]
    exact h.complete

theorem errorFree_actionFindings {node : Node α} :
    ErrorFree (actionFindings node) ↔
      (node.data.actionId.any fun actionId => !Text.isBlank actionId) = true := by
  rw [actionFindings]
  split
  · rename_i h
    simp [h]
  · rename_i h
    simp [h, ErrorFree]

theorem errorFree_inputFindings {node : Node α} :
    ErrorFree (inputFindings node) ↔ ∀ definition, node.data.definition = some definition →
      (", ".intercalate (missingLabels definition node.data.config)).isEmpty = true := by
  unfold inputFindings
  cases hdefinition : node.data.definition with
  | none => simp
  | some definition =>
    dsimp only
    split
    · rename_i h
      simpa using h
    · rename_i h
      simpa [ErrorFree] using h

theorem errorFree_conditionFindings (node : Node α) : ErrorFree (conditionFindings node) := by
  unfold conditionFindings
  dsimp only
  split
  · exact ErrorFree.nil
  · simp [ErrorFree]

/-- A node is wrong by itself only if it is an action that is not configured. -/
theorem classify_ne_error_iff {node : Node α} :
    classify node ≠ .error ↔ (node.kind = .action → node.data.IsConfigured) := by
  rw [classify, ofDiagnostics_ne_error_iff, nodeFindings]
  cases node.kind with
  | action =>
    dsimp only
    rw [ErrorFree.append_iff, errorFree_actionFindings, errorFree_inputFindings]
    exact ⟨fun h _ => ⟨h.1, h.2⟩, fun h => ⟨(h rfl).chosen, (h rfl).complete⟩⟩
  | branch =>
    refine iff_of_true (errorFree_conditionFindings node) fun hkind => ?_
    cases hkind

/-! ## More configuration -/

/-- Fewer labels leave nothing to report if nothing was reported. -/
theorem isEmpty_intercalate_of_sublist {separator : String} {labels labels' : List String}
    (hseparator : separator ≠ "") (h : labels'.Sublist labels)
    (hempty : (separator.intercalate labels).isEmpty = true) :
    (separator.intercalate labels').isEmpty = true := by
  rw [isEmpty_intercalate_iff hseparator] at hempty ⊢
  rcases hempty with rfl | rfl
  · exact Or.inl (List.sublist_nil.1 h)
  · exact List.sublist_singleton.1 h

/-- A value more leaves no more inputs missing. -/
theorem missingLabels_insert_sublist (definition : ActionDefinition) (config : Fields)
    (key : String) (value : Value) :
    (missingLabels definition (config.insert key value)).Sublist
      (missingLabels definition config) := by
  unfold missingLabels
  refine List.Sublist.map _ (List.monotone_filter_right _ fun field hfield => ?_)
  simp only [Fields.contains, Fields.get?_insert, Bool.not_eq_true'] at hfield ⊢
  split at hfield
  · cases hfield
  · exact hfield

theorem StepData.IsConfigured.insert {data : StepData} (h : data.IsConfigured) (key : String)
    (value : Value) :
    StepData.IsConfigured { data with config := data.config.insert key value } := by
  refine ⟨h.chosen, fun definition hdefinition => ?_⟩
  exact isEmpty_intercalate_of_sublist (by decide)
    (missingLabels_insert_sublist definition data.config key value)
    (h.complete definition hdefinition)

end StepGraph
