import StepGraph.Proofs.Graph.Handle
import StepGraph.Proofs.Validation.Coverage

/-!
# Stricter validations

The optional rules come after the ones that are always in force, and all they find is errors.  How
the paths of branches are checked for edges decides about the warnings of open paths and about
nothing else.  So a validation with more switches on keeps every error of the live one, in its
place, and a workflow that it lets through is the one that the live validation lets through.

The two ways of checking paths count and look up different things.  They agree in one direction:
where there are fewer edges than paths some handle has no edge, because paths have different
handles.

There are four groups.

* The findings about open paths, which are all that depends on how paths are checked.
* The optional rules.
* Counted edges.  `map_coverageFindings_sublist` says that no node is lost where handles are looked
  at.
* The result, `validate_live_of_options`.
-/

namespace StepGraph

open Validation

variable {α : Type}

/-! ## Open paths -/

/-- Whether a finding is a warning of open paths. -/
def Diagnostic.reportsOpenPaths (d : Diagnostic) : Bool :=
  !d.isError && openPathsStart.toList.isPrefixOf d.message.toList

theorem Diagnostic.isError_eq_false {d : Diagnostic} (h : d.reportsOpenPaths = true) :
    d.isError = false := by
  simpa using (Bool.and_eq_true_iff.1 h).1

namespace Validation

theorem reportsOpenPaths_of_mem_coverageFindings {coverage : Coverage} {index : Index α}
    {node : Node α} {d : Diagnostic} (h : d ∈ coverageFindings coverage index node) :
    d.reportsOpenPaths = true := by
  obtain ⟨rest, hmessage⟩ := exists_message_of_mem_coverageFindings h
  rw [Diagnostic.reportsOpenPaths, errorFree_coverageFindings coverage index node d h, hmessage,
    String.toList_append, List.isPrefixOf_iff_prefix.2 (List.prefix_append _ _)]
  rfl

/-- How paths are checked does not matter for findings that are not about open paths. -/
theorem filter_findings_coverage {p : Diagnostic → Bool}
    (hp : ∀ d, d.reportsOpenPaths = true → p d = false) (index : Index α) (rule : Rule)
    (coverage coverage' : Coverage) :
    (rule.findings coverage index).filter p = (rule.findings coverage' index).filter p := by
  have hnil : ∀ coverage (node : Node α), (coverageFindings coverage index node).filter p = [] :=
    fun coverage node => List.filter_eq_nil_iff.2 fun d hd => by
      rw [hp d (reportsOpenPaths_of_mem_coverageFindings hd)]
      exact Bool.false_ne_true
  cases rule with
  | configuration =>
    simp only [Rule.findings, configurationFindings, List.filter_flatMap, List.filter_append,
      apply_ite (List.filter p), hnil]
  | _ => rfl

/-! ## Optional rules -/

/-- The rules in force by choice. -/
def Options.addedRules (options : Options) : List Rule :=
  (if options.rejectDangling then [.dangling] else []) ++
    (if options.uniqueStepIds then [.duplicate] else [])

theorem Options.rules_eq_append (options : Options) :
    options.rules = Options.live.rules ++ options.addedRules := by
  simp [rules, addedRules, live]

/-- The rules in force by choice find errors only. -/
theorem isError_of_mem_addedRules {options : Options} {rule : Rule}
    (hrule : rule ∈ options.addedRules) {coverage : Coverage} {index : Index α} {d : Diagnostic}
    (hd : d ∈ rule.findings coverage index) : d.isError = true := by
  have hrule : rule = .dangling ∨ rule = .duplicate := by
    rcases List.mem_append.1 hrule with h | h <;> split at h <;> simp_all
  rcases hrule with rfl | rfl
  · obtain ⟨edge, -, rfl⟩ := List.mem_map.1 hd
    exact isError_danglingFinding index edge
  · obtain ⟨node, -, message, rfl⟩ := eq_error_of_mem_duplicateFindings hd
    rfl

end Validation

/-- Findings that are not about open paths begin with those of a live validation. -/
theorem Graph.filter_findings {g : Graph α} (hnodes : g.nodes ≠ []) (options : Options)
    {p : Diagnostic → Bool} (hp : ∀ d, d.reportsOpenPaths = true → p d = false) :
    (g.findings options).filter p = (g.findings .live).filter p ++
      (options.addedRules.flatMap (·.findings options.coverage g.index)).filter p := by
  have hcoverage := filter_findings_coverage hp g.index
  rw [findings_eq_flatMap hnodes, findings_eq_flatMap hnodes, options.rules_eq_append,
    List.flatMap_append, List.filter_append]
  congr 1
  simp only [List.filter_flatMap, hcoverage _ options.coverage Options.live.coverage]

/-! ## Counted edges -/

namespace Validation

/-- Fewer edges than handles leave a handle without an edge. -/
theorem exists_edgeFromHandle?_eq_none {index : Index α} {id : String} {n : Nat}
    (h : (index.outgoing id).length < n) :
    ∃ i < n, index.edgeFromHandle? id (Handle.branch i) = none := by
  by_contra hall
  push Not at hall
  -- With an edge at each of them, the handles are among those of the edges.
  have hsubset : (List.range n).map (fun i => some (Handle.branch i)) ⊆
      (index.outgoing id).map (·.sourceHandle) := by
    intro handle hhandle
    obtain ⟨i, hi, rfl⟩ := List.mem_map.1 hhandle
    obtain ⟨edge, hedge⟩ := Option.ne_none_iff_exists'.1 (hall i (List.mem_range.1 hi))
    rw [Index.edgeFromHandle?] at hedge
    have hhandle := List.find?_some hedge
    exact List.mem_map.2 ⟨edge, List.mem_of_find?_eq_some hedge, beq_iff_eq.1 hhandle⟩
  have hnodup : ((List.range n).map fun i => some (Handle.branch i)).Nodup :=
    List.nodup_range.map ((Option.some_injective _).comp Handle.branch_injective)
  have hlength := (hnodup.subperm hsubset).length_le
  rw [List.length_map, List.length_map, List.length_range] at hlength
  omega

/-- A node with fewer edges than paths is found where handles are looked at, if its paths have
names. -/
theorem map_coverageFindings_sublist {index : Index α} {node : Node α}
    (hnames : ∀ path ∈ node.data.branches, path.name ≠ "") :
    ((coverageFindings .count index node).map (·.nodeId)).Sublist
      ((coverageFindings .perHandle index node).map (·.nodeId)) := by
  by_cases hfewer : (index.outgoing node.id).length < node.data.branches.length
  · obtain ⟨i, hi, hnone⟩ := exists_edgeFromHandle?_eq_none hfewer
    have hopen := exists_open_iff.1 ⟨i, node.data.branches[i], List.getElem?_eq_getElem hi, hnone,
      Or.inl (hnames _ (List.getElem_mem hi))⟩
    rw [← isEmpty_intercalate_iff (show ", " ≠ "" by decide)] at hopen
    simp only [coverageFindings, if_pos hfewer, if_neg hopen]
    exact List.Sublist.refl _
  · simp only [coverageFindings, if_neg hfewer]
    exact List.nil_sublist _

/-- Where paths have names, no rule that counts edges warns of open paths at a node that it misses
by looking at handles. -/
theorem map_filter_findings_sublist {index : Index α}
    (hnames : ∀ node ∈ index.nodes, node.isBranch = true →
      ∀ path ∈ node.data.branches, path.name ≠ "") (rule : Rule) :
    (((rule.findings .count index).filter (·.reportsOpenPaths)).map (·.nodeId)).Sublist
      (((rule.findings .perHandle index).filter (·.reportsOpenPaths)).map (·.nodeId)) := by
  have hself : ∀ coverage (node : Node α), (coverageFindings coverage index node).filter
      (·.reportsOpenPaths) = coverageFindings coverage index node := fun coverage node =>
    List.filter_eq_self.2 fun d hd => reportsOpenPaths_of_mem_coverageFindings hd
  cases rule with
  | configuration =>
    simp only [Rule.findings, configurationFindings, List.filter_flatMap, List.filter_append,
      List.map_flatMap, List.map_append]
    refine List.Sublist.flatMap_right _ fun node hnode => (List.Sublist.refl _).append ?_
    split
    · rename_i hbranch
      rw [hself, hself]
      exact map_coverageFindings_sublist (hnames node hnode hbranch)
    · exact List.Sublist.refl _
  | _ => exact List.Sublist.refl _

end Validation

/-! ## The result -/

namespace Graph

/-- The nodes that a validation warns of because of their open paths, one for each warning. -/
def warnedOfOpenPaths (g : Graph α) (options : Options) : List (Option String) :=
  ((g.validate options).warnings.filter (·.reportsOpenPaths)).map (·.nodeId)

theorem warnedOfOpenPaths_eq (g : Graph α) (options : Options) :
    g.warnedOfOpenPaths options =
      ((g.findings options).filter (·.reportsOpenPaths)).map (·.nodeId) := by
  rw [warnedOfOpenPaths, validate, warnings_ofDiagnostics, List.filter_filter]
  congr 2
  funext d
  cases hreports : d.reportsOpenPaths with
  | false => rfl
  | true => rw [Diagnostic.isError_eq_false hreports, Bool.not_false, Bool.and_true]

/-- The errors of a live validation come first under all options. -/
theorem errors_live_isPrefix {g : Graph α} (hnodes : g.nodes ≠ []) (options : Options) :
    (g.validate .live).errors <+: (g.validate options).errors := by
  rw [validate, validate, errors_ofDiagnostics, errors_ofDiagnostics,
    filter_findings hnodes options fun _ => Diagnostic.isError_eq_false]
  exact List.prefix_append _ _

/-- The warnings that are not about open paths do not depend on options. -/
theorem filter_warnings_eq {g : Graph α} (hnodes : g.nodes ≠ []) (options : Options) :
    (g.validate options).warnings.filter (!·.reportsOpenPaths) =
      (g.validate .live).warnings.filter (!·.reportsOpenPaths) := by
  rw [validate, validate, warnings_ofDiagnostics, warnings_ofDiagnostics, List.filter_filter,
    List.filter_filter, filter_findings hnodes options (by simp +contextual)]
  refine List.append_right_eq_self.2 (List.filter_eq_nil_iff.2 fun d hd => ?_)
  obtain ⟨rule, hrule, hd⟩ := List.mem_flatMap.1 hd
  simp [isError_of_mem_addedRules hrule hd]

/-- In a graph with nodes, the errors of a live validation come first under all options, and the
warnings that are not about open paths are the same.  Where paths have names, a node with fewer
edges than paths is also warned of where handles are looked at.  A workflow generated under any
options is generated live. -/
theorem validate_live_of_options (g : Graph α) (options : Options) :
    (g.nodes ≠ [] →
      (g.validate .live).errors <+: (g.validate options).errors ∧
        (g.validate options).warnings.filter (!·.reportsOpenPaths) =
          (g.validate .live).warnings.filter (!·.reportsOpenPaths) ∧
        ((∀ node ∈ g.nodes, node.isBranch = true →
            ∀ path ∈ node.data.branches, path.name ≠ "") →
          (g.warnedOfOpenPaths { options with coverage := .count }).Sublist
            (g.warnedOfOpenPaths { options with coverage := .perHandle }))) ∧
      ∀ workflowId w, g.generate workflowId options = .ok w →
        g.generate workflowId .live = .ok w := by
  refine ⟨fun hnodes => ⟨errors_live_isPrefix hnodes options, filter_warnings_eq hnodes options,
    fun hnames => ?_⟩, fun workflowId w hw => ?_⟩
  · rw [warnedOfOpenPaths_eq, warnedOfOpenPaths_eq, findings_eq_flatMap hnodes,
      findings_eq_flatMap hnodes, List.filter_flatMap, List.filter_flatMap, List.map_flatMap,
      List.map_flatMap]
    exact List.Sublist.flatMap_right options.rules fun rule _ =>
      map_filter_findings_sublist hnames rule
  · obtain ⟨hnodes, hvalid, hw⟩ := generate_eq_ok_iff.1 hw
    have herrors := errors_live_isPrefix hnodes options
    rw [isValid_validate_iff_errors.1 hvalid, List.prefix_nil] at herrors
    exact generate_eq_ok_iff.2 ⟨hnodes, isValid_validate_iff_errors.2 herrors, hw⟩

/-- A branch of which two edges take the first of three paths, before an action that is not chosen
and another one with its step identity.  The last edge leads to no node. -/
def faultyGraph : Graph Rat where
  nodes := [
    { id := "n1"
      kind := .branch
      position := ⟨0, 0⟩
      data := { StepData.empty with
        label := "Split", stepId := "s1", branches := ["A", "B", "C"].map BranchPath.ofName } },
    .fresh "n2" "s2" .action ⟨0, 0⟩,
    { id := "n3"
      kind := .action
      position := ⟨0, 0⟩
      data := { StepData.empty with label := "Send", stepId := "s2", actionId := some "send" } }]
  edges := [
    ⟨"e1", "n1", "n2", some "branch-0", none⟩,
    ⟨"e2", "n1", "n3", some "branch-0", none⟩,
    ⟨"e3", "n3", "n9", none, none⟩]

/-- A strict validation finds more errors, and warns of the same branch.  One that finds none lets
through what a live one does. -/
theorem validate_live_of_options_faultyGraph :
    (faultyGraph.validate .live).errors ≠ [] ∧
      (faultyGraph.validate .live).errors <+: (faultyGraph.validate .strict).errors ∧
      (faultyGraph.validate .live).errors ≠ (faultyGraph.validate .strict).errors ∧
      some "n1" ∈ faultyGraph.warnedOfOpenPaths { Options.strict with coverage := .count } ∧
      some "n1" ∈ faultyGraph.warnedOfOpenPaths { Options.strict with coverage := .perHandle } ∧
      ∃ w, (splitGraph ["Yes", ""]).generate none .strict = .ok w ∧
        (splitGraph ["Yes", ""]).generate none .live = .ok w := by
  obtain ⟨hfirst, -, hsublist⟩ :=
    (faultyGraph.validate_live_of_options .strict).1 (by decide)
  have hcounted :
      some "n1" ∈ faultyGraph.warnedOfOpenPaths { Options.strict with coverage := .count } := by
    decide +kernel
  have hvalid : ((splitGraph ["Yes", ""]).validate .strict).isValid = true := by decide +kernel
  have hgenerate := generate_eq_ok_iff.2 ⟨by decide, hvalid, workflow_eq_ok _ none⟩
  exact ⟨by decide +kernel, hfirst, by decide +kernel, hcounted,
    (hsublist (by decide)).subset hcounted, _, hgenerate,
    ((splitGraph ["Yes", ""]).validate_live_of_options .strict).2 none _ hgenerate⟩

end Graph

end StepGraph
