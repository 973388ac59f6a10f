import StepGraph.Proofs.Graph.Follow
import StepGraph.Proofs.Validation.CycleSearch
import StepGraph.Validation.Basic

/-!
# When a graph is valid

A graph with nodes is valid when it has no cycle, every node is configured, and the optional checks
hold.  `Graph.IsSound` says so without look-up tables and without a search, and
`isValid_validate_iff` says that a validation agrees.

There are four groups.

* Findings without an error among them.
* The rules.  For each rule there is one lemma, which says when it finds no error.
* What the findings are about, which tells the findings of one rule from those of another.
* The verdict.
-/

namespace StepGraph

open Relation (TransGen)
open Validation

variable {α : Type}

/-! ## Findings without an error -/

/-- There is no error among the findings. -/
def ErrorFree (diagnostics : List Diagnostic) : Prop := ∀ d ∈ diagnostics, d.isError = false

namespace ErrorFree

@[simp] theorem nil : ErrorFree [] := by simp [ErrorFree]

@[simp] theorem append_iff {ds es : List Diagnostic} :
    ErrorFree (ds ++ es) ↔ ErrorFree ds ∧ ErrorFree es := by
  simp [ErrorFree, or_imp, forall_and]

theorem flatMap_iff {β : Type} {f : β → List Diagnostic} {items : List β} :
    ErrorFree (items.flatMap f) ↔ ∀ b ∈ items, ErrorFree (f b) := by
  simp only [ErrorFree, List.mem_flatMap]
  constructor
  · intro h b hb d hd
    exact h d ⟨b, hb, hd⟩
  · intro h d hmem
    obtain ⟨b, hb, hd⟩ := hmem
    exact h b hb d hd

theorem map_iff {β : Type} {f : β → Diagnostic} {items : List β} :
    ErrorFree (items.map f) ↔ ∀ b ∈ items, (f b).isError = false := by
  simp [ErrorFree]

end ErrorFree

@[simp] theorem isError_error (id message : String) :
    (Diagnostic.error id message).isError = true := rfl

@[simp] theorem isError_warning (id message : String) :
    (Diagnostic.warning id message).isError = false := rfl

@[simp] theorem isError_graphError (message : String) :
    (Diagnostic.graphError message).isError = true := rfl

@[simp] theorem isError_graphWarning (message : String) :
    (Diagnostic.graphWarning message).isError = false := rfl

@[simp] theorem isError_severalStarts (name : String) : (severalStarts name).isError = false := rfl

@[simp] theorem isError_disconnected (id : String) : (disconnected id).isError = false := rfl

@[simp] theorem isError_cycleClosed (id name : String) : (cycleClosed id name).isError = true := rfl

/-- A verdict is valid when there is no error. -/
theorem isValid_ofDiagnostics {ds : List Diagnostic} :
    (Verdict.ofDiagnostics ds).isValid = true ↔ ErrorFree ds := by
  simp [Verdict.ofDiagnostics, ErrorFree]

theorem errors_ofDiagnostics (ds : List Diagnostic) :
    (Verdict.ofDiagnostics ds).errors = ds.filter (·.isError) := by
  rw [Verdict.ofDiagnostics, List.partition_eq_filter_filter]

theorem warnings_ofDiagnostics (ds : List Diagnostic) :
    (Verdict.ofDiagnostics ds).warnings = ds.filter (!·.isError) := by
  rw [Verdict.ofDiagnostics, List.partition_eq_filter_filter]
  rfl

/-- The errors of a verdict are the findings that are errors. -/
theorem mem_errors_ofDiagnostics {ds : List Diagnostic} {d : Diagnostic} :
    d ∈ (Verdict.ofDiagnostics ds).errors ↔ d ∈ ds ∧ d.isError = true := by
  simp [Verdict.ofDiagnostics]

/-- The badge is not that of an error exactly when there is no error. -/
theorem ofDiagnostics_ne_error_iff {ds : List Diagnostic} :
    Status.ofDiagnostics ds ≠ .error ↔ ErrorFree ds := by
  suffices ∀ status : Status,
      ds.foldl (fun status d => Status.worst status (.ofSeverity d.severity)) status ≠ .error ↔
        status ≠ .error ∧ ErrorFree ds by
    simpa [Status.ofDiagnostics] using this .valid
  induction ds with
  | nil => simp
  | cons d rest ih =>
    intro status
    rw [List.foldl_cons, ih]
    have hworst : Status.worst status (.ofSeverity d.severity) ≠ .error ↔
        status ≠ .error ∧ d.isError = false := by
      rw [Diagnostic.isError]
      cases status <;> cases d.severity <;> simp [Status.worst, Status.ofSeverity]
    rw [hworst]
    simp [ErrorFree, and_assoc]

/-! ## The rules -/

namespace Validation

/-- There is a node to start at. -/
theorem errorFree_startFindings {index : Index α} :
    ErrorFree (startFindings index) ↔ index.startCandidates ≠ [] := by
  rw [startFindings]
  split
  · rename_i h
    simp [h, ErrorFree, noStart]
  · rename_i h
    simp [h]
  · rename_i h
    simp [h, ErrorFree]

/-- Paths without edges are no errors. -/
theorem errorFree_coverageFindings (coverage : Coverage) (index : Index α) (node : Node α) :
    ErrorFree (coverageFindings coverage index node) := by
  cases coverage <;> simp only [coverageFindings] <;> split <;> simp [ErrorFree]

/-- Every node is configured. -/
theorem errorFree_configurationFindings {coverage : Coverage} {index : Index α} :
    ErrorFree (configurationFindings coverage index) ↔
      ∀ node ∈ index.nodes, classify node ≠ .error := by
  rw [configurationFindings, ErrorFree.flatMap_iff]
  refine forall₂_congr fun node _ => ?_
  rw [classify, ofDiagnostics_ne_error_iff, ErrorFree.append_iff]
  refine and_iff_left ?_
  split
  · exact errorFree_coverageFindings coverage index node
  · exact ErrorFree.nil

/-- Nodes without edges into them are no errors. -/
theorem errorFree_disconnectedFindings (index : Index α) :
    ErrorFree (disconnectedFindings index) := by
  rw [disconnectedFindings, ErrorFree.map_iff]
  intro node _
  rfl

/-- The successors of an id are the ids that edges lead to. -/
theorem mem_successors {g : Graph α} {a b : String} :
    b ∈ successors g.index a ↔ g.Follows a b := by
  simp only [successors, Index.outgoing_index, List.mem_map, List.mem_filter, beq_iff_eq,
    Graph.Follows]
  constructor
  · intro h
    obtain ⟨edge, ⟨hedge, hsource⟩, htarget⟩ := h
    exact ⟨edge, hedge, hsource, htarget⟩
  · intro h
    obtain ⟨edge, hedge, hsource, htarget⟩ := h
    exact ⟨edge, ⟨hedge, hsource⟩, htarget⟩

/-- Edges lead from nodes to nodes only. -/
theorem successors_closed (g : Graph α) :
    ∀ a ∈ g.index.nodes.map (·.id), ∀ b ∈ successors g.index a,
      b ∈ g.index.nodes.map (·.id) := by
  intro a _ b hb
  simpa [Graph.hasNode] using (mem_successors.1 hb).hasNode_right

/-- A vertex is on a cycle of the search when edges lead from it back to it. -/
theorem onCycle_successors_iff {g : Graph α} {id : String} :
    CycleSearch.OnCycle (successors g.index) id ↔ TransGen g.Follows id id := by
  have : (fun a b => b ∈ successors g.index a) = g.Follows := by
    funext a b
    exact propext mem_successors
  rw [CycleSearch.OnCycle, this]

/-- There is no cycle. -/
theorem errorFree_cycleFindings {g : Graph α} :
    ErrorFree (cycleFindings g.index) ↔ ¬g.HasCycle := by
  have hfind := CycleSearch.find?_eq_none_iff (successors_closed g)
  have hnone : ErrorFree (cycleFindings g.index) ↔
      CycleSearch.find? (successors g.index) (g.index.nodes.map (·.id)) = none := by
    rw [cycleFindings]
    split
    · rename_i h
      exact iff_of_true ErrorFree.nil h
    · rename_i id h
      rw [h]
      simp [ErrorFree]
  rw [hnone, hfind]
  constructor
  · rintro h ⟨id, hcycle⟩
    have hid : id ∈ g.index.nodes.map (·.id) := by
      simpa [Graph.hasNode] using Graph.hasNode_of_transGen hcycle
    exact h id hid (onCycle_successors_iff.2 hcycle)
  · intro h id _ hcycle
    exact h ⟨id, onCycle_successors_iff.1 hcycle⟩

/-- What is found about an edge is an error. -/
theorem isError_danglingFinding (index : Index α) (edge : Edge) :
    (danglingFinding index edge).isError = true := by
  rw [danglingFinding]
  split
  · rfl
  · split <;> rfl

/-- Every edge has both ends. -/
theorem errorFree_danglingFindings {g : Graph α} :
    ErrorFree (danglingFindings g.index) ↔ ∀ edge ∈ g.edges, g.resolves edge = true := by
  rw [danglingFindings, ErrorFree.map_iff]
  simp [isError_danglingFinding]

/-- No step identity comes twice, and none of those seen comes again. -/
theorem errorFree_duplicateFindings {seen : List String} {nodes : List (Node α)} :
    ErrorFree (duplicateFindings seen nodes) ↔
      (nodes.Pairwise fun a b => a.data.stepId = b.data.stepId → a.data.stepId = "") ∧
        ∀ node ∈ nodes, node.data.stepId ∈ seen → node.data.stepId = "" := by
  induction nodes generalizing seen with
  | nil => simp [duplicateFindings]
  | cons node rest ih =>
    simp only [duplicateFindings, List.pairwise_cons, List.forall_mem_cons]
    split
    · rename_i hempty
      have hempty : node.data.stepId = "" := by simpa using hempty
      simp [ih, hempty]
    · rename_i hempty
      have hempty : node.data.stepId ≠ "" := by simpa using hempty
      split
      · rename_i hseen
        simp [ErrorFree, hseen, hempty]
      · rename_i hseen
        rw [ih]
        simp only [List.mem_cons]
        grind

/-! ## What the findings are about -/

/-- What is found about a node by itself names the node. -/
theorem nodeId_of_mem_nodeFindings {node : Node α} {d : Diagnostic} (h : d ∈ nodeFindings node) :
    d.nodeId = some node.id := by
  rw [nodeFindings] at h
  split at h
  · rcases List.mem_append.1 h with h | h
    · rw [actionFindings] at h
      split at h
      · simp at h
      · rw [List.mem_singleton.1 h]
        rfl
    · simp only [inputFindings] at h
      split at h
      · simp at h
      · split at h
        · simp at h
        · rw [List.mem_singleton.1 h]
          rfl
  · simp only [conditionFindings] at h
    split at h
    · simp at h
    · rw [List.mem_singleton.1 h]
      rfl

/-- What is found about the paths of a node names the node. -/
theorem nodeId_of_mem_coverageFindings {coverage : Coverage} {index : Index α} {node : Node α}
    {d : Diagnostic} (h : d ∈ coverageFindings coverage index node) : d.nodeId = some node.id := by
  cases coverage <;> simp only [coverageFindings] at h <;> split at h
  · rw [List.mem_singleton.1 h]
    rfl
  · simp at h
  · simp at h
  · rw [List.mem_singleton.1 h]
    rfl

/-- What is found about the configuration names a node. -/
theorem nodeId_of_mem_configurationFindings {coverage : Coverage} {index : Index α}
    {d : Diagnostic} (h : d ∈ configurationFindings coverage index) :
    ∃ node ∈ index.nodes, d.nodeId = some node.id := by
  obtain ⟨node, hnode, h⟩ := List.mem_flatMap.1 h
  refine ⟨node, hnode, ?_⟩
  rcases List.mem_append.1 h with h | h
  · exact nodeId_of_mem_nodeFindings h
  · split at h
    · exact nodeId_of_mem_coverageFindings h
    · simp at h

/-- What is found about a cycle says that it is closed. -/
theorem eq_cycleClosed_of_mem_cycleFindings {index : Index α} {d : Diagnostic}
    (h : d ∈ cycleFindings index) : ∃ id name, d = cycleClosed id name := by
  rw [cycleFindings] at h
  split at h
  · simp at h
  · exact ⟨_, _, List.mem_singleton.1 h⟩

/-- What is found about an edge does not say that there is no start. -/
theorem danglingFinding_ne_noStart (index : Index α) (edge : Edge) :
    danglingFinding index edge ≠ noStart := by
  rw [danglingFinding]
  split
  · simp [noStart, Diagnostic.graphError, Diagnostic.error]
  · split
    · simp [noStart, Diagnostic.graphError, Diagnostic.error]
    · intro h
      have hfirst := congrArg (·.message.toList.head?) h
      simp [noStart, Diagnostic.graphError, toString] at hfirst

/-- What is found about step identities is an error about a node. -/
theorem eq_error_of_mem_duplicateFindings {seen : List String} {nodes : List (Node α)}
    {d : Diagnostic} (h : d ∈ duplicateFindings seen nodes) :
    ∃ node ∈ nodes, ∃ message, d = .error node.id message := by
  induction nodes generalizing seen with
  | nil => simp [duplicateFindings] at h
  | cons node rest ih =>
    have hrest : ∀ {seen}, d ∈ duplicateFindings seen rest →
        ∃ other ∈ node :: rest, ∃ message, d = .error other.id message := by
      intro seen h
      obtain ⟨other, hother, hmessage⟩ := ih h
      exact ⟨other, List.mem_cons_of_mem _ hother, hmessage⟩
    simp only [duplicateFindings] at h
    split at h
    · exact hrest h
    · split at h
      · rcases List.mem_cons.1 h with rfl | h
        · exact ⟨node, List.mem_cons_self, _, rfl⟩
        · exact hrest h
      · exact hrest h

end Validation

/-! ## The verdict -/

namespace Graph

/-- A graph that a validation accepts, if it has nodes: edges lead to no cycle, no node is wrong by
itself, and the optional checks hold. -/
structure IsSound (g : Graph α) (options : Options) : Prop where
  acyclic : ¬g.HasCycle
  configured : ∀ node ∈ g.nodes, classify node ≠ .error
  attached : options.rejectDangling = true → ∀ edge ∈ g.edges, g.resolves edge = true
  distinct : options.uniqueStepIds = true →
    g.nodes.Pairwise fun a b => a.data.stepId = b.data.stepId → a.data.stepId = ""

theorem isEmpty_eq_true_iff {g : Graph α} : g.isEmpty = true ↔ g.nodes = [] := by
  simp [isEmpty]

/-- Without a cycle there is a node to start at. -/
theorem startCandidates_ne_nil {g : Graph α} (hnodes : g.nodes ≠ []) (h : ¬g.HasCycle) :
    g.index.startCandidates ≠ [] := by
  obtain ⟨node, hnode, hno⟩ := exists_forall_target_ne h hnodes
  exact List.ne_nil_of_mem (Index.mem_startCandidates.2 (And.intro hnode hno))

/-- What is found in a graph with nodes is listed rule by rule. -/
theorem findings_eq_flatMap {g : Graph α} (hnodes : g.nodes ≠ []) (options : Options) :
    g.findings options = options.rules.flatMap (·.findings options.coverage g.index) := by
  rw [findings, if_neg (mt isEmpty_eq_true_iff.1 hnodes), report, List.flatMap_map]

/-- What is found in a graph with nodes is what its rules find. -/
theorem mem_findings {g : Graph α} {options : Options} (hnodes : g.nodes ≠ []) {d : Diagnostic} :
    d ∈ g.findings options ↔
      ∃ rule ∈ options.rules, d ∈ rule.findings options.coverage g.index := by
  rw [findings_eq_flatMap hnodes, List.mem_flatMap]

/-- A verdict is valid when it lists no errors. -/
theorem isValid_validate_iff_errors {g : Graph α} {options : Options} :
    (g.validate options).isValid = true ↔ (g.validate options).errors = [] := by
  rw [validate, Verdict.ofDiagnostics, List.isEmpty_iff]

/-- What graphs without nodes are does not matter for other graphs. -/
theorem validate_rejectEmpty {g : Graph α} (hnodes : g.nodes ≠ []) (options : Options)
    (reject : Bool) : g.validate { options with rejectEmpty := reject } = g.validate options := by
  rw [validate, validate, findings_eq_flatMap hnodes, findings_eq_flatMap hnodes]
  rfl

/-- No error is found in a graph with nodes exactly when no rule in force finds one. -/
theorem errorFree_findings {g : Graph α} {options : Options} (hnodes : g.nodes ≠ []) :
    ErrorFree (g.findings options) ↔
      ∀ rule ∈ options.rules, ErrorFree (rule.findings options.coverage g.index) := by
  simp only [ErrorFree, mem_findings hnodes]
  constructor
  · intro h rule hrule d hd
    exact h d ⟨rule, hrule, hd⟩
  · intro h d hmem
    obtain ⟨rule, hrule, hd⟩ := hmem
    exact h rule hrule d hd

/-- The rules in force: four always, and two by choice. -/
theorem forall_mem_rules {options : Options} {p : Rule → Prop} :
    (∀ rule ∈ options.rules, p rule) ↔
      (p .start ∧ p .configuration ∧ p .disconnected ∧ p .cycle) ∧
        (options.rejectDangling = true → p .dangling) ∧
          (options.uniqueStepIds = true → p .duplicate) := by
  cases hdangling : options.rejectDangling <;> cases hunique : options.uniqueStepIds <;>
    simp [Options.rules, hdangling, hunique, and_assoc]

/-- A graph with nodes has no error among its findings exactly when it is sound. -/
theorem errorFree_findings_iff_isSound {g : Graph α} {options : Options} (hnodes : g.nodes ≠ []) :
    ErrorFree (g.findings options) ↔ g.IsSound options := by
  rw [errorFree_findings hnodes, forall_mem_rules]
  simp only [Rule.findings, errorFree_startFindings, errorFree_configurationFindings,
    errorFree_disconnectedFindings, errorFree_cycleFindings, errorFree_danglingFindings,
    errorFree_duplicateFindings, Index.nodes_index]
  constructor
  · intro h
    obtain ⟨⟨_, hconfigured, _, hacyclic⟩, hattached, hdistinct⟩ := h
    exact ⟨hacyclic, hconfigured, hattached, fun h => (hdistinct h).1⟩
  · intro h
    exact ⟨⟨startCandidates_ne_nil hnodes h.acyclic, h.configured, trivial, h.acyclic⟩,
      h.attached, fun hunique => ⟨h.distinct hunique, by simp⟩⟩

/-- A graph without nodes has an error only where that is asked for. -/
theorem errorFree_findings_of_nil {g : Graph α} {options : Options} (hnodes : g.nodes = []) :
    ErrorFree (g.findings options) ↔ options.rejectEmpty = false := by
  rw [findings, if_pos (isEmpty_eq_true_iff.2 hnodes), emptyFindings]
  cases options.rejectEmpty <;> simp [ErrorFree]

/-- The finding that there is no start is made by the rule about starts only. -/
theorem startCandidates_eq_nil_of_noStart_mem {g : Graph α} {options : Options}
    (hnodes : g.nodes ≠ []) (h : noStart ∈ g.findings options) : g.index.startCandidates = [] := by
  obtain ⟨rule, _, hmem⟩ := (mem_findings hnodes).1 h
  cases rule with
  | start =>
    by_contra hstart
    have herror := errorFree_startFindings.2 hstart noStart hmem
    simp [noStart] at herror
  | configuration =>
    obtain ⟨node, _, hnode⟩ := nodeId_of_mem_configurationFindings hmem
    simp [noStart, Diagnostic.graphError] at hnode
  | disconnected =>
    have herror := errorFree_disconnectedFindings g.index noStart hmem
    simp [noStart] at herror
  | cycle =>
    obtain ⟨id, name, hcycle⟩ := eq_cycleClosed_of_mem_cycleFindings hmem
    simp [noStart, cycleClosed, Diagnostic.graphError, Diagnostic.error] at hcycle
  | dangling =>
    obtain ⟨edge, _, hedge⟩ := List.mem_map.1 hmem
    exact absurd hedge (danglingFinding_ne_noStart g.index edge)
  | duplicate =>
    obtain ⟨node, _, message, hnode⟩ := eq_error_of_mem_duplicateFindings hmem
    simp [noStart, Diagnostic.graphError, Diagnostic.error] at hnode

/-- A search for a cycle makes its finding where there is one. -/
theorem exists_cycleClosed_mem {g : Graph α} (options : Options) (hnodes : g.nodes ≠ [])
    (h : g.HasCycle) : ∃ id name, cycleClosed id name ∈ g.findings options := by
  have hfound : cycleFindings g.index ≠ [] := by
    intro hnil
    exact errorFree_cycleFindings.1 (by simp [hnil]) h
  obtain ⟨d, hd⟩ := List.exists_mem_of_ne_nil _ hfound
  obtain ⟨id, name, rfl⟩ := eq_cycleClosed_of_mem_cycleFindings hd
  exact ⟨id, name, (mem_findings hnodes).2 ⟨.cycle, by simp [Options.rules], hd⟩⟩

/-- A validation accepts a graph without nodes unless that is an error, and a graph with nodes
exactly when it is sound.  Where no start is found a cycle is found too, and how paths are checked
for edges decides nothing. -/
theorem isValid_validate_iff (g : Graph α) (options : Options) :
    (g.nodes = [] → ((g.validate options).isValid = true ↔ options.rejectEmpty = false)) ∧
      (g.nodes ≠ [] → ((g.validate options).isValid = true ↔ g.IsSound options)) ∧
      (g.nodes ≠ [] → noStart ∈ (g.validate options).errors →
        ∃ id name, cycleClosed id name ∈ (g.validate options).errors) ∧
      ∀ coverage, (g.validate { options with coverage := coverage }).isValid =
        (g.validate options).isValid := by
  have hnil : ∀ options, g.nodes = [] →
      ((g.validate options).isValid = true ↔ options.rejectEmpty = false) := by
    intro options hnodes
    rw [validate, isValid_ofDiagnostics, errorFree_findings_of_nil hnodes]
  have hsound : ∀ options, g.nodes ≠ [] →
      ((g.validate options).isValid = true ↔ g.IsSound options) := by
    intro options hnodes
    rw [validate, isValid_ofDiagnostics, errorFree_findings_iff_isSound hnodes]
  refine ⟨hnil options, hsound options, fun hnodes hstart => ?_, fun coverage => ?_⟩
  · simp only [validate, mem_errors_ofDiagnostics] at hstart ⊢
    have hcycle : g.HasCycle := by
      by_contra hacyclic
      exact startCandidates_ne_nil hnodes hacyclic
        (startCandidates_eq_nil_of_noStart_mem hnodes hstart.1)
    obtain ⟨id, name, hmem⟩ := exists_cycleClosed_mem options hnodes hcycle
    exact ⟨id, name, hmem, isError_cycleClosed id name⟩
  · rw [Bool.eq_iff_iff]
    by_cases hnodes : g.nodes = []
    · rw [hnil _ hnodes, hnil _ hnodes]
    · rw [hsound _ hnodes, hsound _ hnodes]
      exact ⟨fun h => ⟨h.acyclic, h.configured, h.attached, h.distinct⟩,
        fun h => ⟨h.acyclic, h.configured, h.attached, h.distinct⟩⟩

end Graph

end StepGraph
