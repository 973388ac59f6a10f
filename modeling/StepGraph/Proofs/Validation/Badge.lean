import Mathlib.Order.Basic
import StepGraph.Proofs.Validation.Validity

/-!
# Badges and verdicts

The badge of a node in a verdict is made from the findings that name its id, and the badge of a node
by itself from what shows in the node alone.  A verdict is the combination of both: the badge of an
id is the most severe of the badges of the nodes that have the id and of the findings about more
than a single node that name it.

There are four groups.

* The order of badges.  `Status.ofDiagnostics_le_iff` says that the badge of a list of findings is
  its maximum, whatever the order of the list.
* What findings name.  No rule names an id that no node has.
* The badge of an id.  `Graph.statusOf_le_iff` takes it apart.
* The verdict.  `Graph.badges_agree` says how diagnostics, badges and validity go together.
-/

namespace StepGraph

open Validation

variable {α : Type}

/-! ## The order of badges -/

namespace Status

/-- The badges from the least severe on. -/
def rank : Status → Nat
  | .valid => 0
  | .warning => 1
  | .error => 2

theorem rank_injective : Function.Injective rank := by
  intro a b h
  cases a <;> cases b <;> first | rfl | cases h

/-- A badge is below the more severe ones. -/
instance : PartialOrder Status := PartialOrder.lift rank rank_injective

theorem le_iff_rank_le {a b : Status} : a ≤ b ↔ a.rank ≤ b.rank := Iff.rfl

theorem valid_le (status : Status) : .valid ≤ status := Nat.zero_le _

/-- The more severe of two badges is the least that is as severe as both. -/
theorem worst_le_iff {a b status : Status} : worst a b ≤ status ↔ a ≤ status ∧ b ≤ status := by
  cases a <;> cases b <;> cases status <;> simp [worst, le_iff_rank_le, rank]

/-- The badge of findings is the least that is as severe as each of them. -/
theorem ofDiagnostics_le_iff {ds : List Diagnostic} {status : Status} :
    ofDiagnostics ds ≤ status ↔ ∀ d ∈ ds, ofSeverity d.severity ≤ status := by
  -- The search for the most severe one may have begun with any badge.
  suffices ∀ start : Status,
      ds.foldl (fun status d => worst status (ofSeverity d.severity)) start ≤ status ↔
        start ≤ status ∧ ∀ d ∈ ds, ofSeverity d.severity ≤ status by
    simpa [ofDiagnostics, valid_le] using this .valid
  induction ds with
  | nil => simp
  | cons d rest ih =>
    intro start
    rw [List.foldl_cons, ih, worst_le_iff, List.forall_mem_cons, and_assoc]

end Status

/-! ## What findings name -/

namespace Validation

/-- What is found about starts names no node. -/
theorem nodeId_of_mem_startFindings {index : Index α} {d : Diagnostic}
    (h : d ∈ startFindings index) : d.nodeId = none := by
  rw [startFindings] at h
  split at h
  · rw [List.mem_singleton.1 h]
    rfl
  · cases h
  · rw [List.mem_singleton.1 h]
    rfl

/-- What is found about a cycle names a node. -/
theorem hasNode_of_mem_cycleFindings {g : Graph α} {d : Diagnostic} {id : String}
    (h : d ∈ cycleFindings g.index) (hid : d.nodeId = some id) : g.hasNode id = true := by
  rw [cycleFindings] at h
  split at h
  · cases h
  · rename_i found hfound
    rw [List.mem_singleton.1 h] at hid
    cases hid
    simpa [Graph.hasNode] using
      (CycleSearch.onCycle_of_find?_eq_some (successors_closed g) hfound).1

/-- What is found about an edge names an end that is a node. -/
theorem hasNode_of_nodeId_danglingFinding {g : Graph α} {edge : Edge} {id : String}
    (hid : (danglingFinding g.index edge).nodeId = some id) : g.hasNode id = true := by
  rw [danglingFinding] at hid
  split at hid
  · rename_i hsource
    cases hid
    simpa using hsource
  · split at hid
    · rename_i htarget
      cases hid
      simpa using htarget
    · cases hid

end Validation

namespace Graph

/-- What is found about more than a single node: paths without edges, nodes without edges into them,
a cycle, edges without an end, and step identities that come twice. -/
def wideFindings (g : Graph α) (options : Options) : List Diagnostic :=
  (g.nodes.filter (·.isBranch)).flatMap (coverageFindings options.coverage g.index) ++
    disconnectedFindings g.index ++ cycleFindings g.index ++
    (if options.rejectDangling then danglingFindings g.index else []) ++
    (if options.uniqueStepIds then duplicateFindings [] g.nodes else [])

theorem mem_wideFindings {g : Graph α} {options : Options} {d : Diagnostic} :
    d ∈ g.wideFindings options ↔
      (∃ node ∈ g.nodes, node.isBranch = true ∧
        d ∈ coverageFindings options.coverage g.index node) ∨
      d ∈ disconnectedFindings g.index ∨ d ∈ cycleFindings g.index ∨
      (options.rejectDangling = true ∧ d ∈ danglingFindings g.index) ∨
      (options.uniqueStepIds = true ∧ d ∈ duplicateFindings [] g.nodes) := by
  cases hdangling : options.rejectDangling <;> cases hunique : options.uniqueStepIds <;>
    simp [wideFindings, hdangling, hunique, and_assoc]

/-- What is found about more than a single node names a node, if any id. -/
theorem hasNode_of_mem_wideFindings {g : Graph α} {options : Options} {d : Diagnostic}
    {id : String} (h : d ∈ g.wideFindings options) (hid : d.nodeId = some id) :
    g.hasNode id = true := by
  rcases mem_wideFindings.1 h with ⟨node, hnode, -, h⟩ | h | h | ⟨-, h⟩ | ⟨-, h⟩
  · rw [nodeId_of_mem_coverageFindings h] at hid
    cases hid
    exact List.any_eq_true.2 ⟨node, hnode, by simp⟩
  · obtain ⟨node, hnode, rfl⟩ := List.mem_map.1 h
    cases hid
    exact List.any_eq_true.2 ⟨node, (List.mem_filter.1 hnode).1, by simp⟩
  · exact hasNode_of_mem_cycleFindings h hid
  · obtain ⟨edge, -, rfl⟩ := List.mem_map.1 h
    exact hasNode_of_nodeId_danglingFinding hid
  · obtain ⟨node, hnode, message, rfl⟩ := eq_error_of_mem_duplicateFindings h
    cases hid
    exact List.any_eq_true.2 ⟨node, hnode, by simp⟩

/-- A rule in force is one of four, or one of the two by choice. -/
theorem exists_mem_rules {options : Options} {p : Rule → Prop} :
    (∃ rule ∈ options.rules, p rule) ↔
      p .start ∨ p .configuration ∨ p .disconnected ∨ p .cycle ∨
        (options.rejectDangling = true ∧ p .dangling) ∨
          (options.uniqueStepIds = true ∧ p .duplicate) := by
  cases hdangling : options.rejectDangling <;> cases hunique : options.uniqueStepIds <;>
    simp [Options.rules, hdangling, hunique]

/-- What is found in a graph with nodes is about a single node, or about more, or about starts. -/
theorem mem_findings_iff {g : Graph α} {options : Options} (hnodes : g.nodes ≠ [])
    {d : Diagnostic} :
    d ∈ g.findings options ↔
      (∃ node ∈ g.nodes, d ∈ nodeFindings node) ∨ d ∈ g.wideFindings options ∨
        d ∈ startFindings g.index := by
  have hconfiguration : d ∈ configurationFindings options.coverage g.index ↔
      (∃ node ∈ g.nodes, d ∈ nodeFindings node) ∨ ∃ node ∈ g.nodes, node.isBranch = true ∧
        d ∈ coverageFindings options.coverage g.index node := by
    simp only [configurationFindings, List.mem_flatMap, List.mem_append, List.mem_ite_nil_right,
      Index.nodes_index, and_or_left, exists_or]
  rw [mem_findings hnodes, exists_mem_rules, mem_wideFindings]
  simp only [Rule.findings, hconfiguration, Index.nodes_index]
  exact Iff.of_eq (by ac_rfl)

/-- What is found in a graph without nodes names no node. -/
theorem nodeId_of_mem_findings_of_nil {g : Graph α} {options : Options} (hnodes : g.nodes = [])
    {d : Diagnostic} (h : d ∈ g.findings options) : d.nodeId = none := by
  rw [findings, if_pos (isEmpty_eq_true_iff.2 hnodes), emptyFindings] at h
  split at h
  · rw [List.mem_singleton.1 h]
    rfl
  · cases h

/-! ## The badge of an id -/

theorem mem_diagnostics_validate {g : Graph α} {options : Options} {d : Diagnostic} :
    d ∈ (g.validate options).diagnostics ↔ d ∈ g.findings options := by
  rw [Verdict.diagnostics, List.mem_append, validate, errors_ofDiagnostics, warnings_ofDiagnostics,
    List.mem_filter, List.mem_filter, ← and_or_left]
  cases d.isError <;> simp

/-- A finding that names an id shows in a node that has the id, or is about more than a node. -/
theorem mem_findings_and_nodeId_iff {g : Graph α} {options : Options} {d : Diagnostic}
    {id : String} :
    d ∈ g.findings options ∧ d.nodeId = some id ↔
      (∃ node ∈ g.nodes, node.id = id ∧ d ∈ nodeFindings node) ∨
        (d ∈ g.wideFindings options ∧ d.nodeId = some id) := by
  by_cases hnodes : g.nodes = []
  · constructor
    · rintro ⟨h, hid⟩
      rw [nodeId_of_mem_findings_of_nil hnodes h] at hid
      cases hid
    · rintro (⟨node, hnode, -⟩ | ⟨h, hid⟩)
      · rw [hnodes] at hnode
        cases hnode
      · have hnode := hasNode_of_mem_wideFindings h hid
        rw [hasNode, hnodes] at hnode
        cases hnode
  · rw [mem_findings_iff hnodes]
    constructor
    · rintro ⟨⟨node, hnode, h⟩ | h | h, hid⟩
      · rw [nodeId_of_mem_nodeFindings h] at hid
        exact Or.inl ⟨node, hnode, Option.some.inj hid, h⟩
      · exact Or.inr ⟨h, hid⟩
      · rw [nodeId_of_mem_startFindings h] at hid
        cases hid
    · rintro (⟨node, hnode, rfl, h⟩ | ⟨h, hid⟩)
      · exact ⟨Or.inl ⟨node, hnode, h⟩, nodeId_of_mem_nodeFindings h⟩
      · exact ⟨Or.inr (Or.inl h), hid⟩

theorem mem_about_validate {g : Graph α} {options : Options} {d : Diagnostic} {id : String} :
    d ∈ (g.validate options).about id ↔ d ∈ g.findings options ∧ d.nodeId = some id := by
  rw [Verdict.about, List.mem_filter, mem_diagnostics_validate, beq_iff_eq]

/-- The badge of an id is the least that is as severe as the nodes that have the id, each by itself,
and as the findings about more than a single node that name it. -/
theorem statusOf_le_iff {g : Graph α} {options : Options} {id : String} {status : Status} :
    (g.validate options).statusOf id ≤ status ↔
      (∀ node ∈ g.nodes, node.id = id → classify node ≤ status) ∧
        ∀ d ∈ g.wideFindings options, d.nodeId = some id →
          Status.ofSeverity d.severity ≤ status := by
  simp only [Verdict.statusOf, classify, Status.ofDiagnostics_le_iff, mem_about_validate,
    mem_findings_and_nodeId_iff]
  constructor
  · intro h
    exact ⟨fun node hnode hid d hd => h d (Or.inl ⟨node, hnode, hid, hd⟩),
      fun d hd hid => h d (Or.inr ⟨hd, hid⟩)⟩
  · rintro ⟨hnodes, hwide⟩ d (⟨node, hnode, hid, hd⟩ | ⟨hd, hid⟩)
    · exact hnodes node hnode hid d hd
    · exact hwide d hd hid

/-! ## The verdict -/

/-- A finding that names an id names that of a node. -/
theorem exists_node_of_mem_findings {g : Graph α} {options : Options} {d : Diagnostic} {id : String}
    (h : d ∈ g.findings options) (hid : d.nodeId = some id) : ∃ node ∈ g.nodes, node.id = id := by
  rcases mem_findings_and_nodeId_iff.1 ⟨h, hid⟩ with ⟨node, hnode, hsame, -⟩ | ⟨hwide, -⟩
  · exact ⟨node, hnode, hsame⟩
  · simpa [hasNode] using hasNode_of_mem_wideFindings hwide hid

/-- A verdict is valid exactly when no error is about the graph as a whole and no node has the badge
of an error. -/
theorem isValid_validate_iff_statusOf {g : Graph α} {options : Options} :
    (g.validate options).isValid = true ↔
      (∀ d ∈ (g.validate options).errors, d.nodeId ≠ none) ∧
        ∀ node ∈ g.nodes, (g.validate options).statusOf node.id ≠ .error := by
  have hstatus : ∀ id, (g.validate options).statusOf id ≠ .error ↔
      ∀ d ∈ g.findings options, d.nodeId = some id → d.isError = false := by
    intro id
    simp only [Verdict.statusOf, ofDiagnostics_ne_error_iff, ErrorFree, mem_about_validate, and_imp]
  have herrors : ∀ d, d ∈ (g.validate options).errors ↔
      d ∈ g.findings options ∧ d.isError = true := fun d => mem_errors_ofDiagnostics
  simp only [hstatus, herrors]
  rw [validate, isValid_ofDiagnostics]
  constructor
  · intro h
    refine ⟨fun d hd => ?_, fun node _ d hd _ => h d hd⟩
    have hno := h d hd.1
    rw [hd.2] at hno
    cases hno
  · rintro ⟨hgraph, hnodes⟩ d hd
    by_contra herror
    rw [Bool.not_eq_false] at herror
    obtain ⟨id, hid⟩ := Option.ne_none_iff_exists'.1 (hgraph d ⟨hd, herror⟩)
    obtain ⟨node, hnode, rfl⟩ := exists_node_of_mem_findings hd hid
    rw [hnodes node hnode d hd hid] at herror
    cases herror

/-- Where an id is that of one node only, a node that has it is that node. -/
theorem eq_of_count_id_eq_one {g : Graph α} {node other : Node α} (hnode : node ∈ g.nodes)
    (hother : other ∈ g.nodes) (hcount : (g.nodes.map (·.id)).count node.id = 1)
    (hid : other.id = node.id) : other = node := by
  rw [List.count_eq_countP, List.countP_map, List.countP_eq_length_filter,
    List.length_eq_one_iff] at hcount
  obtain ⟨only, honly⟩ := hcount
  have hmem : ∀ n ∈ g.nodes, n.id = node.id → n = only := by
    intro n hn hsame
    have : n ∈ g.nodes.filter ((· == node.id) ∘ (·.id)) := List.mem_filter.2 ⟨hn, by simp [hsame]⟩
    rw [honly] at this
    exact List.mem_singleton.1 this
  rw [hmem other hother hid, hmem node hnode rfl]

/-- Every diagnostic that names an id names that of a node; a verdict is valid exactly when there is
no error about the graph as a whole and no node has the badge of an error; and the badge of a node
by itself is never more severe than that of its id.  The two are the same where no other node has
the id and nothing that is found about more than a single node names it. -/
theorem badges_agree (g : Graph α) (options : Options) :
    (∀ d ∈ (g.validate options).diagnostics, ∀ id, d.nodeId = some id →
        ∃ node ∈ g.nodes, node.id = id) ∧
      ((g.validate options).isValid = true ↔
        (∀ d ∈ (g.validate options).errors, d.nodeId ≠ none) ∧
          ∀ node ∈ g.nodes, (g.validate options).statusOf node.id ≠ .error) ∧
      ∀ node ∈ g.nodes,
        classify node ≤ (g.validate options).statusOf node.id ∧
          ((g.nodes.map (·.id)).count node.id = 1 →
            (∀ d ∈ g.wideFindings options, d.nodeId ≠ some node.id) →
              (g.validate options).statusOf node.id = classify node) := by
  refine ⟨fun d hd id hid => exists_node_of_mem_findings (mem_diagnostics_validate.1 hd) hid,
    isValid_validate_iff_statusOf, fun node hnode => ?_⟩
  have hle : classify node ≤ (g.validate options).statusOf node.id :=
    (statusOf_le_iff.1 le_rfl).1 node hnode rfl
  refine ⟨hle, fun hcount hwide => le_antisymm (statusOf_le_iff.2 ⟨?_, ?_⟩) hle⟩
  · intro other hother hid
    rw [eq_of_count_id_eq_one hnode hother hcount hid]
  · intro d hd hid
    exact absurd hid (hwide d hd)

/-- Two actions in a row, of which the second is not chosen yet.  Another edge leads nowhere. -/
def draftGraph : Graph Rat where
  nodes := [
    { id := "n1"
      kind := .action
      position := ⟨0, 0⟩
      data := { StepData.empty with label := "Send", stepId := "s1", actionId := some "send" } },
    { id := "n2"
      kind := .action
      position := ⟨0, 200⟩
      data := { StepData.empty with label := "Draft", stepId := "s2" } }]
  edges := [⟨"e1", "n1", "n2", none, none⟩, ⟨"e2", "n1", "n9", none, none⟩]

/-- The second action has the badge it has by itself, and the first has another: the edge that leads
nowhere is found about it. -/
theorem badges_agree_draftGraph :
    (∃ draft ∈ draftGraph.nodes, draft.id = "n2" ∧
      (draftGraph.nodes.map (·.id)).count draft.id = 1 ∧
      (∀ d ∈ draftGraph.wideFindings .strict, d.nodeId ≠ some draft.id) ∧
      (draftGraph.validate .strict).statusOf draft.id = classify draft ∧
      classify draft = .error) ∧
      ∃ send ∈ draftGraph.nodes, send.id = "n1" ∧ classify send = .valid ∧
        (draftGraph.validate .strict).statusOf send.id = .error := by
  constructor
  · refine ⟨_, List.mem_cons_of_mem _ List.mem_cons_self, rfl, by decide, by decide +kernel, ?_,
      by decide +kernel⟩
    exact ((draftGraph.badges_agree .strict).2.2 _
      (List.mem_cons_of_mem _ List.mem_cons_self)).2 (by decide) (by decide +kernel)
  · exact ⟨_, List.mem_cons_self, rfl, by decide +kernel, by decide +kernel⟩

end Graph

end StepGraph
