import StepGraph.Proofs.Graph.Link
import StepGraph.Proofs.Validation.CycleSteps
import StepGraph.Proofs.Validation.Validity

/-!
# The report of a cycle

Where edges lead in a cycle, a validation has one error that says so, at a node on a cycle; where
they do not, it has none.  No other rule reports a cycle, since the errors of each rule begin with
texts of its own.

There are three groups.

* Texts.  `beginsWith_of_mem_findings` says how the errors of a rule begin, and
  `reportsCycle_iff` that it tells the reports of a cycle from all other errors.
* The finding.  `cycleFindings_of_hasCycle` says where it is made, and `filter_errors_validate` that
  a validation has it from one rule only.
* The result, `filter_reportsCycle_errors`, together with a bound for the search.
-/

namespace StepGraph

open Relation (TransGen)
open Validation

variable {α : Type} {g : Graph α}

/-! ## Texts -/

/-- How a report of a cycle begins. -/
def Validation.cycleStart : String := "Circular dependency detected"

/-- Whether a finding is an error that reports a cycle. -/
def Diagnostic.reportsCycle (d : Diagnostic) : Bool :=
  d.isError && cycleStart.toList.isPrefixOf d.message.toList

/-- How the errors of a rule begin. -/
def Validation.Rule.errorStarts : Rule → List String
  | .start => ["No starting node found"]
  | .configuration => ["No action selected", "Missing required fields: "]
  | .disconnected => []
  | .cycle => ["Circular dependency detected at \""]
  | .dangling => ["Connection points to missing step '", "Connection comes from missing step '",
      "Connection '"]
  | .duplicate => ["Duplicate step identifier '"]

namespace Validation

/-- Whether a text begins with one of the given ones. -/
def BeginsWith (message : String) (starts : List String) : Prop :=
  ∃ start ∈ starts, ∃ rest, message = start ++ rest

theorem beginsWith_of_mem_nodeFindings {node : Node α} {d : Diagnostic} (h : d ∈ nodeFindings node)
    (herror : d.isError = true) : BeginsWith d.message Rule.configuration.errorStarts := by
  rw [nodeFindings] at h
  split at h
  · rcases List.mem_append.1 h with h | h
    · rw [actionFindings] at h
      split at h
      · cases h
      · rw [List.mem_singleton.1 h]
        exact ⟨"No action selected", by simp [Rule.errorStarts], "", rfl⟩
    · simp only [inputFindings] at h
      split at h
      · cases h
      · split at h
        · cases h
        · rw [List.mem_singleton.1 h]
          exact ⟨"Missing required fields: ", by simp [Rule.errorStarts], _, rfl⟩
  · simp only [conditionFindings] at h
    split at h
    · cases h
    · rw [List.mem_singleton.1 h] at herror
      cases herror

theorem beginsWith_danglingFinding (index : Index α) (edge : Edge) :
    BeginsWith (danglingFinding index edge).message Rule.dangling.errorStarts := by
  rw [danglingFinding]
  split
  · exact ⟨"Connection points to missing step '", by simp [Rule.errorStarts], edge.target ++ "'",
      String.append_assoc⟩
  · split
    · exact ⟨"Connection comes from missing step '", by simp [Rule.errorStarts], edge.source ++ "'",
        String.append_assoc⟩
    · refine ⟨"Connection '", by simp [Rule.errorStarts],
        s!"{edge.id}' references missing steps '{edge.source}' and '{edge.target}'", ?_⟩
      simp [Diagnostic.graphError, String.append_assoc, toString]

theorem beginsWith_of_mem_duplicateFindings {seen : List String} {nodes : List (Node α)}
    {d : Diagnostic} (h : d ∈ duplicateFindings seen nodes) :
    BeginsWith d.message Rule.duplicate.errorStarts := by
  induction nodes generalizing seen with
  | nil => simp [duplicateFindings] at h
  | cons node rest ih =>
    simp only [duplicateFindings] at h
    split at h
    · exact ih h
    · split at h
      · rcases List.mem_cons.1 h with rfl | h
        · exact ⟨"Duplicate step identifier '", by simp [Rule.errorStarts],
            node.data.stepId ++ "'", String.append_assoc⟩
        · exact ih h
      · exact ih h

/-- The errors of a rule begin with its texts. -/
theorem beginsWith_of_mem_findings {coverage : Coverage} {rule : Rule} {d : Diagnostic}
    (h : d ∈ rule.findings coverage g.index) (herror : d.isError = true) :
    BeginsWith d.message rule.errorStarts := by
  cases rule with
  | start =>
    simp only [Rule.findings, startFindings] at h
    split at h
    · rw [List.mem_singleton.1 h]
      refine ⟨"No starting node found", by simp [Rule.errorStarts],
        ". All nodes have incoming connections, which creates a loop", ?_⟩
      decide
    · cases h
    · rw [List.mem_singleton.1 h] at herror
      cases herror
  | configuration =>
    obtain ⟨node, -, h⟩ := List.mem_flatMap.1 h
    rcases List.mem_append.1 h with h | h
    · exact beginsWith_of_mem_nodeFindings h herror
    · split at h
      · rw [errorFree_coverageFindings _ _ _ d h] at herror
        cases herror
      · cases h
  | disconnected =>
    rw [errorFree_disconnectedFindings g.index d h] at herror
    cases herror
  | cycle =>
    obtain ⟨id, name, rfl⟩ := eq_cycleClosed_of_mem_cycleFindings h
    exact ⟨"Circular dependency detected at \"", by simp [Rule.errorStarts], name ++ "\"",
      String.append_assoc⟩
  | dangling =>
    obtain ⟨edge, -, rfl⟩ := List.mem_map.1 h
    exact beginsWith_danglingFinding g.index edge
  | duplicate => exact beginsWith_of_mem_duplicateFindings h

/-- A text that no other rule's errors begin with tells the errors of a rule. -/
theorem rule_eq_of_prefix {target : Rule} {start : String}
    (honly : ∀ rule : Rule, ∀ text ∈ rule.errorStarts,
      start.toList <+: text.toList ∨ text.toList <+: start.toList → rule = target)
    {coverage : Coverage} {rule : Rule} {d : Diagnostic} (h : d ∈ rule.findings coverage g.index)
    (herror : d.isError = true) (hstart : start.toList <+: d.message.toList) : rule = target := by
  obtain ⟨text, htext, rest, hmessage⟩ := beginsWith_of_mem_findings h herror
  have hprefix : text.toList <+: d.message.toList := ⟨rest.toList, by simp [hmessage]⟩
  exact honly rule text htext (List.prefix_or_prefix_of_prefix hstart hprefix)

/-- Of the errors of a rule, those of the search for a cycle report one, and no others do. -/
theorem reportsCycle_iff {coverage : Coverage} {rule : Rule} {d : Diagnostic}
    (h : d ∈ rule.findings coverage g.index) (herror : d.isError = true) :
    d.reportsCycle = true ↔ rule = .cycle := by
  simp only [Diagnostic.reportsCycle, herror, Bool.true_and, List.isPrefixOf_iff_prefix]
  constructor
  · intro hcycle
    refine rule_eq_of_prefix (fun rule => ?_) h herror hcycle
    cases rule <;> decide
  · rintro rfl
    obtain ⟨id, name, rfl⟩ := eq_cycleClosed_of_mem_cycleFindings h
    have hstart : cycleStart.toList <+: "Circular dependency detected at \"".toList := by decide
    refine hstart.trans ⟨(name ++ "\"").toList, ?_⟩
    rw [← String.toList_append, ← String.append_assoc]
    rfl

/-! ## The finding -/

/-- Where edges lead in a cycle, the finding names a node on a cycle. -/
theorem cycleFindings_of_hasCycle (h : g.HasCycle) :
    ∃ node, g.node? node.id = some node ∧ TransGen g.Follows node.id node.id ∧
      cycleFindings g.index = [cycleClosed node.id node.displayName] := by
  have hfound : CycleSearch.find? (successors g.index) (g.index.nodes.map (·.id)) ≠ none := by
    intro hnone
    have herrors : ErrorFree (cycleFindings g.index) := by
      rw [cycleFindings, hnone]
      exact ErrorFree.nil
    exact errorFree_cycleFindings.1 herrors h
  obtain ⟨id, hid⟩ := Option.ne_none_iff_exists'.1 hfound
  obtain ⟨-, hcycle⟩ := CycleSearch.onCycle_of_find?_eq_some (successors_closed g) hid
  have htrans := onCycle_successors_iff.1 hcycle
  obtain ⟨node, hnode⟩ := Graph.exists_node?_of_hasNode (Graph.hasNode_of_transGen htrans)
  obtain rfl : node.id = id := by simpa using List.find?_some hnode
  refine ⟨node, hnode, htrans, ?_⟩
  rw [cycleFindings, hid]
  simp [hnode]

/-- Where edges lead in no cycle, there is no finding. -/
theorem cycleFindings_of_not_hasCycle (h : ¬g.HasCycle) : cycleFindings g.index = [] := by
  refine List.eq_nil_iff_forall_not_mem.2 fun d hd => ?_
  obtain ⟨id, name, rfl⟩ := eq_cycleClosed_of_mem_cycleFindings hd
  cases errorFree_cycleFindings.2 h _ hd

end Validation

namespace Graph

/-- The errors of a kind that one rule alone finds, and that is always in force, are found by that
rule. -/
theorem filter_errors_validate {p : Diagnostic → Bool} (hp : ∀ d, p d = true → d.isError = true)
    {target : Rule} (htarget : target ∈ Options.live.rules)
    (honly : ∀ (coverage : Coverage) (rule : Rule),
      ∀ d ∈ rule.findings coverage g.index, p d = true → rule = target)
    (options : Options) (hnodes : g.nodes ≠ []) :
    (g.validate options).errors.filter p =
      (target.findings options.coverage g.index).filter p := by
  have herrors : (g.validate options).errors.filter p = (g.findings options).filter p := by
    rw [validate, errors_ofDiagnostics, List.filter_filter]
    refine List.filter_congr fun d _ => ?_
    cases hd : p d with
    | false => rfl
    | true => rw [hp d hd, Bool.and_self]
  have hother : ∀ rule ≠ target, (rule.findings options.coverage g.index).filter p = [] :=
    fun rule hne => List.filter_eq_nil_iff.2 fun d hd hpd =>
      hne (honly options.coverage rule d hd hpd)
  rw [herrors, findings_eq_flatMap hnodes, List.filter_flatMap]
  have hlive : target = .start ∨ target = .configuration ∨ target = .disconnected ∨
      target = .cycle := by
    simpa [Options.rules, Options.live] using htarget
  rcases hlive with rfl | rfl | rfl | rfl <;> cases hdangling : options.rejectDangling <;>
    cases hunique : options.uniqueStepIds <;> simp [Options.rules, hdangling, hunique, hother]

/-- The errors that report a cycle are the findings of one rule. -/
theorem filter_reportsCycle_validate (options : Options) (hnodes : g.nodes ≠ []) :
    (g.validate options).errors.filter (·.reportsCycle) = cycleFindings g.index := by
  have herror : ∀ d : Diagnostic, d.reportsCycle = true → d.isError = true :=
    fun d hd => (Bool.and_eq_true_iff.1 hd).1
  have hlive : Rule.cycle ∈ Options.live.rules := by decide
  have hfilter := filter_errors_validate herror hlive
    (fun coverage rule d hd hreports => (reportsCycle_iff hd (herror d hreports)).1 hreports)
    options hnodes
  rw [hfilter]
  refine List.filter_eq_self.2 fun d hd => (reportsCycle_iff hd ?_).2 rfl
  obtain ⟨id, name, rfl⟩ := eq_cycleClosed_of_mem_cycleFindings hd
  rfl

/-! ## The result -/

/-- The work of a search is bounded by the size of the graph. -/
theorem work_start_le (g : Graph α) :
    (CycleSearch.State.start (g.nodes.map (·.id))).work (successors g.index) ≤
      2 * g.nodes.length + g.edges.length := by
  have hdistinct := nodup_eraseDups (g.nodes.map (·.id))
  have hfresh : CycleSearch.freshWork (successors g.index) (g.nodes.map (·.id)).eraseDups ≤ _ :=
    CycleSearch.freshWork_le Edge.source hdistinct g.resolvedEdges fun id _ => by
      rw [successors, Index.outgoing_index, List.length_map, List.countP_eq_length_filter]
  have hids := (hdistinct.subperm fun _ => List.mem_eraseDups.1).length_le
  have hedges : g.resolvedEdges.length ≤ g.edges.length := List.length_filter_le _ _
  rw [List.length_map] at hids
  simp only [CycleSearch.State.work, CycleSearch.State.start, CycleSearch.pathWork,
    List.length_map]
  omega

open CycleSearch (State Steps Ends) in
/-- A validation of a graph with nodes has one error that reports a cycle, at a node on a cycle, if
edges lead in one, and no such error otherwise.  The search behind it ends, it takes no more steps
than there are edges and twice as many nodes, and it expands no id twice. -/
theorem filter_reportsCycle_errors (g : Graph α) (options : Options) (hnodes : g.nodes ≠ []) :
    (¬g.HasCycle → (g.validate options).errors.filter (·.reportsCycle) = []) ∧
      (g.HasCycle → ∃ node, g.node? node.id = some node ∧ TransGen g.Follows node.id node.id ∧
        (g.validate options).errors.filter (·.reportsCycle) =
          [cycleClosed node.id node.displayName]) ∧
      (∃ n s, Steps (successors g.index) n (.start (g.nodes.map (·.id))) s ∧
        Ends s (CycleSearch.run (successors g.index) (g.nodes.map (·.id)))) ∧
      ∀ n s, Steps (successors g.index) n (.start (g.nodes.map (·.id))) s →
        n ≤ 2 * g.nodes.length + g.edges.length ∧ s.expanded.Nodup := by
  rw [filter_reportsCycle_validate options hnodes]
  refine ⟨fun hacyclic => ?_, cycleFindings_of_hasCycle, ?_, fun n s hsteps => ?_⟩
  · refine List.eq_nil_iff_forall_not_mem.2 fun d hd => ?_
    obtain ⟨id, name, rfl⟩ := eq_cycleClosed_of_mem_cycleFindings hd
    cases errorFree_cycleFindings.2 hacyclic _ hd
  · obtain ⟨n, s, hsteps, hends⟩ := CycleSearch.exists_steps_ends (successors g.index)
      (.start (g.nodes.map (·.id)))
    exact ⟨n, s, hsteps, CycleSearch.result_start (successors g.index) _ ▸ hends⟩
  · have hwork := hsteps.work_eq
    have hbound := g.work_start_le
    exact ⟨by omega, hsteps.nodup_expanded⟩

/-- A branch whose paths join again, with a step after it that may lead back.  An edge is left
over. -/
def loopGraph (back : List Edge) : Graph Rat where
  nodes := [
    .fresh "n1" "s1" .branch ⟨0, 0⟩,
    .fresh "n2" "s2" .branch ⟨0, 0⟩,
    .fresh "n3" "s3" .branch ⟨0, 0⟩,
    .fresh "n4" "s4" .branch ⟨0, 0⟩]
  edges := [
    ⟨"e1", "n1", "n2", some "branch-0", none⟩,
    ⟨"e2", "n1", "n3", some "branch-1", none⟩,
    ⟨"e3", "n2", "n4", none, none⟩,
    ⟨"e4", "n3", "n4", none, none⟩,
    ⟨"e5", "n4", "n9", none, none⟩] ++ back

/-- An edge from the last node back to a path. -/
def loopEdge : Edge := ⟨"e6", "n4", "n3", none, none⟩

/-- Paths that join again are no cycle, and an edge back to one of them closes one. -/
theorem filter_reportsCycle_loopGraph :
    ((loopGraph []).validate .live).errors.filter (·.reportsCycle) = [] ∧
      (∃ name, ((loopGraph [loopEdge]).validate .live).errors.filter (·.reportsCycle) =
        [cycleClosed "n3" name]) ∧ TransGen (loopGraph [loopEdge]).Follows "n3" "n3" := by
  obtain ⟨hnone, -⟩ := (loopGraph []).filter_reportsCycle_errors .live (by decide)
  obtain ⟨-, hcycle, -⟩ := (loopGraph [loopEdge]).filter_reportsCycle_errors .live (by decide)
  have hacyclic : ¬(loopGraph []).HasCycle := by
    have herrors : ∀ d ∈ cycleFindings (loopGraph []).index, d.isError = false := by decide +kernel
    exact errorFree_cycleFindings.1 herrors
  have hback : (loopGraph [loopEdge]).HasCycle := by
    refine ⟨"n3", .tail (.single ⟨⟨"e4", "n3", "n4", none, none⟩, ?_, rfl, rfl⟩)
      ⟨loopEdge, ?_, rfl, rfl⟩⟩ <;> decide
  obtain ⟨node, -, htrans, hreport⟩ := hcycle hback
  have hid : node.id = "n3" := by
    have hids : ∀ d ∈ ((loopGraph [loopEdge]).validate .live).errors, d.nodeId = some "n3" := by
      decide +kernel
    have hmem : cycleClosed node.id node.displayName ∈
        ((loopGraph [loopEdge]).validate .live).errors :=
      (List.mem_filter.1 (hreport ▸ List.mem_singleton_self _)).1
    exact Option.some.inj (hids _ hmem)
  exact ⟨hnone hacyclic, ⟨_, hid ▸ hreport⟩, hid ▸ htrans⟩

end Graph

end StepGraph
