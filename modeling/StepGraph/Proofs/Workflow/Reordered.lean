import StepGraph.Proofs.Validation.CycleReport
import StepGraph.Proofs.Workflow.Steps

/-!
# Edges in another order

The order of the edges is seen in two places: the first edge out of an action leads to its next
step, and a search for a cycle follows edges in turn.  Everything else counts edges, or asks whether
there is one, or looks for the one at a handle.  So the same edges in another order give the same
warnings and as many errors, though the error about a cycle may name another node, and the steps of
branches and approvals stay where a handle has one edge at most.

There are four groups.

* `Graph.Reordered`, and what is looked up in both graphs.
* What each rule finds.  `tally` keeps the warnings and the number of errors.
* Links.  `Graph.HasDistinctHandles` makes the edge at a handle the only one.
* The result, `results_of_reordered`.
-/

namespace StepGraph

open Validation

variable {α : Type}

/-! ## Look-ups -/

/-- Graphs with the same nodes, and with the same edges in some order. -/
structure Graph.Reordered (g g' : Graph α) : Prop where
  nodes : g'.nodes = g.nodes
  edges : g.edges.Perm g'.edges

namespace Graph.Reordered

variable {g g' : Graph α} (h : g.Reordered g')

include h

theorem hasNode : g'.hasNode = g.hasNode := by
  funext id
  rw [Graph.hasNode, Graph.hasNode, h.nodes]

theorem resolves : g'.resolves = g.resolves := by
  funext edge
  rw [Graph.resolves, Graph.resolves, h.hasNode]

theorem resolvedEdges : g.resolvedEdges.Perm g'.resolvedEdges := by
  rw [Graph.resolvedEdges, Graph.resolvedEdges, h.resolves]
  exact h.edges.filter _

theorem outgoing (id : String) : (g.index.outgoing id).Perm (g'.index.outgoing id) := by
  rw [Index.outgoing_index, Index.outgoing_index]
  exact h.resolvedEdges.filter _

theorem incomingCount : g'.index.incomingCount = g.index.incomingCount := by
  funext id
  rw [Index.incomingCount_index, Index.incomingCount_index]
  exact (h.resolvedEdges.countP_eq _).symm

theorem startCandidates : g'.index.startCandidates = g.index.startCandidates := by
  rw [Index.startCandidates, Index.startCandidates, Index.nodes_index, Index.nodes_index, h.nodes,
    h.incomingCount]

theorem startNode? : g'.index.startNode? = g.index.startNode? := by
  rw [Index.startNode?, Index.startNode?, h.startCandidates]

theorem stepIdAt? : g'.stepIdAt? = g.stepIdAt? := by
  funext id
  rw [Graph.stepIdAt?, Graph.stepIdAt?, Graph.node?, Graph.node?, h.nodes]

/-- A handle has an edge in both graphs or in neither. -/
theorem isNone_edgeFromHandle? (id handle : String) :
    (g'.index.edgeFromHandle? id handle).isNone = (g.index.edgeFromHandle? id handle).isNone := by
  rw [Bool.eq_iff_iff]
  simp only [Index.edgeFromHandle?, Option.isNone_iff_eq_none, List.find?_eq_none,
    (h.outgoing id).mem_iff]

theorem follows : g'.Follows = g.Follows := by
  funext a b
  simp only [Follows, h.resolvedEdges.mem_iff]

theorem hasCycle_iff : g'.HasCycle ↔ g.HasCycle := by
  rw [HasCycle, HasCycle, h.follows]

end Graph.Reordered

/-! ## Findings -/

/-- The warnings among findings, and the number of errors. -/
def tally (ds : List Diagnostic) : List Diagnostic × Nat :=
  (ds.filter (!·.isError), ds.countP (·.isError))

/-- Findings that come in parts have the same tally where their parts do. -/
theorem tally_flatMap_congr {β : Type} {items : List β} {f f' : β → List Diagnostic}
    (h : ∀ b ∈ items, tally (f' b) = tally (f b)) :
    tally (items.flatMap f') = tally (items.flatMap f) := by
  induction items with
  | nil => rfl
  | cons b rest ih =>
    have hb := h b List.mem_cons_self
    have hrest := ih fun c hc => h c (List.mem_cons_of_mem b hc)
    simp only [tally, Prod.mk.injEq] at hb hrest
    simp only [tally, List.flatMap_cons, List.filter_append, List.countP_append, hb, hrest]

/-- Errors are only counted. -/
theorem tally_of_forall_isError {ds : List Diagnostic} (h : ∀ d ∈ ds, d.isError = true) :
    tally ds = ([], ds.length) := by
  rw [tally, List.filter_eq_nil_iff.2 fun d hd => by simp [h d hd], List.countP_eq_length.2 h]

/-- The number of findings about cycles does not depend on where a cycle is found. -/
theorem tally_cycleFindings_congr {g g' : Graph α} (h : g'.HasCycle ↔ g.HasCycle) :
    tally (cycleFindings g'.index) = tally (cycleFindings g.index) := by
  by_cases hcycle : g.HasCycle
  · obtain ⟨node, -, -, hfinding⟩ := cycleFindings_of_hasCycle hcycle
    obtain ⟨node', -, -, hfinding'⟩ := cycleFindings_of_hasCycle (h.2 hcycle)
    rw [hfinding, hfinding']
    rfl
  · rw [cycleFindings_of_not_hasCycle hcycle, cycleFindings_of_not_hasCycle (mt h.1 hcycle)]

namespace Graph.Reordered

variable {g g' : Graph α} (h : g.Reordered g')

include h

theorem unconnectedPaths_eq (node : Node α) :
    unconnectedPaths g'.index node = unconnectedPaths g.index node := by
  simp only [unconnectedPaths, h.isNone_edgeFromHandle?]

theorem coverageFindings_eq (coverage : Coverage) (node : Node α) :
    coverageFindings coverage g'.index node = coverageFindings coverage g.index node := by
  cases coverage with
  | count => simp only [coverageFindings, (h.outgoing node.id).length_eq]
  | perHandle => simp only [coverageFindings, h.unconnectedPaths_eq]

/-- Every rule finds the same warnings and as many errors. -/
theorem tally_findings_eq (coverage : Coverage) (rule : Rule) :
    tally (rule.findings coverage g'.index) = tally (rule.findings coverage g.index) := by
  cases rule with
  | start => simp only [Rule.findings, startFindings, h.startCandidates]
  | configuration =>
    simp only [Rule.findings, configurationFindings, Index.nodes_index, h.nodes,
      h.coverageFindings_eq]
  | disconnected =>
    simp only [Rule.findings, disconnectedFindings, Index.nodes_index, h.nodes, h.startNode?,
      h.incomingCount]
  | cycle => exact tally_cycleFindings_congr h.hasCycle_iff
  | dangling =>
    have herror : ∀ g : Graph α, ∀ d ∈ danglingFindings g.index, d.isError = true := by
      intro g d hd
      obtain ⟨edge, -, rfl⟩ := List.mem_map.1 hd
      exact isError_danglingFinding g.index edge
    have hlength : (danglingFindings g'.index).length = (danglingFindings g.index).length := by
      simp only [danglingFindings, Index.dangling_index, List.length_map, h.resolves]
      exact (h.edges.filter _).length_eq.symm
    rw [Rule.findings, Rule.findings, tally_of_forall_isError (herror g'),
      tally_of_forall_isError (herror g), hlength]
  | duplicate => simp only [Rule.findings, Index.nodes_index, h.nodes]

theorem tally_graphFindings_eq (options : Options) :
    tally (g'.findings options) = tally (g.findings options) := by
  by_cases hnodes : g.nodes = []
  · have hnodes' : g'.nodes = [] := h.nodes.trans hnodes
    rw [findings, findings, if_pos (isEmpty_eq_true_iff.2 hnodes),
      if_pos (isEmpty_eq_true_iff.2 hnodes')]
  · have hnodes' : g'.nodes ≠ [] := h.nodes ▸ hnodes
    rw [findings_eq_flatMap hnodes, findings_eq_flatMap hnodes']
    exact tally_flatMap_congr fun rule _ => h.tally_findings_eq options.coverage rule

end Graph.Reordered

/-! ## Links -/

namespace Graph

/-- No two resolved edges leave the same id through the same handle. -/
def HasDistinctHandles (g : Graph α) : Prop :=
  g.resolvedEdges.Pairwise fun a b =>
    a.source = b.source → a.sourceHandle = b.sourceHandle → a.sourceHandle = none

namespace Reordered

variable {g g' : Graph α} (h : g.Reordered g')

include h

/-- A handle with one edge at most leads to the same step. -/
theorem linkThrough?_eq (hdistinct : g.HasDistinctHandles) (id handle : String) :
    g'.linkThrough? id handle = g.linkThrough? id handle := by
  have hone : g.resolvedEdges.Pairwise fun a b =>
      (a.source == id && a.leavesThrough handle) = true →
        (b.source == id && b.leavesThrough handle) = false := by
    refine hdistinct.imp fun {a b} hab ha => Bool.eq_false_iff.2 fun hb => ?_
    simp only [Edge.leavesThrough, Bool.and_eq_true, beq_iff_eq] at ha hb
    rw [hab (ha.1.trans hb.1.symm) (ha.2.trans hb.2.symm)] at ha
    cases ha.2
  rw [linkThrough?, linkThrough?, firstLink?, firstLink?, h.stepIdAt?,
    find?_eq_of_perm h.resolvedEdges hone]

/-- The steps of branches and approvals do not depend on the first edge. -/
theorem stepFor_eq (hdistinct : g.HasDistinctHandles) {node : Node α}
    (hhandles : node.isBranch = true ∨ node.isApproval = true) :
    g'.stepFor node = g.stepFor node := by
  refine stepFor_congr_links (h.linkThrough?_eq hdistinct node.id) fun hkind happroval => ?_
  rcases hhandles with hbranch | happroves
  · simp [Node.isBranch, hkind] at hbranch
  · rw [happroval] at happroves
    cases happroves

end Reordered

/-! ## The result -/

/-- The same edges in another order give the same validity, the same warnings and as many errors.
The workflow has the same start, and the same steps of branches and approvals where no handle has
two resolved edges. -/
theorem results_of_reordered {g g' : Graph α} (h : g.Reordered g') (options : Options) :
    (g'.validate options).isValid = (g.validate options).isValid ∧
      (g'.validate options).warnings = (g.validate options).warnings ∧
      (g'.validate options).errors.length = (g.validate options).errors.length ∧
      ∀ workflowId verdict verdict', verdict.isValid = true → verdict'.isValid = true →
        ∃ w w', g.compile workflowId verdict = .ok w ∧ g'.compile workflowId verdict' = .ok w' ∧
          w'.start = w.start ∧
          (g.HasDistinctHandles → ∀ (slot : Nat) (node : Node α), g.nodes[slot]? = some node →
            node.isBranch = true ∨ node.isApproval = true →
              ∃ step, w.steps[slot]? = some step ∧ w'.steps[slot]? = some step) := by
  have htally := h.tally_graphFindings_eq options
  have hwarnings : (g'.validate options).warnings = (g.validate options).warnings := by
    rw [validate, validate, warnings_ofDiagnostics, warnings_ofDiagnostics]
    exact congrArg Prod.fst htally
  have herrors : (g'.validate options).errors.length = (g.validate options).errors.length := by
    rw [validate, validate, errors_ofDiagnostics, errors_ofDiagnostics,
      ← List.countP_eq_length_filter, ← List.countP_eq_length_filter]
    exact congrArg Prod.snd htally
  refine ⟨?_, hwarnings, herrors, fun workflowId verdict verdict' hvalid hvalid' => ?_⟩
  · rw [Bool.eq_iff_iff, isValid_validate_iff_errors, isValid_validate_iff_errors,
      ← List.length_eq_zero_iff, ← List.length_eq_zero_iff, herrors]
  · refine ⟨_, _, (g.compile_of_isValid workflowId hvalid).trans (g.workflow_eq_ok workflowId),
      (g'.compile_of_isValid workflowId hvalid').trans (g'.workflow_eq_ok workflowId), ?_,
      fun hdistinct slot node hnode hhandles => ⟨g.stepFor node, ?_, ?_⟩⟩
    · rw [← Index.startNode?_index, ← Index.startNode?_index, h.startNode?]
    · rw [List.getElem?_map, hnode, Option.map_some]
    · rw [h.nodes, List.getElem?_map, hnode, Option.map_some, h.stepFor_eq hdistinct hhandles]

/-- An action with two edges, before a branch and an approval that lead to each other.  An edge that
leads to no node leaves the branch through a handle that is in use. -/
def tangledGraph (edges : List Edge) : Graph Rat where
  nodes := [
    { id := "n1"
      kind := .action
      position := ⟨0, 0⟩
      data := { StepData.empty with label := "Start", stepId := "s1", actionId := some "begin" } },
    .fresh "n2" "s2" .branch ⟨0, 0⟩,
    { id := "n3"
      kind := .action
      position := ⟨0, 0⟩
      data := { StepData.empty with
        label := "Review"
        stepId := "s3"
        definition := some ⟨[], some ActionDefinition.approvalCategory⟩ } }]
  edges := edges

/-- The edges in one order. -/
def tangledEdges : List Edge := [
  ⟨"e1", "n1", "n2", none, none⟩,
  ⟨"e2", "n1", "n3", none, none⟩,
  ⟨"e3", "n2", "n9", some "branch-1", none⟩,
  ⟨"e4", "n2", "n3", some "branch-1", none⟩,
  ⟨"e5", "n3", "n2", some "reject", none⟩]

/-- The other way round, the cycle is found at another node, and the action leads to another
step. -/
theorem results_of_reordered_tangledGraph :
    ((tangledGraph tangledEdges.reverse).validate .strict).warnings =
        ((tangledGraph tangledEdges).validate .strict).warnings ∧
      ((tangledGraph tangledEdges.reverse).validate .strict).errors.length =
        ((tangledGraph tangledEdges).validate .strict).errors.length ∧
      ((tangledGraph tangledEdges.reverse).validate .strict).errors ≠
        ((tangledGraph tangledEdges).validate .strict).errors ∧
      ∃ w w', (tangledGraph tangledEdges).compile none ⟨true, [], []⟩ = .ok w ∧
        (tangledGraph tangledEdges.reverse).compile none ⟨true, [], []⟩ = .ok w' ∧
        (∃ split, w.steps[1]? = some split ∧ w'.steps[1]? = some split) ∧
        (∃ review, w.steps[2]? = some review ∧ w'.steps[2]? = some review) ∧
        w.steps[0]? ≠ w'.steps[0]? := by
  have hreordered : (tangledGraph tangledEdges).Reordered (tangledGraph tangledEdges.reverse) :=
    ⟨rfl, (List.reverse_perm tangledEdges).symm⟩
  have hdistinct : (tangledGraph tangledEdges).HasDistinctHandles := by
    unfold HasDistinctHandles
    decide +kernel
  obtain ⟨-, hwarnings, herrors, hcompile⟩ := results_of_reordered hreordered .strict
  obtain ⟨w, w', hw, hw', -, hsteps⟩ := hcompile none ⟨true, [], []⟩ ⟨true, [], []⟩ rfl rfl
  have hsteps := hsteps hdistinct
  refine ⟨hwarnings, herrors, by decide +kernel, w, w', hw, hw',
    hsteps 1 _ rfl (Or.inl (by decide)), hsteps 2 _ rfl (Or.inr (by decide)), ?_⟩
  rw [compile_of_isValid _ none rfl, workflow_eq_ok] at hw hw'
  cases hw
  cases hw'
  decide +kernel

end Graph

end StepGraph
