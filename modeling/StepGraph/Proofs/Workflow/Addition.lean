import StepGraph.Proofs.Editing.Target
import StepGraph.Proofs.Validation.Coverage

/-!
# The workflow of a graph with one more node

An edit that makes a node puts it at the end of the list and draws no edge to it.  The node does
enter the table of ids, and that table decides which edges lead nowhere; so an edge that named the
id beforehand would come to count.  Where there is none, every look-up gives what it gave, and the
workflow has one step more, from which nothing leads on.  This holds for copies too: what a node has
noted or configured about its successors is not compiled.

There are three groups.

* Look-ups in a graph with one more node.
* The steps.  `Workflow.Step.LeadsNowhere` is what is said of the new one.
* The result, `compile_added`.
-/

namespace StepGraph

variable {α : Type}

/-! ## Look-ups -/

namespace Graph

section Pushed

variable {g : Graph α} {node : Node α} (hends : ∀ edge ∈ g.edges, edge.touches node.id = false)

include hends

/-- No edge comes to count, or ceases to. -/
theorem resolvedEdges_pushNode : (g.pushNode node).resolvedEdges = g.resolvedEdges := by
  refine List.filter_congr fun edge hedge => ?_
  have htouches := hends edge hedge
  simp only [Edge.touches, Bool.or_eq_false_iff, beq_eq_false_iff_ne] at htouches
  have hsource : (node.id == edge.source) = false := beq_eq_false_iff_ne.2 htouches.1.symm
  have htarget : (node.id == edge.target) = false := beq_eq_false_iff_ne.2 htouches.2.symm
  simp [resolves, hasNode, pushNode, hsource, htarget]

/-- Every link leads where it led. -/
theorem firstLink?_pushNode (id : String) (p : Edge → Bool) :
    (g.pushNode node).firstLink? id p = g.firstLink? id p := by
  rw [firstLink?, firstLink?, resolvedEdges_pushNode hends]
  cases hfirst : g.resolvedEdges.find? fun edge => edge.source == id && p edge with
  | none => rfl
  | some edge =>
    obtain ⟨-, -, htarget⟩ := mem_resolvedEdges.1 (List.mem_of_find?_eq_some hfirst)
    exact stepIdAt?_pushNode htarget node

/-- No link leads on from the new node. -/
theorem firstLink?_pushNode_self (p : Edge → Bool) :
    (g.pushNode node).firstLink? node.id p = none := by
  rw [firstLink?_pushNode hends, firstLink?, List.find?_eq_none.2, Option.bind_none]
  intro edge hedge
  have htouches := hends edge (List.mem_filter.1 hedge).1
  simp only [Edge.touches, Bool.or_eq_false_iff] at htouches
  simp [htouches.1]

/-- A graph that had a start keeps it. -/
theorem firstStart?_pushNode (hstart : g.index.startCandidates ≠ []) :
    (g.pushNode node).firstStart? = g.firstStart? := by
  have hsome : g.firstStart?.isSome = true := by
    rw [← Index.startNode?_index, Index.startNode?, List.isSome_head?]
    simpa using hstart
  rw [firstStart?] at hsome
  rw [firstStart?, firstStart?, resolvedEdges_pushNode hends, pushNode, List.find?_append,
    Option.or_of_isSome hsome]

end Pushed

end Graph

/-! ## Steps -/

/-- Nothing is named to follow a step, whatever the kind of its node. -/
structure Workflow.Step.LeadsNowhere (step : Workflow.Step) (node : Node α) : Prop where
  next : step.next = none
  paths : node.isBranch = true → ∀ i, i < node.data.branches.length ↔ step.IsOpenAt i
  decisions : node.isApproval = true →
    step.config.get? onApproveKey = some .null ∧ step.config.get? onRejectKey = some .null

namespace Graph

section Pushed

variable {g : Graph α} {node : Node α} (hends : ∀ edge ∈ g.edges, edge.touches node.id = false)

include hends

theorem stepFor_pushNode (other : Node α) :
    (g.pushNode node).stepFor other = g.stepFor other :=
  stepFor_congr_links (fun _ => firstLink?_pushNode hends other.id _) fun _ _ =>
    firstLink?_pushNode hends other.id _

theorem leadsNowhere_stepFor : ((g.pushNode node).stepFor node).LeadsNowhere node := by
  have hlinks := firstLink?_pushNode_self hends
  have hstep := (g.pushNode node).isStepOf_stepFor node
  refine ⟨?_, fun hbranch i => ?_, fun happroval => ?_⟩
  · cases hkind : node.kind with
    | branch => exact (hstep.branch (by simp [Node.isBranch, hkind])).2.1
    | action =>
      cases happroval : node.isApproval with
      | true => exact (hstep.approval happroval).2.1
      | false =>
        rw [(hstep.linear (by simp [Node.isAction, hkind]) happroval).2.2, hlinks]
  · have hkind : node.kind = .branch := by simpa [Node.isBranch] using hbranch
    rw [stepFor, hkind]
    dsimp only
    rw [isOpenAt_branchStep, ← Index.handleTarget?_eq_none_iff, Index.handleTarget?_index]
    exact (and_iff_left (hlinks _)).symm
  · obtain ⟨-, -, happrove, hreject, -⟩ := hstep.approval happroval
    rw [happrove, hreject, linkThrough?, linkThrough?, hlinks, hlinks]
    exact ⟨rfl, rfl⟩

/-- The workflow of a graph with one more node has one more step. -/
theorem workflow_pushNode (hstart : g.index.startCandidates ≠ []) {workflowId : Option String}
    {w : Workflow} (hw : g.workflow workflowId = .ok w) :
    (g.pushNode node).workflow workflowId =
      .ok { w with steps := w.steps ++ [(g.pushNode node).stepFor node] } := by
  have hsteps : (g.pushNode node).stepFor = g.stepFor := funext (stepFor_pushNode hends)
  rw [workflow_eq_ok] at hw
  cases hw
  rw [workflow_eq_ok, firstStart?_pushNode hends hstart, hsteps, pushNode, List.map_append,
    List.map_singleton]

end Pushed

/-! ## The result -/

variable [Coordinate α]

/-- An edit that makes a node puts it at the end of the list, under the identities it is given. -/
theorem exists_pushNode_of_perform {g g' : Graph α} {edit : Edit α} {result : EditResult α}
    {newId newStepId : String} (hnew : edit.newNode? = some (newId, newStepId))
    (h : g.perform edit = .ok (result, g')) :
    ∃ node, result = .node node ∧ g' = g.pushNode node ∧ node.id = newId ∧
      node.data.stepId = newStepId := by
  cases edit with
  | addNode _ _ kind _ =>
    cases h
    cases hnew
    exact ⟨_, rfl, rfl, by cases kind <;> exact ⟨rfl, rfl⟩⟩
  | addNodeAtDefault _ _ kind _ =>
    cases h
    cases hnew
    exact ⟨_, rfl, rfl, by cases kind <;> exact ⟨rfl, rfl⟩⟩
  | duplicateNode _ _ id =>
    obtain ⟨_, hcopy, h⟩ := bind_eq_ok.1 h
    obtain ⟨node, -, hcopy⟩ := bind_eq_ok.1 hcopy
    cases hcopy
    cases h
    cases hnew
    exact ⟨_, rfl, rfl, rfl, rfl⟩
  | _ => cases hnew

/-- An edit that makes a node leaves the workflow as it was, up to one step more at its end, from
which nothing leads on.  There has to be a start, and no edge may have named the id before. -/
theorem compile_added {g g' : Graph α} {edit : Edit α} {result : EditResult α}
    {newId newStepId : String} (hstart : g.index.startCandidates ≠ [])
    (hnew : edit.newNode? = some (newId, newStepId))
    (hends : ∀ edge ∈ g.edges, edge.touches newId = false)
    (hperform : g.perform edit = .ok (result, g')) (workflowId : Option String)
    (verdict verdict' : Verdict) (hvalid : verdict.isValid = true)
    (hvalid' : verdict'.isValid = true) :
    ∃ node w step, result = .node node ∧ g'.nodes = g.nodes ++ [node] ∧ g'.edges = g.edges ∧
      g.compile workflowId verdict = .ok w ∧
      g'.compile workflowId verdict' = .ok { w with steps := w.steps ++ [step] } ∧
      step.stepId = newStepId ∧ step.LeadsNowhere node := by
  obtain ⟨node, rfl, rfl, rfl, rfl⟩ := exists_pushNode_of_perform hnew hperform
  obtain ⟨w, hw, -⟩ := g.exists_workflow_eq_ok workflowId
  refine ⟨node, w, (g.pushNode node).stepFor node, rfl, rfl, rfl, ?_, ?_, ?_,
    leadsNowhere_stepFor hends⟩
  · rw [compile_of_isValid g workflowId hvalid, hw]
  · rw [compile_of_isValid _ workflowId hvalid', workflow_pushNode hends hstart hw]
  · exact ((g.pushNode node).isStepOf_stepFor node).stepId

open Workflow.Step in
/-- A step before an approval and a branch.  The approval is configured to be followed by a step
that no node has, the branch has noted where its first path leads, and an edge leads to no node. -/
def linkedGraph : Graph Rat where
  nodes := [
    .fresh "n1" "s1" .action ⟨0, 0⟩,
    { id := "n2"
      kind := .action
      position := ⟨0, 0⟩
      data := { StepData.empty with
        label := "Review"
        stepId := "s2"
        definition := some ⟨[], some ActionDefinition.approvalCategory⟩
        config := .ofList [(onApproveKey, .str "s9"), ("user", .str "u1")] } },
    { id := "n3"
      kind := .branch
      position := ⟨0, 0⟩
      data := { StepData.empty with
        label := "Split"
        stepId := "s3"
        branches := [{ BranchPath.ofName "Path 1" with target := some "s2" }, .ofName "Path 2"] } }]
  edges := [
    ⟨"e1", "n1", "n2", none, none⟩,
    ⟨"e2", "n2", "n3", some "approve", none⟩,
    ⟨"e3", "n3", "n2", some "branch-0", none⟩,
    ⟨"e4", "n3", "n9", some "branch-1", none⟩]

/-- Nothing leads on from a copy of the approval, or from a copy of the branch. -/
theorem compile_added_linkedGraph :
    ∃ (review split : Node Rat) (reviewGraph splitGraph : Graph Rat) (w : Workflow)
        (reviewStep splitStep : Workflow.Step),
      linkedGraph.perform (.duplicateNode "n4" "s4" "n2") = .ok (.node review, reviewGraph) ∧
      linkedGraph.perform (.duplicateNode "n4" "s4" "n3") = .ok (.node split, splitGraph) ∧
      linkedGraph.compile none ⟨true, [], []⟩ = .ok w ∧
      reviewGraph.compile none ⟨true, [], []⟩ = .ok { w with steps := w.steps ++ [reviewStep] } ∧
      splitGraph.compile none ⟨true, [], []⟩ = .ok { w with steps := w.steps ++ [splitStep] } ∧
      review.isApproval = true ∧ reviewStep.LeadsNowhere review ∧
      split.isBranch = true ∧ splitStep.LeadsNowhere split := by
  have hstart : linkedGraph.index.startCandidates ≠ [] := by decide +kernel
  have hends : ∀ edge ∈ linkedGraph.edges, edge.touches "n4" = false := by decide
  obtain ⟨review, reviewGraph, hreview, happroval⟩ : ∃ node g,
      linkedGraph.perform (.duplicateNode "n4" "s4" "n2") = .ok (.node node, g) ∧
        node.isApproval = true := ⟨_, _, rfl, rfl⟩
  obtain ⟨split, splitGraph, hsplit, hbranch⟩ : ∃ node g,
      linkedGraph.perform (.duplicateNode "n4" "s4" "n3") = .ok (.node node, g) ∧
        node.isBranch = true := ⟨_, _, rfl, rfl⟩
  obtain ⟨_, w, reviewStep, hnode, -, -, hw, hreviewStep, -, hreviewLeads⟩ :=
    compile_added hstart rfl hends hreview none ⟨true, [], []⟩ ⟨true, [], []⟩ rfl rfl
  obtain ⟨_, w', splitStep, hnode', -, -, hw', hsplitStep, -, hsplitLeads⟩ :=
    compile_added hstart rfl hends hsplit none ⟨true, [], []⟩ ⟨true, [], []⟩ rfl rfl
  cases hnode
  cases hnode'
  obtain rfl : w = w' := by
    rw [hw] at hw'
    cases hw'
    rfl
  exact ⟨review, split, reviewGraph, splitGraph, w, reviewStep, splitStep, hreview, hsplit, hw,
    hreviewStep, hsplitStep, happroval, hreviewLeads, hbranch, hsplitLeads⟩

end Graph

end StepGraph
