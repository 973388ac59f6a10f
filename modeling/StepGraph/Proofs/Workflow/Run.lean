import StepGraph.Proofs.Validation.Validity
import StepGraph.Proofs.Workflow.Steps

/-!
# Running a workflow

A run of a workflow begins at its start and goes from step to step by the links that the steps hold:
the next step, the targets of the paths of a branch, the two successors of an approval.  A
validation looks for cycles among node ids, and a run follows step identities.  Where step
identities are distinct, each link leads to the step of the node that an edge leads to, so a run is
a walk along edges and never comes back to a step.

There are four groups.

* Links of a step, by the outcome that is chosen.
* Links and edges.  `exists_edge_of_link?` finds the edge behind a link.
* Runs.  `Graph.Leads` is the relation of a step to a step that a link of it leads to.
* Generated workflows.  `isTracedBy_of_generate` is the result.
-/

namespace StepGraph

open Relation (TransGen)
open Validation (Options)
open Workflow.Step

variable {α : Type}

/-! ## Links of a step -/

namespace Workflow

/-- What is decided when a step ends: nothing, a path of a branch, or the answer to an approval. -/
inductive Outcome where
  | done
  | path (index : Nat)
  | approved
  | rejected

/-- Whether an edge is one for an outcome. -/
def Outcome.takes : Outcome → Edge → Bool
  | .done, _ => true
  | .path index, edge => edge.leavesThrough (Handle.branch index)
  | .approved, edge => edge.leavesThrough Handle.approve
  | .rejected, edge => edge.leavesThrough Handle.reject

/-- The text that the configuration of a step has under a key. -/
def Step.configText? (step : Step) (key : String) : Option String :=
  (step.config.get? key).bind fun value => value.json.string?

/-- The step that a step leads to by an outcome. -/
def Step.link? (step : Step) : Outcome → Option String
  | .done => step.next
  | .path index => step.branchTarget? index
  | .approved => step.configText? onApproveKey
  | .rejected => step.configText? onRejectKey

end Workflow

open Workflow (Outcome)

/-- Whether the step of a node may end with an outcome. -/
def Node.offers (node : Node α) : Outcome → Bool
  | .done => true
  | .path _ => node.isBranch
  | .approved | .rejected => node.isApproval

namespace Graph

/-- The first resolved edge out of a node for an outcome. -/
def edgeFor? (g : Graph α) (node : Node α) (outcome : Outcome) : Option Edge :=
  g.resolvedEdges.find? fun edge => edge.source == node.id && outcome.takes edge

/-! ## Links and edges -/

theorem mem_and_source_of_edgeFor? {g : Graph α} {node : Node α} {outcome : Outcome} {edge : Edge}
    (h : g.edgeFor? node outcome = some edge) :
    edge ∈ g.resolvedEdges ∧ edge.source = node.id := by
  have hfound := List.find?_some h
  simp only [Bool.and_eq_true, beq_iff_eq] at hfound
  exact ⟨List.mem_of_find?_eq_some h, hfound.1⟩

theorem firstLink?_takes (g : Graph α) (node : Node α) (outcome : Outcome) :
    g.firstLink? node.id outcome.takes =
      (g.edgeFor? node outcome).bind fun edge => g.stepIdAt? edge.target := rfl

theorem configText?_of_get? {step : Workflow.Step} {key : String} {text : Option String}
    (h : step.config.get? key = some (.ofString? text)) : step.configText? key = text := by
  simp [Workflow.Step.configText?, h]

/-- What a step names as the next one is what the first edge out of its node leads to. -/
theorem IsStepOf.next_eq {g : Graph α} {node : Node α} {step : Workflow.Step}
    (h : g.IsStepOf node step) {t : String} (ht : step.next = some t) :
    g.firstLink? node.id Outcome.done.takes = some t := by
  by_cases happroval : node.isApproval = true
  · obtain ⟨_, hnone, _⟩ := h.approval happroval
    rw [hnone] at ht
    cases ht
  · cases hkind : node.kind with
    | branch =>
      obtain ⟨_, hnone, _⟩ := h.branch (beq_iff_eq.2 hkind)
      rw [hnone] at ht
      cases ht
    | action =>
      have hlinear := h.linear (beq_iff_eq.2 hkind) (Bool.eq_false_iff.2 happroval)
      exact hlinear.2.2.symm.trans ht

/-- A link of a step is what the edge of its node for the outcome leads to. -/
theorem IsStepOf.firstLink?_of_link? {g : Graph α} {node : Node α} {step : Workflow.Step}
    (h : g.IsStepOf node step) {outcome : Outcome} (hoffers : node.offers outcome = true)
    {t : String} (ht : step.link? outcome = some t) :
    g.firstLink? node.id outcome.takes = some t := by
  cases outcome with
  | done => exact h.next_eq ht
  | path i =>
    obtain ⟨_, _, _, hread⟩ := h.branch hoffers
    have ht : step.branchTarget? i = some t := ht
    rw [hread] at ht
    split at ht
    · exact ht
    · cases ht
  | approved =>
    obtain ⟨_, _, happrove, _⟩ := h.approval hoffers
    exact (configText?_of_get? happrove).symm.trans ht
  | rejected =>
    obtain ⟨_, _, _, hreject, _⟩ := h.approval hoffers
    exact (configText?_of_get? hreject).symm.trans ht

/-- Behind a link is an edge that resolves, and the link names the step of the node that it leads
to. -/
theorem exists_edge_of_link? {g : Graph α} {node : Node α} {step : Workflow.Step}
    (h : g.IsStepOf node step) {outcome : Outcome} (hoffers : node.offers outcome = true)
    {t : String} (ht : step.link? outcome = some t) :
    ∃ edge target, g.edgeFor? node outcome = some edge ∧ edge ∈ g.resolvedEdges ∧
      edge.source = node.id ∧ g.node? edge.target = some target ∧ target.data.stepId = t := by
  have hlink := h.firstLink?_of_link? hoffers ht
  rw [firstLink?_takes] at hlink
  obtain ⟨edge, hedge, hstep⟩ := Option.bind_eq_some_iff.1 hlink
  obtain ⟨target, htarget, hid⟩ := Option.map_eq_some_iff.1 hstep
  obtain ⟨hmem, hsource⟩ := mem_and_source_of_edgeFor? hedge
  exact ⟨edge, target, hedge, hmem, hsource, htarget, hid⟩

/-! ## Runs -/

/-- A link of the first step leads to the second. -/
def Leads (g : Graph α) (w : Workflow) (a b : Workflow.Step) : Prop :=
  ∃ node outcome t, (node, a) ∈ g.nodes.zip w.steps ∧ node.offers outcome = true ∧
    a.link? outcome = some t ∧ w.step? t = some b

section Compiled

variable {g : Graph α} {w : Workflow}

theorem mem_zip_map {β γ : Type} {f : β → γ} {items : List β} {b : β} {c : γ} :
    (b, c) ∈ items.zip (items.map f) ↔ b ∈ items ∧ c = f b := by
  rw [← List.map_id items, List.map_map, List.zip_map']
  simp [eq_comm]

/-- Where step identities are distinct, the identity of a node finds its step. -/
theorem step?_eq_some (hids : (g.nodes.map (·.data.stepId)).Nodup)
    (hsteps : w.steps = g.nodes.map g.stepFor) {node : Node α} (hnode : node ∈ g.nodes) :
    w.step? node.data.stepId = some (g.stepFor node) := by
  cases hfound : w.step? node.data.stepId with
  | none =>
    have hmem : g.stepFor node ∈ w.steps := hsteps ▸ List.mem_map_of_mem hnode
    have hne := List.find?_eq_none.1 hfound _ hmem
    simp [(g.isStepOf_stepFor node).stepId] at hne
  | some step =>
    have hmem : step ∈ g.nodes.map g.stepFor := hsteps ▸ List.mem_of_find?_eq_some hfound
    obtain ⟨other, hother, rfl⟩ := List.mem_map.1 hmem
    have hsame : other.data.stepId = node.data.stepId := by
      simpa [(g.isStepOf_stepFor other).stepId] using List.find?_some hfound
    rw [List.inj_on_of_nodup_map hids hother hnode hsame]

/-- Where step identities are distinct, a step belongs to one node. -/
theorem eq_of_mem_zip (hids : (g.nodes.map (·.data.stepId)).Nodup)
    (hsteps : w.steps = g.nodes.map g.stepFor) {a b : Node α} {step : Workflow.Step}
    (ha : (a, step) ∈ g.nodes.zip w.steps) (hb : (b, step) ∈ g.nodes.zip w.steps) : a = b := by
  rw [hsteps] at ha hb
  obtain ⟨haMem, rfl⟩ := mem_zip_map.1 ha
  obtain ⟨hbMem, hsame⟩ := mem_zip_map.1 hb
  have hidentity := congrArg (·.stepId) hsame
  simp only [(g.isStepOf_stepFor _).stepId] at hidentity
  exact List.inj_on_of_nodup_map hids haMem hbMem hidentity

/-- A link leads to the step of the node that its edge leads to. -/
theorem exists_target_of_link? (hids : (g.nodes.map (·.data.stepId)).Nodup)
    (hsteps : w.steps = g.nodes.map g.stepFor) {node : Node α} {step : Workflow.Step}
    (hnode : (node, step) ∈ g.nodes.zip w.steps) {outcome : Outcome}
    (hoffers : node.offers outcome = true) {t : String} (ht : step.link? outcome = some t) :
    ∃ edge target next, g.edgeFor? node outcome = some edge ∧ edge ∈ g.resolvedEdges ∧
      edge.source = node.id ∧ g.node? edge.target = some target ∧
      (target, next) ∈ g.nodes.zip w.steps ∧ w.step? t = some next := by
  rw [hsteps] at hnode
  obtain ⟨_, rfl⟩ := mem_zip_map.1 hnode
  obtain ⟨edge, target, hedge, hmem, hsource, htarget, rfl⟩ :=
    exists_edge_of_link? (g.isStepOf_stepFor node) hoffers ht
  have htargetMem : target ∈ g.nodes := List.mem_of_find?_eq_some htarget
  refine ⟨edge, target, g.stepFor target, hedge, hmem, hsource, htarget, ?_,
    step?_eq_some hids hsteps htargetMem⟩
  rw [hsteps]
  exact mem_zip_map.2 ⟨htargetMem, rfl⟩

/-- Where a link leads, an edge leads. -/
theorem exists_follows_of_leads (hids : (g.nodes.map (·.data.stepId)).Nodup)
    (hsteps : w.steps = g.nodes.map g.stepFor) {a b : Workflow.Step} (h : g.Leads w a b)
    {node : Node α} (hnode : (node, a) ∈ g.nodes.zip w.steps) :
    ∃ target, (target, b) ∈ g.nodes.zip w.steps ∧ g.Follows node.id target.id := by
  obtain ⟨source, outcome, t, hsource, hoffers, ht, hb⟩ := h
  obtain ⟨edge, target, next, _, hmem, hedge, htarget, hnext, hstep⟩ :=
    exists_target_of_link? hids hsteps hsource hoffers ht
  have hid : target.id = edge.target := by simpa using List.find?_some htarget
  have hsame : source = node := eq_of_mem_zip hids hsteps hsource hnode
  obtain rfl : next = b := Option.some.inj (hstep.symm.trans hb)
  exact ⟨target, hnext, edge, hmem, hsame ▸ hedge, hid.symm⟩

/-- Where links lead in the end, edges lead. -/
theorem exists_transGen_follows (hids : (g.nodes.map (·.data.stepId)).Nodup)
    (hsteps : w.steps = g.nodes.map g.stepFor) {a b : Workflow.Step}
    (h : TransGen (g.Leads w) a b) {node : Node α} (hnode : (node, a) ∈ g.nodes.zip w.steps) :
    ∃ target, (target, b) ∈ g.nodes.zip w.steps ∧ TransGen g.Follows node.id target.id := by
  induction h with
  | single hab =>
    obtain ⟨target, htarget, hfollows⟩ := exists_follows_of_leads hids hsteps hab hnode
    exact ⟨target, htarget, TransGen.single hfollows⟩
  | tail _ hbc ih =>
    obtain ⟨middle, hmiddle, hbefore⟩ := ih
    obtain ⟨target, htarget, hfollows⟩ := exists_follows_of_leads hids hsteps hbc hmiddle
    exact ⟨target, htarget, hbefore.tail hfollows⟩

/-- Without a cycle of edges there is no cycle of links. -/
theorem not_transGen_leads (hids : (g.nodes.map (·.data.stepId)).Nodup)
    (hsteps : w.steps = g.nodes.map g.stepFor) (hacyclic : ¬g.HasCycle) (step : Workflow.Step) :
    ¬TransGen (g.Leads w) step step := by
  intro hcycle
  obtain ⟨_, ⟨node, _, _, hnode, _⟩, _⟩ := TransGen.head'_iff.1 hcycle
  obtain ⟨target, htarget, hfollows⟩ := exists_transGen_follows hids hsteps hcycle hnode
  obtain rfl := eq_of_mem_zip hids hsteps hnode htarget
  exact hacyclic ⟨_, hfollows⟩

/-- What holds at the first item of a chain and after each step of it holds throughout. -/
theorem forall_mem_of_isChain {β : Type} {r : β → β → Prop} {p : β → Prop} {items : List β}
    (hchain : items.IsChain r) (hhead : ∀ b, items.head? = some b → p b)
    (hstep : ∀ a b, r a b → p b) : ∀ b ∈ items, p b := by
  induction items with
  | nil => simp
  | cons first rest ih =>
    intro b hb
    rcases List.mem_cons.1 hb with rfl | hb
    · exact hhead b rfl
    · refine ih hchain.tail (fun c hc => ?_) b hb
      cases rest with
      | nil => cases hc
      | cons second _ =>
        obtain rfl : second = c := Option.some.inj hc
        exact hstep first second (List.isChain_cons_cons.1 hchain).1

/-- A chain of a relation without cycles visits nothing twice. -/
theorem nodup_of_isChain {β : Type} {r : β → β → Prop} (hacyclic : ∀ b, ¬TransGen r b b)
    {items : List β} (hchain : items.IsChain r) : items.Nodup := by
  have hpairwise : items.Pairwise (TransGen r) :=
    List.isChain_iff_pairwise.1 (hchain.imp fun _ _ h => TransGen.single h)
  refine hpairwise.imp fun {a b} hab hsame => ?_
  rw [hsame] at hab
  exact hacyclic b hab

/-- A run visits each step once at most, so it is no longer than the list of steps. -/
theorem run_nodup_and_length_le (hacyclic : ∀ step, ¬TransGen (g.Leads w) step step)
    {run : List Workflow.Step} (hchain : run.IsChain (g.Leads w))
    (hhead : ∀ step, run.head? = some step → step ∈ w.steps) :
    run.Nodup ∧ run.length ≤ w.steps.length := by
  have hnodup := nodup_of_isChain hacyclic hchain
  have hmem : ∀ step ∈ run, step ∈ w.steps := by
    refine forall_mem_of_isChain hchain hhead fun a b hab => ?_
    obtain ⟨_, _, _, _, _, _, hb⟩ := hab
    exact List.mem_of_find?_eq_some hb
  exact ⟨hnodup, (hnodup.subperm hmem).length_le⟩

end Compiled

/-! ## Generated workflows -/

/-- A workflow is generated from a graph with nodes and without a cycle. -/
theorem generate_eq_ok {g : Graph α} {workflowId : Option String} {options : Options}
    {w : Workflow} (h : g.generate workflowId options = .ok w) :
    g.nodes ≠ [] ∧ ¬g.HasCycle ∧ w.start = (g.firstStart?.map (·.data.stepId)).getD "" ∧
      w.steps = g.nodes.map g.stepFor := by
  obtain ⟨hnodes, hvalid, hw⟩ := generate_eq_ok_iff.1 h
  rw [validate, isValid_ofDiagnostics, errorFree_findings_iff_isSound hnodes] at hvalid
  rw [workflow_eq_ok] at hw
  cases hw
  exact ⟨hnodes, hvalid.acyclic, rfl, rfl⟩

/-- Without a cycle there is a node to start at. -/
theorem exists_firstStart? {g : Graph α} (hnodes : g.nodes ≠ []) (hacyclic : ¬g.HasCycle) :
    ∃ node ∈ g.nodes, g.firstStart? = some node := by
  cases hstart : g.firstStart? with
  | some node => exact ⟨node, List.mem_of_find?_eq_some hstart, rfl⟩
  | none =>
    obtain ⟨node, hnode, hno⟩ := exists_forall_target_ne hacyclic hnodes
    have hsome := List.find?_eq_none.1 hstart node hnode
    simp only [List.all_eq_true, bne_iff_ne, ne_eq] at hsome
    exact absurd hno hsome

/-- Runs of a workflow are walks along the edges of a graph. -/
structure IsTracedBy (w : Workflow) (g : Graph α) : Prop where
  /-- The start is the step of the first node without an edge into it. -/
  start : ∃ node step, g.firstStart? = some node ∧ (node, step) ∈ g.nodes.zip w.steps ∧
    w.step? w.start = some step
  /-- A link leads to the step of the node that the edge for the outcome leads to. -/
  links : ∀ node step outcome t, (node, step) ∈ g.nodes.zip w.steps →
    node.offers outcome = true → step.link? outcome = some t →
    ∃ edge target next, g.edgeFor? node outcome = some edge ∧ edge ∈ g.resolvedEdges ∧
      edge.source = node.id ∧ g.node? edge.target = some target ∧
      (target, next) ∈ g.nodes.zip w.steps ∧ w.step? t = some next
  acyclic : ∀ step, ¬TransGen (g.Leads w) step step
  /-- Whatever the outcomes, a run visits each step once at most and comes to its end. -/
  runs : ∀ run : List Workflow.Step, run.head? = w.step? w.start → run.IsChain (g.Leads w) →
    run.Nodup ∧ run.length ≤ w.steps.length

/-- Runs of a workflow that is generated from a graph with distinct step identities are walks along
the edges of the graph. -/
theorem isTracedBy_of_generate (g : Graph α) (workflowId : Option String) (options : Options)
    (w : Workflow) (hids : (g.nodes.map (·.data.stepId)).Nodup)
    (hw : g.generate workflowId options = .ok w) : IsTracedBy w g := by
  obtain ⟨hnodes, hacyclic, hstart, hsteps⟩ := generate_eq_ok hw
  obtain ⟨first, hfirst, hfound⟩ := exists_firstStart? hnodes hacyclic
  have hstep : w.step? w.start = some (g.stepFor first) := by
    rw [hstart, hfound]
    exact step?_eq_some hids hsteps hfirst
  have hleads := not_transGen_leads hids hsteps hacyclic
  exact {
    start := ⟨first, g.stepFor first, hfound, hsteps ▸ mem_zip_map.2 ⟨hfirst, rfl⟩, hstep⟩
    links := fun _ _ _ _ hnode hoffers ht => exists_target_of_link? hids hsteps hnode hoffers ht
    acyclic := hleads
    runs := fun run hhead hchain => by
      refine run_nodup_and_length_le hleads hchain fun step hrun => ?_
      rw [hhead] at hrun
      exact List.mem_of_find?_eq_some hrun }

/-- A branch before an approval that already names a successor.  Two nodes share the id of the
approval, and the first edge of the branch leads to no node. -/
def sharedGraph : Graph Nat where
  nodes := [
    { id := "n1"
      kind := .branch
      position := ⟨0, 0⟩
      data := { StepData.empty with
        stepId := "s1", branches := [.ofName "Path 1", .ofName "Path 2"] } },
    { id := "n2"
      kind := .action
      position := ⟨0, 0⟩
      data := { StepData.empty with
        stepId := "s2"
        actionId := some "ask"
        definition := some ⟨[], some ActionDefinition.approvalCategory⟩
        config := .ofList [(onRejectKey, .str "s1")] } },
    { id := "n2"
      kind := .action
      position := ⟨0, 0⟩
      data := { StepData.empty with stepId := "s4", actionId := some "log" } },
    { id := "n3"
      kind := .action
      position := ⟨0, 0⟩
      data := { StepData.empty with stepId := "s3", actionId := some "send" } }]
  edges := [
    ⟨"e1", "n1", "n9", some "branch-0", none⟩,
    ⟨"e2", "n1", "n2", some "branch-0", none⟩,
    ⟨"e3", "n1", "n3", some "branch-1", none⟩,
    ⟨"e4", "n2", "n3", some "approve", none⟩]

theorem isTracedBy_sharedGraph :
    ∃ w, sharedGraph.generate none .live = .ok w ∧ IsTracedBy w sharedGraph ∧ w.start = "s1" ∧
      (w.step? "s1").bind (·.link? (.path 0)) = some "s2" ∧
      (w.step? "s2").bind (·.link? .approved) = some "s3" ∧
      (w.step? "s2").bind (·.link? .rejected) = none ∧
      (w.step? "s4").bind (·.link? .done) = some "s3" := by
  have hw : sharedGraph.generate none .live = sharedGraph.workflow none := by
    rw [generate, if_neg (by decide), compile_of_isValid _ _ (by decide +kernel)]
  rw [workflow_eq_ok] at hw
  have hids : (sharedGraph.nodes.map (·.data.stepId)).Nodup := by decide
  refine ⟨_, hw, isTracedBy_of_generate _ _ _ _ hids hw, ?_, ?_, ?_, ?_, ?_⟩
  · decide +kernel
  · decide +kernel
  · decide +kernel
  · decide +kernel
  · decide +kernel

end Graph

end StepGraph
