import StepGraph.Proofs.Editing.Origin
import StepGraph.Proofs.Validation.Configured

/-!
# Edits of valid graphs

In a valid graph most edits can do no harm: they add no way along edges, leave actions configured,
and make no step identity come twice.  The exceptions are known beforehand.  A new action is not
configured, choosing an action clears what was configured, and a connection may close a cycle, which
it does exactly when its source could be reached from its target.  One more comes from validation
itself: a graph without nodes is accepted with any edges, so its first node may make old edges
count.

There are four groups.

* Nodes.  What an edit makes of a configured node is configured.
* Step identities.
* Ways along edges.  Only a connection adds one.
* Verdicts.  `Graph.IsAccepted` is what a valid graph has, with or without nodes, and
  `isValid_validate_perform` is the result.
-/

namespace StepGraph

open Relation (ReflTransGen)
open Validation

variable {α : Type}

/-! ## Nodes -/

/-- Whether an edit can do no harm to a valid graph.  A new action is not configured yet, and one
that is chosen anew is not either; a connection may close a cycle. -/
def Edit.isHarmless : Edit α → Bool
  | .addNode _ _ kind _ | .addNodeAtDefault _ _ kind _ => kind == .branch
  | .duplicateNode .. | .removeNode _ | .moveNode .. | .disconnect _ | .setConfigValue ..
  | .addBranchPath .. | .removeBranchPath .. | .arrange => true
  | .connect .. | .setAction .. => false

/-- Whether an edit leaves actions configured: those without harm do, and connections too. -/
def Edit.keepsActions (edit : Edit α) : Bool := edit.isHarmless || edit.newLink?.isSome

/-- What an edit that leaves actions configured makes of a node is as right by itself as the
node. -/
theorem Node.Becomes.classify_ne_error {edit : Edit α} {node node' : Node α}
    (h : node.Becomes edit node') (hedit : edit.keepsActions = true)
    (hnode : classify node ≠ .error) : classify node' ≠ .error := by
  rw [classify_ne_error_iff] at hnode ⊢
  cases h with
  | same | placed => exact hnode
  | copied | forgot | noted | extended | shortened =>
    exact fun hkind => (hnode hkind).of_eq rfl rfl rfl
  | acting id actionId definition _ hkind => cases hedit
  | configured id key value _ hkind => exact fun _ => (hnode hkind).insert key value

/-- A new branch node is right by itself, and no other is new after an edit that leaves actions
configured. -/
theorem Edit.classify_fresh_ne_error {edit : Edit α} {kind : NodeKind}
    (hkind : edit.newKind? = some kind) (hedit : edit.keepsActions = true) (id stepId : String)
    (position : Point α) :
    classify (Node.fresh id stepId kind position) ≠ .error := by
  have hbranch : kind = .branch := by
    cases edit <;> simp_all [Edit.newKind?, Edit.keepsActions, Edit.isHarmless, Edit.newLink?]
  rw [classify_ne_error_iff, hbranch]
  intro hkind
  cases hkind

namespace Graph

/-! ## Step identities -/

/-- No two nodes share a step identity, apart from those that have none. -/
def HasDistinctSteps (g : Graph α) : Prop :=
  g.nodes.Pairwise fun a b => a.data.stepId = b.data.stepId → a.data.stepId = ""

theorem hasDistinctSteps_iff {g : Graph α} :
    g.HasDistinctSteps ↔ g.identities.Pairwise fun a b => a.stepId = b.stepId → a.stepId = "" := by
  rw [identities, List.pairwise_map]
  rfl

/-- An edit makes no step identity come twice. -/
theorem HasDistinctSteps.rerouted {g g' : Graph α} {edit : Edit α} (hg : g.HasDistinctSteps)
    (hfresh : g.isFresh edit = true) (h : g.Rerouted edit g') : g'.HasDistinctSteps := by
  rw [hasDistinctSteps_iff] at hg ⊢
  rcases h.identities_cases with ⟨identity, hnew, h⟩ | ⟨id, h⟩ | h
  · rw [h, List.pairwise_append]
    refine ⟨hg, List.pairwise_singleton _ _, fun a ha b hb hsame => ?_⟩
    rw [List.mem_singleton.1 hb] at hsame
    exact absurd hsame (ne_of_isFresh hfresh hnew ha).2
  · rw [h]
    exact hg.sublist List.eraseP_sublist
  · rwa [h]

/-! ## Ways along edges -/

/-- An edit that makes a node gives it a step identity that no node has, and an id that no node and
no end of an edge has. -/
def isUnused (g : Graph α) (edit : Edit α) : Bool :=
  g.isFresh edit && edit.newNode?.all fun (id, _) => !g.edges.any (·.touches id)

section Ways

variable {g g' : Graph α} {edit : Edit α}

theorem isFresh_of_isUnused (h : g.isUnused edit = true) : g.isFresh edit = true :=
  (Bool.and_eq_true_iff.1 h).1

/-- No edge has the id of a new node at an end. -/
theorem ne_of_isUnused {id stepId : String} (h : g.isUnused edit = true)
    (hnew : edit.newNode? = some (id, stepId)) {edge : Edge} (hedge : edge ∈ g.edges) :
    edge.source ≠ id ∧ edge.target ≠ id := by
  have hunused := (Bool.and_eq_true_iff.1 h).2
  simp only [hnew, Option.all_some, Bool.not_eq_true', List.any_eq_false, Edge.touches,
    Bool.or_eq_true, beq_iff_eq, not_or] at hunused
  exact hunused edge hedge

/-- An id after an edit is that of the new node or was there. -/
theorem Rerouted.hasNode_cases (h : g.Rerouted edit g') {id : String} (hid : g'.hasNode id = true) :
    (∃ stepId, edit.newNode? = some (id, stepId)) ∨ g.hasNode id = true := by
  rw [hasNode_eq_any, List.any_eq_true] at hid ⊢
  obtain ⟨identity, hidentity, hkey⟩ := hid
  rcases h.identities_cases with ⟨new, hnew, h⟩ | ⟨removed, h⟩ | h
  · rw [h] at hidentity
    rcases List.mem_append.1 hidentity with hold | hold
    · exact Or.inr ⟨identity, hold, hkey⟩
    · rw [List.mem_singleton.1 hold] at hkey
      exact Or.inl ⟨new.stepId, by rw [hnew, beq_iff_eq.1 hkey]⟩
  · exact Or.inr ⟨identity, List.mem_of_mem_eraseP (h ▸ hidentity), hkey⟩
  · exact Or.inr ⟨identity, h ▸ hidentity, hkey⟩

/-- An edge that comes to have both ends had them before. -/
theorem Rerouted.resolves_of_mem (h : g.Rerouted edit g') (hunused : g.isUnused edit = true)
    {edge : Edge} (hedge : edge ∈ g.edges) (hends : g'.resolves edge = true) :
    g.resolves edge = true := by
  have hend : ∀ id, (edge.source = id ∨ edge.target = id) → g'.hasNode id = true →
      g.hasNode id = true := by
    intro id hid hnode
    refine (h.hasNode_cases hnode).resolve_left ?_
    rintro ⟨stepId, hnew⟩
    obtain ⟨hsource, htarget⟩ := ne_of_isUnused hunused hnew hedge
    exact hid.elim hsource htarget
  obtain ⟨hsource, htarget⟩ := Bool.and_eq_true_iff.1 hends
  exact Bool.and_eq_true_iff.2
    ⟨hend _ (Or.inl rfl) hsource, hend _ (Or.inr rfl) htarget⟩

/-- No edit but a connection leads where no edge led. -/
theorem Rerouted.follows_of_follows (h : g.Rerouted edit g') (hunused : g.isUnused edit = true)
    (hlink : edit.newLink? = none) {a b : String} (hab : g'.Follows a b) : g.Follows a b := by
  obtain ⟨edge, hedge, rfl, rfl⟩ := hab
  obtain ⟨hmem, hends⟩ := List.mem_filter.1 hedge
  obtain ⟨old, hold, hsource, htarget⟩ := (h.mem_edges_cases hmem).resolve_right (by simp [hlink])
  have hresolves : g.resolves old = true := by
    refine h.resolves_of_mem hunused hold ?_
    rwa [resolves, hsource, htarget]
  exact ⟨old, List.mem_filter.2 ⟨hold, hresolves⟩, hsource, htarget⟩

/-- The graph with those of its edges that another graph has too. -/
def keptIn (g g' : Graph α) : Graph α := { g with edges := g.edges.filter (· ∈ g'.edges) }

theorem follows_of_keptIn {a b : String} (h : (g.keptIn g').Follows a b) : g.Follows a b := by
  obtain ⟨edge, hedge, hends⟩ := h
  obtain ⟨hmem, hresolves⟩ := List.mem_filter.1 hedge
  exact ⟨edge, List.mem_filter.2 ⟨(List.mem_filter.1 hmem).1, hresolves⟩, hends⟩

variable [Coordinate α]

/-- A connection joins two nodes by its edge, beside some of the edges that were there. -/
theorem Edited.of_connect {newId source target : String} {handle : Option String}
    (h : g.Edited (.connect newId source target handle) g') :
    g'.identities = g.identities ∧ g.resolves ⟨newId, source, target, handle, none⟩ = true ∧
      ∃ beside : List Edge, beside.Sublist g.edges ∧
        g'.edges = beside ++ [⟨newId, source, target, handle, none⟩] := by
  cases h with
  | connect _ _ _ _ sourceNode targetNode hsource htarget hne hnew hrange =>
    exact ⟨identities_noteTarget g source _ _,
      Bool.and_eq_true_iff.2 ⟨hasNode_of_node? hsource, hasNode_of_node? htarget⟩, _,
      sublist_edgesBeside _ _ _, rfl⟩

/-- After a connection, edges lead where those lead that it keeps, and from its source to its
target. -/
theorem Edited.follows_iff_of_connect {newId source target : String} {handle : Option String}
    (h : g.Edited (.connect newId source target handle) g') (a b : String) :
    g'.Follows a b ↔ (g.keptIn g').Follows a b ∨ a = source ∧ b = target := by
  obtain ⟨hidentities, hnew, beside, hbeside, hedges⟩ := h.of_connect
  have hresolves : ∀ edge, g'.resolves edge = g.resolves edge :=
    congrFun (resolves_congr hidentities)
  constructor
  · rintro ⟨edge, hedge, rfl, rfl⟩
    obtain ⟨hmem, hends⟩ := List.mem_filter.1 hedge
    rcases List.mem_append.1 (hedges ▸ hmem) with hold | hadded
    · have hkept : edge ∈ (g.keptIn g').edges :=
        List.mem_filter.2 ⟨hbeside.mem hold, decide_eq_true hmem⟩
      exact Or.inl ⟨edge, List.mem_filter.2 ⟨hkept, hresolves edge ▸ hends⟩, rfl, rfl⟩
    · rw [List.mem_singleton.1 hadded]
      exact Or.inr ⟨rfl, rfl⟩
  · rintro (⟨edge, hedge, hends⟩ | ⟨rfl, rfl⟩)
    · obtain ⟨hkept, hold⟩ := List.mem_filter.1 hedge
      have hmem : edge ∈ g'.edges := of_decide_eq_true (List.mem_filter.1 hkept).2
      exact ⟨edge, List.mem_filter.2 ⟨hmem, (hresolves edge).trans hold⟩, hends⟩
    · have hmem : (⟨newId, a, b, handle, none⟩ : Edge) ∈ g'.edges := by simp [hedges]
      exact ⟨_, List.mem_filter.2 ⟨hmem, (hresolves _).trans hnew⟩, rfl, rfl⟩

end Ways

/-! ## Verdicts -/

/-- What a graph has that a validation accepts where graphs without nodes are no errors.  Of the
edges of a graph without nodes nothing is asked. -/
structure IsAccepted (g : Graph α) (options : Options) : Prop where
  acyclic : ¬g.HasCycle
  configured : ∀ node ∈ g.nodes, classify node ≠ .error
  attached : options.rejectDangling = true → g.nodes ≠ [] → g.IsAttached
  distinct : options.uniqueStepIds = true → g.HasDistinctSteps

theorem isValid_iff_isAccepted {g : Graph α} {options : Options}
    (hempty : options.rejectEmpty = false) :
    (g.validate options).isValid = true ↔ g.IsAccepted options := by
  rw [validate, isValid_ofDiagnostics]
  by_cases hnodes : g.nodes = []
  · rw [errorFree_findings_of_nil hnodes]
    refine iff_of_true hempty ⟨?_, ?_, fun _ hne => absurd hnodes hne, ?_⟩
    · rintro ⟨id, hcycle⟩
      simpa [hasNode, hnodes] using hasNode_of_transGen hcycle
    · simp [hnodes]
    · simp [HasDistinctSteps, hnodes]
  · rw [errorFree_findings_iff_isSound hnodes]
    exact ⟨fun h => ⟨h.acyclic, h.configured, fun hreject _ => h.attached hreject, h.distinct⟩,
      fun h => ⟨h.acyclic, h.configured, fun hreject => h.attached hreject hnodes, h.distinct⟩⟩

/-- Whether an edit adds the first node to a graph whose edges lead nowhere, where such edges are
errors.  Without a node they were not looked at. -/
def exposesDangling (g : Graph α) (options : Options) (edit : Edit α) : Bool :=
  options.rejectDangling && g.isEmpty && !g.edges.isEmpty && edit.newKind?.isSome

section Step

variable [Coordinate α] {g g' : Graph α} {edit : Edit α} {options : Options}

/-- An edit that makes a fresh node adds it, and does nothing else. -/
theorem Edited.exists_eq_pushNode {kind : NodeKind} (h : g.Edited edit g')
    (hkind : edit.newKind? = some kind) :
    ∃ node, edit.newNode? = some (node.id, node.data.stepId) ∧ g' = g.pushNode node := by
  cases h with
  | addNode newId newStepId kind position => exact ⟨_, by cases kind <;> rfl, rfl⟩
  | addNodeAtDefault newId newStepId kind viewCentre => exact ⟨_, by cases kind <;> rfl, rfl⟩
  | _ => cases hkind

/-- Nodes come from nodes, unless they are fresh. -/
theorem Edited.nodes_eq_nil (h : g.Edited edit g') (hkind : edit.newKind? = none)
    (hnodes : g.nodes = []) : g'.nodes = [] := by
  refine List.eq_nil_iff_forall_not_mem.2 fun node hnode => ?_
  rcases h.mem_nodes_cases hnode with ⟨_, _, _, _, hnew, _⟩ | ⟨old, hold, _⟩
  · rw [hkind] at hnew
    cases hnew
  · rw [hnodes] at hold
    cases hold

/-- Edges stay attached, unless they were not attached before and a first node makes them count. -/
theorem Edited.attached_iff (h : g.Edited edit g') (hunused : g.isUnused edit = true)
    (hg : options.rejectDangling = true → g.nodes ≠ [] → g.IsAttached) :
    (options.rejectDangling = true → g'.nodes ≠ [] → g'.IsAttached) ↔
      g.exposesDangling options edit = false := by
  by_cases hnodes : g.nodes = []
  · cases hkind : edit.newKind? with
    | none =>
      refine iff_of_true (fun _ hne => ?_) (by simp [exposesDangling, hkind])
      exact absurd (h.nodes_eq_nil hkind hnodes) hne
    | some kind =>
      obtain ⟨node, hnew, rfl⟩ := h.exists_eq_pushNode hkind
      have hedges : (g.pushNode node).IsAttached ↔ g.edges = [] := by
        refine ⟨fun hattached => ?_, fun hnil => ?_⟩
        · refine List.eq_nil_iff_forall_not_mem.2 fun edge hedge => ?_
          have hends := h.rerouted.resolves_of_mem hunused hedge (hattached edge hedge)
          simp [resolves, hasNode, hnodes] at hends
        · simp [IsAttached, pushNode, hnil]
      rw [hedges]
      simp [exposesDangling, isEmpty, pushNode, hnodes, hkind]
  · have hsafe : g.exposesDangling options edit = false := by
      simp [exposesDangling, isEmpty, hnodes]
    exact iff_of_true (fun hreject _ => (hg hreject hnodes).rerouted h.rerouted) hsafe

/-- An edit that leaves actions configured leaves all nodes right by themselves. -/
theorem Edited.configured (h : g.Edited edit g') (hedit : edit.keepsActions = true)
    (hg : ∀ node ∈ g.nodes, classify node ≠ .error) :
    ∀ node ∈ g'.nodes, classify node ≠ .error := by
  intro node hnode
  rcases h.mem_nodes_cases hnode with
    ⟨id, stepId, kind, position, hkind, rfl⟩ | ⟨old, hold, hbecomes⟩
  · exact Edit.classify_fresh_ne_error hkind hedit id stepId position
  · exact hbecomes.classify_ne_error hedit (hg old hold)

/-- An edit without harm is accepted, unless it makes old edges count. -/
theorem IsAccepted.edited_iff (hg : g.IsAccepted options) (h : g.Edited edit g')
    (hunused : g.isUnused edit = true) (hharmless : edit.isHarmless = true) :
    g'.IsAccepted options ↔ g.exposesDangling options edit = false := by
  have hlink : edit.newLink? = none := by
    cases edit <;> first | rfl | cases hharmless
  have hacyclic : ¬g'.HasCycle := by
    refine mt (HasCycle.mono fun a b => ?_) hg.acyclic
    exact h.rerouted.follows_of_follows hunused hlink
  have hconfigured : ∀ node ∈ g'.nodes, classify node ≠ .error :=
    h.configured (by simp [Edit.keepsActions, hharmless]) hg.configured
  have hdistinct : options.uniqueStepIds = true → g'.HasDistinctSteps := fun hunique =>
    (hg.distinct hunique).rerouted (isFresh_of_isUnused hunused) h.rerouted
  rw [← h.attached_iff hunused hg.attached]
  exact ⟨fun h => h.attached, fun hattached => ⟨hacyclic, hconfigured, hattached, hdistinct⟩⟩

/-- A connection is accepted unless its source could be reached from its target. -/
theorem IsAccepted.connected_iff {newId source target : String} {handle : Option String}
    (hg : g.IsAccepted options) (h : g.Edited (.connect newId source target handle) g') :
    g'.IsAccepted options ↔ ¬ReflTransGen (g.keptIn g').Follows target source := by
  have hunused : g.isUnused (.connect newId source target handle) = true := rfl
  have hkept : ¬(g.keptIn g').HasCycle :=
    mt (HasCycle.mono fun _ _ => follows_of_keptIn) hg.acyclic
  rw [← hasCycle_iff_reflTransGen hkept h.follows_iff_of_connect]
  refine ⟨fun h => h.acyclic, fun hacyclic => ⟨hacyclic, h.configured rfl hg.configured, ?_, ?_⟩⟩
  · exact (h.attached_iff hunused hg.attached).2 (by simp [exposesDangling, Edit.newKind?])
  · exact fun hunique => (hg.distinct hunique).rerouted (isFresh_of_isUnused hunused) h.rerouted

/-- Where graphs without nodes are no errors, an edit without harm keeps a graph valid, unless it
adds the first node where edges are left over that count as errors; and a connection does exactly
when its source cannot be reached from its target along the edges that it keeps. -/
theorem isValid_validate_perform {result : EditResult α} (hempty : options.rejectEmpty = false)
    (hvalid : (g.validate options).isValid = true) (hunused : g.isUnused edit = true)
    (hperform : g.perform edit = .ok (result, g')) :
    (edit.isHarmless = true →
      (g'.validate options).isValid = !g.exposesDangling options edit) ∧
    ∀ newId source target handle, edit = .connect newId source target handle →
      ((g'.validate options).isValid = true ↔
        ¬ReflTransGen (g.keptIn g').Follows target source) := by
  have hedited := edited_of_perform_eq_ok hperform
  have hg : g.IsAccepted options := (isValid_iff_isAccepted hempty).1 hvalid
  refine ⟨fun hharmless => ?_, fun newId source target handle hconnect => ?_⟩
  · rw [Bool.eq_iff_iff, Bool.not_eq_true', isValid_iff_isAccepted hempty]
    exact hg.edited_iff hedited hunused hharmless
  · subst hconnect
    rw [isValid_iff_isAccepted hempty]
    exact hg.connected_iff hedited

end Step

/-- An approval that leads to a branch node, and that to another. -/
def approvalGraph : Graph Rat where
  nodes := [
    { id := "n1"
      kind := .action
      position := ⟨0, 0⟩
      data := { StepData.empty with
        stepId := "s1"
        actionId := some "ask"
        definition := some ⟨[.text "who" "" true], some ActionDefinition.approvalCategory⟩
        config := .ofList [("who", .str "all")] } },
    .fresh "n2" "s2" .branch ⟨0, 0⟩,
    .fresh "n3" "s3" .branch ⟨0, 0⟩]
  edges := [
    ⟨"e1", "n1", "n2", some "approve", none⟩,
    ⟨"e2", "n2", "n3", some "branch-0", none⟩]

/-- The approval may go, or lead elsewhere; but an edge back to it closes a cycle. -/
theorem isValid_approvalGraph :
    let options := { Options.strict with rejectEmpty := false }
    let elsewhere := approvalGraph.apply (.connect "e3" "n1" "n3" (some "approve"))
    let back := approvalGraph.apply (.connect "e3" "n3" "n1" none)
    ((approvalGraph.apply (.removeNode "n1")).validate options).isValid = true ∧
      ¬ReflTransGen (approvalGraph.keptIn elsewhere).Follows "n3" "n1" ∧
      (back.validate options).isValid = false ∧
      ReflTransGen (approvalGraph.keptIn back).Follows "n1" "n3" := by
  intro options elsewhere back
  have hvalid : (approvalGraph.validate options).isValid = true := by decide +kernel
  have helsewhere : (elsewhere.validate options).isValid = true := by decide +kernel
  have hback : (back.validate options).isValid = false := by decide +kernel
  refine ⟨?_, ?_, hback, ?_⟩
  · obtain ⟨result, hremoved⟩ : ∃ result, approvalGraph.perform (.removeNode "n1") =
        .ok (result, approvalGraph.apply (.removeNode "n1")) := ⟨_, rfl⟩
    exact (isValid_validate_perform rfl hvalid rfl hremoved).1 rfl
  · exact ((isValid_validate_perform rfl hvalid rfl rfl).2 _ _ _ _ rfl).1 helsewhere
  · by_contra hreach
    have hagain := ((isValid_validate_perform rfl hvalid rfl rfl).2 "e3" _ _ none rfl).2 hreach
    rw [hback] at hagain
    cases hagain

/-- No nodes, and an edge that is left over. -/
def leftoverGraph : Graph Rat := ⟨[], [⟨"e1", "x", "y", none, none⟩]⟩

/-- A first branch node makes the graph invalid: the edge that it is not joined to was not looked at
before. -/
theorem not_isValid_leftoverGraph :
    let options := { Options.live with rejectDangling := true }
    let edit := Edit.addNode "node-1" "temp-1" .branch ⟨0, 0⟩
    options.rejectEmpty = false ∧ (leftoverGraph.validate options).isValid = true ∧
      leftoverGraph.isUnused edit = true ∧ edit.isHarmless = true ∧
      ∃ result g', leftoverGraph.perform edit = .ok (result, g') ∧
        (g'.validate options).isValid = false := by
  refine ⟨rfl, ?_, ?_, rfl, _, _, rfl, ?_⟩
  · decide +kernel
  · decide +kernel
  · decide +kernel

end Graph

end StepGraph
