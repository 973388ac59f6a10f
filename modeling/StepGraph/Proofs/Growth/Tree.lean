import StepGraph.Proofs.Growth.Step
import StepGraph.Proofs.Validation.Alike
import StepGraph.Proofs.Validation.Tree

/-!
# A grown graph is a tree

Whatever is left to chance, growing never fails and gives a tree with nothing wrong in it.
`IsGrown` is the invariant of the loop: what has grown is a tree of sound nodes, and the open
outputs are outputs of its nodes that no edge leaves through.  There is always one, since the
outputs of the step that came last stay open.

There are three groups.

* `Graph.HasOutput`, and what edits that only note or place things leave as it was.
* The invariant, and what one step does to it.
* The result, `exists_grow_eq_ok`.
-/

namespace StepGraph

open Validation

variable {α : Type}

/-! ## Outputs -/

/-- An output of a node: where its handle is that of a path, the node has the path. -/
def Graph.HasOutput (g : Graph α) (output : String × Option String) : Prop :=
  ∃ node, g.node? output.1 = some node ∧
    ∀ index, Graph.pathTaken? node output.2 = some index → index < node.data.branches.length

namespace Graph

variable {g g' : Graph α} {output : String × Option String}

theorem HasOutput.hasNode (h : g.HasOutput output) : g.hasNode output.1 = true := by
  obtain ⟨node, hnode, -⟩ := h
  exact hasNode_iff.2 ⟨node, List.mem_of_find?_eq_some hnode, by simpa using List.find?_some hnode⟩

theorem HasOutput.pushNode (h : g.HasOutput output) (node : Node α) :
    (g.pushNode node).HasOutput output := by
  obtain ⟨found, hfound, hrange⟩ := h
  exact ⟨found, node?_pushNode_of_eq_some hfound node, hrange⟩

theorem HasOutput.of_forall₂ (hnodes : List.Forall₂ Node.Alike g.nodes g'.nodes)
    (h : g.HasOutput output) : g'.HasOutput output := by
  obtain ⟨node, hnode, hrange⟩ := h
  have hrel : Option.Rel Node.Alike (g.node? output.1) (g'.node? output.1) :=
    rel_find?_of_forall₂ hnodes fun _ _ halike => by rw [halike.id]
  rw [hnode] at hrel
  cases hfound : g'.node? output.1 with
  | none =>
    rw [hfound] at hrel
    cases hrel
  | some found =>
    rw [hfound] at hrel
    cases hrel with
    | some halike =>
      refine ⟨found, hfound, fun index hindex => ?_⟩
      rw [← halike.length_branches]
      exact hrange index (by rwa [pathTaken?, halike.isBranch])

/-- Noting where a path leads changes nothing but the note. -/
theorem forall₂_noteTarget (g : Graph α) (id : String) (path? : Option Nat)
    (target : Option String) :
    List.Forall₂ Node.Alike g.nodes (g.noteTarget id path? target).nodes := by
  cases path? with
  | none => exact List.forall₂_same.2 fun node _ => .refl node
  | some index =>
    refine forall₂_updateFirst .refl (fun node _ => ⟨rfl, rfl, ?_⟩) g.nodes
    have hnotes : (node.data.branches.modify index fun path =>
          { path with target := target }).map (·.withoutNote) =
        node.data.branches.map (·.withoutNote) := by
      apply map_modify_of_forall_eq
      exact fun _ => rfl
    simp [StepData.core, setPathTarget, Node.updateBranches, Node.updateData, hnotes]

/-- Nodes that are like sound nodes are sound. -/
theorem sound_of_forall₂ (hnodes : List.Forall₂ Node.Alike g.nodes g'.nodes)
    (h : ∀ node ∈ g.nodes, nodeFindings node = []) : ∀ node ∈ g'.nodes, nodeFindings node = [] := by
  intro node hnode
  have hfindings := map_eq_of_forall₂ hnodes fun _ _ halike => halike.nodeFindings_eq
  have hmem : nodeFindings node ∈ g.nodes.map nodeFindings :=
    hfindings ▸ List.mem_map_of_mem hnode
  obtain ⟨other, hother, heq⟩ := List.mem_map.1 hmem
  rw [← heq, h other hother]

/-- Arranging a tree gives a tree. -/
theorem IsTree.arrange [Coordinate α] (h : g.IsTree) : g.arrange.IsTree := by
  obtain ⟨hflow, hedges⟩ := g.sameFlow_arrange
  constructor
  · exact hflow.map_id ▸ h.distinct
  · rw [← hflow.map_id, ← hedges, h.targets]
  · rw [← hflow.map_id, ← hedges]
    exact h.sources

end Graph

namespace Growth

/-! ## The invariant -/

/-- The open outputs are outputs of nodes, each is open once, and no edge leaves through one. -/
structure Progress.IsOpen (p : Progress α) : Prop where
  nodup : p.outputs.Nodup
  hasOutput : ∀ output ∈ p.outputs, p.graph.HasOutput output
  unused : ∀ edge ∈ p.graph.edges, (edge.source, edge.sourceHandle) ∉ p.outputs

/-- What has grown from a list of choices. -/
structure IsGrown (done : List Choice) (p : Progress α) : Prop extends p.IsOpen where
  ids : p.graph.nodes.map (·.id) = done.map (·.nodeId)
  tree : p.graph.IsTree
  sound : ∀ node ∈ p.graph.nodes, nodeFindings node = []
  exists_output : done ≠ [] → p.outputs ≠ []

theorem IsGrown.nodes_eq_nil_iff {done : List Choice} {p : Progress α} (h : IsGrown done p) :
    p.graph.nodes = [] ↔ done = [] := by
  rw [← List.map_eq_nil_iff, h.ids, List.map_eq_nil_iff]

theorem isGrown_start : IsGrown [] (Progress.start : Progress α) where
  nodup := List.nodup_nil
  hasOutput _ h := absurd h List.not_mem_nil
  unused _ h := absurd h List.not_mem_nil
  ids := rfl
  tree := ⟨List.nodup_nil, rfl, fun _ _ h => by cases h⟩
  sound _ h := absurd h List.not_mem_nil
  exists_output h := absurd rfl h

/-- The progress with a node and its outputs at the end. -/
def Progress.push (p : Progress α) (role : Role) (node : Node α) : Progress α :=
  ⟨p.graph.pushNode node, p.outputs ++ role.handles.map fun handle => (node.id, handle)⟩

section Step

variable {p : Progress α} {role : Role} {c : Choice} {made : Node α}

/-- The outputs of a node that is added are open. -/
theorem Progress.IsOpen.push (h : p.IsOpen) (hmade : role.IsMade c made)
    (hfresh : p.graph.hasNode made.id = false)
    (hsources : ∀ edge ∈ p.graph.edges, p.graph.hasNode edge.source = true) :
    (p.push role made).IsOpen where
  nodup := by
    have hhandles : role.handles.Nodup := by cases role <;> decide
    refine List.nodup_append'.2 ⟨h.nodup, hhandles.map fun a b hab => by simpa using hab, ?_⟩
    intro output hold hnew
    obtain ⟨handle, -, rfl⟩ := List.mem_map.1 hnew
    have hnode := (h.hasOutput _ hold).hasNode
    simp [hfresh] at hnode
  hasOutput output houtput := by
    rcases List.mem_append.1 houtput with hold | hnew
    · exact (h.hasOutput output hold).pushNode made
    · obtain ⟨handle, hhandle, rfl⟩ := List.mem_map.1 hnew
      exact ⟨made, Graph.node?_pushNode_self hfresh, hmade.ranged handle hhandle⟩
  unused edge hedge houtput := by
    rcases List.mem_append.1 houtput with hold | hnew
    · exact h.unused edge hedge hold
    · obtain ⟨handle, -, hsame⟩ := List.mem_map.1 hnew
      have hnode := hsources edge hedge
      rw [← (Prod.mk.inj hsame).1, hfresh] at hnode
      cases hnode

/-- Adding a step never fails. -/
theorem exists_addStep_eq_ok [Coordinate α] (p : Progress α) (role : Role) (c : Choice)
    (hfresh : p.graph.hasNode c.nodeId = false) :
    ∃ made, p.addStep role c = .ok (p.push role made) ∧ role.IsMade c made := by
  obtain ⟨made, hconfigure, hmade⟩ :=
    exists_configure_eq_ok role c (Layout.snap Point.zero) hfresh
  refine ⟨made, ?_, hmade⟩
  rw [Progress.addStep, Progress.push, hmade.id]
  simp only [Graph.addNode, hconfigure]
  rfl

/-- The outputs of the step that came last are as many as its role has. -/
theorem ownOutputs_push (hmade : role.IsMade c made) (hfresh : p.graph.hasNode made.id = false) :
    (p.push role made).ownOutputs role c = role.handles.length := by
  rw [Progress.ownOutputs, Progress.push, ← hmade.id, Graph.node?_pushNode_self hfresh]
  simp only [Option.any_some, hmade.isApproval]
  cases role <;> rfl

/-- Connecting an open output to a node that no edge leads to never fails. -/
theorem exists_connect_eq_ok (h : p.IsOpen) {output : String × Option String}
    (houtput : output ∈ p.outputs) {id : String} (hid : p.graph.hasNode id = true)
    (hne : output.1 ≠ id) (edgeId : String) :
    ∃ g, p.graph.connect edgeId output.1 id output.2 =
        .ok (⟨edgeId, output.1, id, output.2, none⟩, g) ∧
      List.Forall₂ Node.Alike p.graph.nodes g.nodes ∧
      g.edges = p.graph.edges ++ [⟨edgeId, output.1, id, output.2, none⟩] := by
  obtain ⟨source, handle⟩ := output
  obtain ⟨sourceNode, hsource, hrange⟩ := h.hasOutput _ houtput
  obtain ⟨targetNode, htarget⟩ := Graph.exists_node?_of_hasNode hid
  have hfree : ∀ edge ∈ p.graph.edges, ¬(edge.source = source ∧ edge.sourceHandle = handle) := by
    rintro edge hedge ⟨rfl, rfl⟩
    exact h.unused edge hedge houtput
  refine ⟨_, Graph.connect_eq_ok hsource htarget hne (fun edge hedge => ?_) hrange,
    Graph.forall₂_noteTarget _ _ _ _, ?_⟩
  · rw [Bool.eq_false_iff]
    intro hsame
    simp only [Graph.sameConnection, Bool.and_eq_true, beq_iff_eq] at hsame
    exact hfree edge hedge ⟨hsame.1.1.symm, hsame.2.symm⟩
  · have hbeside : ∀ takesPath, Graph.edgesBeside ⟨edgeId, source, id, handle, none⟩ takesPath
        p.graph.edges = p.graph.edges := by
      intro takesPath
      rw [Graph.edgesBeside]
      split
      · refine List.filter_eq_self.2 fun edge hedge => ?_
        have hno := hfree edge hedge
        rw [not_and_or] at hno
        simpa using hno
      · rfl
    rw [hbeside]

/-- What is hung off an open output takes it, and the other outputs stay open. -/
theorem Progress.IsOpen.eraseIdx (h : p.IsOpen) {chosen : Nat} {output : String × Option String}
    (houtput : p.outputs[chosen]? = some output) {g : Graph α}
    (hnodes : List.Forall₂ Node.Alike p.graph.nodes g.nodes) {edge : Edge}
    (hedges : g.edges = p.graph.edges ++ [edge])
    (hedge : (edge.source, edge.sourceHandle) = output) :
    Progress.IsOpen ⟨g, p.outputs.eraseIdx chosen⟩ where
  nodup := h.nodup.sublist (List.eraseIdx_sublist _ _)
  hasOutput other hother := (h.hasOutput other (List.mem_of_mem_eraseIdx hother)).of_forall₂ hnodes
  unused other hother := by
    rw [hedges] at hother
    rcases List.mem_append.1 hother with hold | hnew
    · exact fun hmem => h.unused other hold (List.mem_of_mem_eraseIdx hmem)
    · rw [List.mem_singleton.1 hnew, hedge]
      intro hmem
      obtain ⟨i, hne, hi⟩ := List.mem_eraseIdx_iff_getElem?.1 hmem
      have hlt := (List.getElem?_eq_some_iff.1 hi).1
      exact hne ((List.getElem?_inj hlt h.nodup).1 (hi.trans houtput.symm))

/-- The step that came last is hung off one of the outputs that were open before. -/
theorem exists_attach_eq_ok (h : (p.push role made).IsOpen) (hid : made.id = c.nodeId)
    (hold : ∀ output ∈ p.outputs, output.1 ≠ made.id) (hne : p.outputs ≠ []) :
    ∃ chosen output g, p.outputs[chosen]? = some output ∧
      (p.push role made).attach role.handles.length c =
        .ok ⟨g, (p.push role made).outputs.eraseIdx chosen⟩ ∧
      List.Forall₂ Node.Alike (p.push role made).graph.nodes g.nodes ∧
      g.edges = p.graph.edges ++ [⟨c.edgeId, output.1, c.nodeId, output.2, none⟩] := by
  have hpos : 0 < p.outputs.length := List.length_pos_iff.2 hne
  have havailable : (p.push role made).outputs.length - role.handles.length = p.outputs.length := by
    simp [Progress.push]
  have hlt := Nat.mod_lt c.output hpos
  obtain ⟨output, houtput⟩ : ∃ output, p.outputs[c.output % p.outputs.length]? = some output :=
    ⟨_, List.getElem?_eq_getElem hlt⟩
  have hmem := List.mem_of_getElem? houtput
  have hchosen : (p.push role made).outputs[c.output % p.outputs.length]? = some output := by
    rw [Progress.push, List.getElem?_append_left hlt, houtput]
  have hnode : (p.push role made).graph.hasNode c.nodeId = true :=
    Graph.hasNode_iff.2 ⟨made, by simp [Progress.push, Graph.pushNode], hid⟩
  obtain ⟨g, hconnect, hnodes, hedges⟩ := exists_connect_eq_ok h
    (List.mem_of_getElem? hchosen) hnode (hid ▸ hold output hmem) c.edgeId
  refine ⟨_, output, g, houtput, ?_, hnodes, hedges⟩
  rw [Progress.attach]
  simp only [havailable, if_neg hpos.ne', hchosen, hconnect]
  rfl

theorem Role.handles_ne_nil (role : Role) : role.handles ≠ [] := by cases role <;> decide

/-- The first step is there, and hangs off nothing. -/
theorem IsGrown.push (h : IsGrown [] p) (hmade : role.IsMade c made)
    (hopen : (p.push role made).IsOpen) : IsGrown [c] (p.push role made) := by
  have hnodes : p.graph.nodes = [] := by simpa using h.ids
  have hedges : p.graph.edges = [] := by simpa [hnodes] using h.tree.targets
  exact {
    hopen with
    ids := by simp [Progress.push, Graph.pushNode, hnodes, hmade.id]
    tree := .of_singleton (by simp [Progress.push, Graph.pushNode, hnodes]; rfl) hedges
    sound := by
      intro node hnode
      obtain rfl : node = made := by simpa [Progress.push, Graph.pushNode, hnodes] using hnode
      exact hmade.sound
    exists_output := fun _ => by simp [Progress.push, role.handles_ne_nil] }

/-- Every other step hangs off an earlier one. -/
theorem IsGrown.attach {done : List Choice} (h : IsGrown done p) (hne : done ≠ [])
    (hfresh : c.nodeId ∉ done.map (·.nodeId)) (hmade : role.IsMade c made)
    (hopen : (p.push role made).IsOpen) :
    ∃ q, (p.push role made).attach role.handles.length c = .ok q ∧ IsGrown (done ++ [c]) q := by
  have hold : ∀ output ∈ p.outputs, output.1 ∈ p.graph.nodes.map (·.id) := fun output houtput =>
    List.mem_map.2 (Graph.hasNode_iff.1 (h.hasOutput output houtput).hasNode)
  have hnew : made.id ∉ p.graph.nodes.map (·.id) := by rwa [h.ids, hmade.id]
  obtain ⟨chosen, output, g, houtput, hattach, hnodes, hedges⟩ := exists_attach_eq_ok hopen hmade.id
    (fun output houtput heq => hnew (heq ▸ hold output houtput)) (h.exists_output hne)
  have hlt := (List.getElem?_eq_some_iff.1 houtput).1
  have hchosen : (p.push role made).outputs[chosen]? = some output := by
    rw [Progress.push, List.getElem?_append_left hlt, houtput]
  have hids : g.nodes.map (·.id) = p.graph.nodes.map (·.id) ++ [c.nodeId] := by
    rw [← map_eq_of_forall₂ hnodes fun _ _ halike => halike.id]
    simp [Progress.push, Graph.pushNode, hmade.id]
  have hsound : ∀ node ∈ (p.push role made).graph.nodes, nodeFindings node = [] := by
    intro node hnode
    rcases List.mem_append.1 hnode with hnode | hnode
    · exact h.sound node hnode
    · rw [List.mem_singleton.1 hnode, hmade.sound]
  refine ⟨_, hattach, ?_⟩
  exact {
    hopen.eraseIdx hchosen hnodes hedges rfl with
    ids := by rw [hids, h.ids, List.map_append, List.map_singleton]
    tree := by
      refine h.tree.append ?_ hids hedges ?_ (hold output (List.mem_of_getElem? houtput))
      · rwa [Ne, h.nodes_eq_nil_iff]
      · rwa [h.ids]
    sound := Graph.sound_of_forall₂ hnodes hsound
    exists_output := fun _ => by
      rw [Progress.push, List.eraseIdx_append_of_lt_length hlt]
      simp [role.handles_ne_nil] }

/-- An id that has not been used is not in the graph. -/
theorem IsGrown.hasNode_eq_false {done : List Choice} (h : IsGrown done p) {id : String}
    (hfresh : id ∉ done.map (·.nodeId)) : p.graph.hasNode id = false := by
  rw [Bool.eq_false_iff, Ne, Graph.hasNode_iff]
  rintro ⟨node, hnode, rfl⟩
  rw [← h.ids] at hfresh
  exact hfresh (List.mem_map_of_mem hnode)

/-- One step of growing, for a choice with a fresh id. -/
theorem IsGrown.exists_step [Coordinate α] {done : List Choice} (h : IsGrown done p)
    (hfresh : c.nodeId ∉ done.map (·.nodeId)) :
    ∃ added q, p.addStep (c.role p.graph.isEmpty) c = .ok added ∧
      added.ownOutputs (c.role p.graph.isEmpty) c ≤ added.outputs.length ∧
      (done ≠ [] → added.ownOutputs (c.role p.graph.isEmpty) c < added.outputs.length) ∧
      p.grow c = .ok q ∧ IsGrown (done ++ [c]) q := by
  have hnew := h.hasNode_eq_false hfresh
  obtain ⟨made, hadd, hmade⟩ := exists_addStep_eq_ok p (c.role p.graph.isEmpty) c hnew
  have hmadeNew : p.graph.hasNode made.id = false := hmade.id ▸ hnew
  have hopen := h.toIsOpen.push hmade hmadeNew h.tree.hasNode_source
  have hown := ownOutputs_push hmade hmadeNew
  have hlength : (p.push (c.role p.graph.isEmpty) made).outputs.length =
      p.outputs.length + (c.role p.graph.isEmpty).handles.length := by simp [Progress.push]
  have hempty : p.graph.isEmpty = true ↔ done = [] :=
    Graph.isEmpty_eq_true_iff.trans h.nodes_eq_nil_iff
  by_cases hdone : done = []
  · subst hdone
    refine ⟨_, _, hadd, by omega, fun hne => absurd rfl hne, ?_, h.push hmade hopen⟩
    rw [Progress.grow, hadd]
    exact if_pos (hempty.2 rfl)
  · obtain ⟨q, hattach, hgrown⟩ := h.attach hdone hfresh hmade hopen
    have hpos := List.length_pos_iff.2 (h.exists_output hdone)
    refine ⟨_, q, hadd, by omega, fun _ => by omega, ?_, hgrown⟩
    rw [Progress.grow, hadd]
    show (if p.graph.isEmpty = true then _ else _) = _
    rw [if_neg (mt hempty.1 hdone), hown, hattach]

end Step

/-- Growing by any number of steps. -/
theorem IsGrown.exists_foldlM_eq_ok [Coordinate α] {done : List Choice} {p : Progress α}
    (h : IsGrown done p) (rest : List Choice) (hfresh : ((done ++ rest).map (·.nodeId)).Nodup) :
    ∃ q, rest.foldlM Progress.grow p = .ok q ∧ IsGrown (done ++ rest) q := by
  induction rest generalizing done p with
  | nil => exact ⟨p, rfl, by simpa using h⟩
  | cons c rest ih =>
    have hnew : c.nodeId ∉ done.map (·.nodeId) := by
      intro hmem
      rw [List.map_append] at hfresh
      exact List.disjoint_of_nodup_append hfresh hmem (by simp)
    obtain ⟨_, q, -, -, -, hgrow, hgrown⟩ := h.exists_step hnew
    obtain ⟨r, hrest, hgrown⟩ := ih hgrown (by simpa using hfresh)
    exact ⟨r, by rw [List.foldlM_cons, hgrow]; exact hrest, by simpa using hgrown⟩

/-! ## The result -/

/-- Growing from choices with distinct ids never fails.  A step always finds its own outputs among
the open ones, and every step after the first finds others too.  The graph has a node for each
choice.  No edge leads to the first, one edge leads to every other, from an earlier one, and there
are no further edges.  A live validation finds no error in it and warns of nothing but branch paths
without edges. -/
theorem exists_grow_eq_ok [Coordinate α] (choices : List Choice) (hne : choices ≠ [])
    (hfresh : (choices.map (·.nodeId)).Nodup) :
    (∀ before c after, choices = before ++ c :: after → ∃ p added : Progress α,
      before.foldlM Progress.grow .start = .ok p ∧
        p.addStep (c.role p.graph.isEmpty) c = .ok added ∧
        added.ownOutputs (c.role p.graph.isEmpty) c ≤ added.outputs.length ∧
        (before ≠ [] → added.ownOutputs (c.role p.graph.isEmpty) c < added.outputs.length)) ∧
      ∃ g : Graph α, grow choices = .ok g ∧
        g.nodes.map (·.id) = choices.map (·.nodeId) ∧
        g.edges.length + 1 = choices.length ∧
        (∀ node, g.nodes[0]? = some node → g.edges.filter (·.target == node.id) = []) ∧
        (∀ slot node, g.nodes[slot + 1]? = some node →
          ∃ edge, g.edges.filter (·.target == node.id) = [edge] ∧
            ∃ earlier ∈ g.nodes.take (slot + 1), earlier.id = edge.source) ∧
        (g.validate .live).errors = [] ∧
        ∀ d ∈ (g.validate .live).warnings, ∃ node ∈ g.nodes, node.kind = .branch ∧
          d.nodeId = some node.id ∧ ∃ rest, d.message = openPathsStart ++ rest := by
  have hstart : IsGrown [] (Progress.start : Progress α) := isGrown_start
  refine ⟨fun before c after hsplit => ?_, ?_⟩
  · rw [hsplit] at hfresh
    have hprefix : ((before ++ [c]).map (·.nodeId)).Nodup := by
      rw [← List.singleton_append, ← List.append_assoc, List.map_append] at hfresh
      exact hfresh.of_append_left
    rw [List.map_append, List.map_singleton, List.nodup_append'] at hprefix
    obtain ⟨p, hsteps, hgrown⟩ := hstart.exists_foldlM_eq_ok before hprefix.1
    have hnew : c.nodeId ∉ before.map (·.nodeId) := fun hmem => hprefix.2.2 hmem (by simp)
    obtain ⟨added, _, hadd, hown, havailable, -, -⟩ := hgrown.exists_step hnew
    exact ⟨p, added, hsteps, hadd, hown, havailable⟩
  · obtain ⟨p, hsteps, hgrown⟩ := hstart.exists_foldlM_eq_ok choices hfresh
    rw [List.nil_append] at hgrown
    have htree := hgrown.tree.arrange
    have hids : p.graph.arrange.nodes.map (·.id) = choices.map (·.nodeId) := by
      rw [← p.graph.sameFlow_arrange.1.map_id, hgrown.ids]
    have hlength := congrArg List.length hids
    rw [List.length_map, List.length_map] at hlength
    have hnodes : p.graph.arrange.nodes ≠ [] := by
      rwa [← List.length_pos_iff, hlength, List.length_pos_iff]
    have hsound := Graph.sound_of_forall₂ p.graph.sameFlow_arrange.1.nodes hgrown.sound
    refine ⟨p.graph.arrange, by rw [grow, hsteps]; rfl, hids, ?_, fun node hnode => ?_,
      fun slot node hnode => htree.exists_filter_target_eq hnode,
      htree.validate_live hnodes hsound⟩
    · rw [htree.length_edges hnodes, hlength]
    · obtain ⟨first, rest, hfirst⟩ := List.exists_cons_of_ne_nil hnodes
      obtain rfl : first = node := by simpa [hfirst] using hnode
      refine List.filter_eq_nil_iff.2 fun edge hedge => ?_
      simpa using htree.target_ne hfirst edge hedge

/-- A branch below an action.  Approval is asked for on its second path, and the last step hangs off
one of the answers, so the first path stays open. -/
def approvalChoices : List Choice := [
  ⟨"n1", "s1", "e1", true, false, 0, 500, 0⟩,
  ⟨"n2", "s2", "e2", true, true, 0, 500, 0⟩,
  ⟨"n3", "s3", "e3", false, true, 0, 500, 1⟩,
  ⟨"n4", "s4", "e4", false, false, 2, 500, 5⟩]

/-- Nothing is wrong with the graph, and if anything is open it is a path of the branch. -/
theorem exists_grow_approvalChoices :
    approvalChoices ≠ [] ∧ (approvalChoices.map (·.nodeId)).Nodup ∧
      ∃ g : Graph Rat, grow approvalChoices = .ok g ∧ g.edges.length = 3 ∧
        (g.validate .live).errors = [] ∧
        ∀ d ∈ (g.validate .live).warnings, d.nodeId = some "n2" := by
  have hne : approvalChoices ≠ [] := by decide
  have hfresh : (approvalChoices.map (·.nodeId)).Nodup := by decide
  obtain ⟨-, g, hgrow, -, hlength, -, -, herrors, hwarnings⟩ :=
    @exists_grow_eq_ok Rat _ approvalChoices hne hfresh
  have hbranch : ∀ g ∈ (grow approvalChoices : Except EditError (Graph Rat)).toOption,
      ∀ node ∈ g.nodes, node.kind = .branch → node.id = "n2" := by decide +kernel
  refine ⟨hne, hfresh, g, hgrow, Nat.succ.inj hlength, herrors, fun d hd => ?_⟩
  obtain ⟨node, hnode, hkind, hid, -⟩ := hwarnings d hd
  rw [hid, hbranch g (by rw [hgrow]; rfl) node hnode hkind]

end Growth

end StepGraph
