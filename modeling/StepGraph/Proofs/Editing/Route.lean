import Mathlib.Data.List.Nodup
import StepGraph.Proofs.Editing.Outcome
import StepGraph.Proofs.Editing.Path
import StepGraph.Proofs.Graph.Link

/-!
# What an edit does to the routes of a graph

Edges are routed by little of a graph: the ids, kinds and step identities of its nodes, the paths of
branch nodes, and the edges.  `Graph.Rerouted` lists what edits do to that, and leaves out what they
do to positions, actions and configurations.

There are four groups.

* Changing the first item of a list.
* Identities.  No edit of a node changes them, and where an id leads depends on them only.
* Routes.  `Edited.rerouted` says that every successful edit is one of seven kinds of change.
* Distinct identities and attached edges, which every session of fresh edits keeps.
-/

namespace StepGraph

variable {α : Type}

/-! ## Changing the first item -/

section UpdateFirst

variable {β γ : Type}

/-- A change that keeps a key keeps the list of keys. -/
theorem map_updateFirst {p : β → Bool} {f : β → β} {key : β → γ} (h : ∀ b, key (f b) = key b)
    (items : List β) : (updateFirst p f items).map key = items.map key := by
  induction items with
  | nil => rfl
  | cons b rest ih =>
    rw [updateFirst]
    split
    · simp [h]
    · simp [ih]

/-- Where keys are distinct, the first item of a key is the only one. -/
theorem updateFirst_eq_map [BEq γ] [LawfulBEq γ] {f : β → β} {key : β → γ} {k : γ} {items : List β}
    (h : (items.map key).Nodup) :
    updateFirst (key · == k) f items = items.map fun b => if key b == k then f b else b := by
  induction items with
  | nil => rfl
  | cons b rest ih =>
    obtain ⟨hb, hrest⟩ := List.nodup_cons.1 h
    rw [updateFirst, List.map_cons]
    split
    · rename_i hkey
      have hkeep : rest.map (fun c => if key c == k then f c else c) = rest.map id := by
        refine List.map_congr_left fun c hc => if_neg fun hck => hb ?_
        rw [beq_iff_eq.1 hkey, ← beq_iff_eq.1 hck]
        exact List.mem_map_of_mem hc
      rw [hkeep, List.map_id]
    · rw [ih hrest]

end UpdateFirst

/-! ## Identities -/

/-- What no edit of a node changes. -/
structure Identity where
  id : String
  kind : NodeKind
  stepId : String
deriving DecidableEq

/-- The identity of a node. -/
def Node.identity (node : Node α) : Identity := ⟨node.id, node.kind, node.data.stepId⟩

namespace Graph

/-- The identities of the nodes. -/
def identities (g : Graph α) : List Identity := g.nodes.map (·.identity)

theorem hasNode_eq_any (g : Graph α) (id : String) :
    g.hasNode id = g.identities.any (·.id == id) := by
  simp [hasNode, identities, List.any_map, Function.comp_def, Node.identity]

theorem resolves_congr {g g' : Graph α} (h : g'.identities = g.identities) :
    g'.resolves = g.resolves := by
  funext edge
  simp only [resolves, hasNode_eq_any, h]

theorem stepIdAt?_eq_find? (g : Graph α) (id : String) :
    g.stepIdAt? id = (g.identities.find? (·.id == id)).map (·.stepId) := by
  simp [stepIdAt?, node?, identities, List.find?_map, Function.comp_def, Node.identity]

theorem identities_updateNode {f : Node α → Node α} (h : ∀ node, (f node).identity = node.identity)
    (g : Graph α) (id : String) : (g.updateNode id f).identities = g.identities :=
  map_updateFirst h g.nodes

theorem identities_updateBranches (g : Graph α) (id : String)
    (f : List BranchPath → List BranchPath) :
    (g.updateNode id (·.updateBranches f)).identities = g.identities := by
  refine identities_updateNode (fun node => ?_) g id
  rfl

theorem identities_noteTarget (g : Graph α) (id : String) (path? : Option Nat)
    (target : Option String) : (g.noteTarget id path? target).identities = g.identities := by
  rw [noteTarget.eq_def]
  split
  · exact identities_updateBranches g id _
  · rfl

/-! ## Routes -/

end Graph

/-- What edges are routed by in a node. -/
def Node.route (node : Node α) : Identity × List BranchPath := (node.identity, node.data.branches)

/-- The id and the step identity that an edit gives to a new node. -/
def Edit.newNode? : Edit α → Option (String × String)
  | .addNode newId newStepId _ _ | .addNodeAtDefault newId newStepId _ _
  | .duplicateNode newId newStepId _ => some (newId, newStepId)
  | _ => none

namespace Graph

/-- What an edit that succeeds does to the routes of a graph. -/
inductive Rerouted (g : Graph α) : Edit α → Graph α → Prop
  | push (edit : Edit α) (node : Node α)
    (hnew : edit.newNode? = some (node.id, node.data.stepId))
    (htargets : ∀ path ∈ node.data.branches, path.target = none) :
    Rerouted g edit (g.pushNode node)
  | keep (edit : Edit α) (g' : Graph α) (hedges : g'.edges = g.edges)
    (hroutes : g'.nodes.map (·.route) = g.nodes.map (·.route)) : Rerouted g edit g'
  | remove (id : String) (node : Node α) (hnode : g.node? id = some node) :
    Rerouted g (.removeNode id) {
      nodes := (g.nodes.eraseP (·.id == id)).map fun other =>
        other.updateBranches (·.map (forgetTarget node.data.stepId))
      edges := g.edges.filter fun edge => !edge.touches id }
  | connect (newId source target : String) (handle : Option String)
    (sourceNode targetNode : Node α) (hsource : g.node? source = some sourceNode)
    (htarget : g.node? target = some targetNode)
    (hnew : ∀ other ∈ g.edges, sameConnection ⟨newId, source, target, handle, none⟩ other = false)
    (hrange : ∀ index, pathTaken? sourceNode handle = some index →
      index < sourceNode.data.branches.length) :
    Rerouted g (.connect newId source target handle)
      { nodes := (g.noteTarget source (pathTaken? sourceNode handle)
          (some targetNode.data.stepId)).nodes
        edges := edgesBeside ⟨newId, source, target, handle, none⟩
          (pathTaken? sourceNode handle).isSome g.edges ++ [⟨newId, source, target, handle, none⟩] }
  | disconnect (id : String) (edge : Edge) (hedge : g.edge? id = some edge) :
    Rerouted g (.disconnect id)
      { nodes := (g.noteTarget edge.source edge.branchIndex? none).nodes
        edges := g.edges.eraseP (·.id == id) }
  | addPath (id name : String) :
    Rerouted g (.addBranchPath id name) (g.updateNode id (·.updateBranches (· ++ [.ofName name])))
  | removePath (id : String) (index : Nat) (node : Node α) (hnode : g.node? id = some node)
    (hkind : node.kind = .branch) (hrange : index < node.data.branches.length) :
    Rerouted g (.removeBranchPath id index)
      { nodes := (g.updateNode id (·.updateBranches (·.eraseIdx index))).nodes
        edges := edgesWithoutPath id index g.edges }

/-- A new node has paths that lead nowhere. -/
theorem target_eq_none_of_mem_fresh {id stepId : String} {kind : NodeKind} {position : Point α}
    {path : BranchPath} (h : path ∈ (Node.fresh id stepId kind position).data.branches) :
    path.target = none := by
  cases kind with
  | action => simp [Node.fresh, StepData.empty] at h
  | branch =>
    simp only [Node.fresh, List.mem_cons, List.not_mem_nil, or_false] at h
    rcases h with rfl | rfl <;> rfl

/-- A change of a node that keeps what edges are routed by. -/
theorem map_route_updateNode {f : Node α → Node α} (h : ∀ node, (f node).route = node.route)
    (g : Graph α) (id : String) :
    (g.updateNode id f).nodes.map (·.route) = g.nodes.map (·.route) :=
  map_updateFirst h g.nodes

variable [Coordinate α]

theorem map_route_arrange (g : Graph α) :
    g.arrange.nodes.map (·.route) = g.nodes.map (·.route) := by
  calc g.arrange.nodes.map (·.route)
      = (g.nodes.zipIdx.map (·.1)).map (·.route) := by
        unfold arrange
        rw [List.map_map, List.map_map]
        rfl
    _ = g.nodes.map (·.route) := by rw [List.zipIdx_map_fst]

/-- Every successful edit is one of seven kinds of change. -/
theorem Edited.rerouted {g g' : Graph α} {edit : Edit α} (h : g.Edited edit g') :
    g.Rerouted edit g' := by
  cases h with
  | addNode newId newStepId kind position =>
    exact .push _ _ (by cases kind <;> rfl) fun _ => target_eq_none_of_mem_fresh
  | addNodeAtDefault newId newStepId kind viewCentre =>
    exact .push _ _ (by cases kind <;> rfl) fun _ => target_eq_none_of_mem_fresh
  | duplicateNode newId newStepId id node hnode =>
    refine .push _ _ rfl fun path hpath => ?_
    obtain ⟨_, _, rfl⟩ := List.mem_map.1 hpath
    rfl
  | removeNode id node hnode => exact .remove id node hnode
  | moveNode id position node hnode =>
    refine .keep _ _ rfl (map_route_updateNode (fun node => ?_) g id)
    rfl
  | connect newId source target handle sourceNode targetNode hsource htarget hne hnew hrange =>
    exact .connect newId source target handle sourceNode targetNode hsource htarget hnew hrange
  | disconnect id edge hedge => exact .disconnect id edge hedge
  | setAction id actionId definition node hnode hkind =>
    refine .keep _ _ rfl (map_route_updateNode (fun node => ?_) g id)
    rfl
  | setConfigValue id key value node hnode hkind =>
    refine .keep _ _ rfl (map_route_updateNode (fun node => ?_) g id)
    rfl
  | addBranchPath id name node hnode hkind => exact .addPath id name
  | removeBranchPath id index node hnode hkind hleast hrange =>
    exact .removePath id index node hnode hkind hrange
  | arrange => exact .keep _ _ rfl (map_route_arrange g)

end Graph

/-! ## Distinct identities and attached edges -/

namespace Graph

/-- An edit that makes a node gives it an id and a step identity that no node has. -/
def isFresh (g : Graph α) (edit : Edit α) : Bool :=
  edit.newNode?.all fun (id, stepId) =>
    !g.nodes.any fun node => node.id == id || node.data.stepId == stepId

/-- No two nodes share an id or a step identity. -/
structure IsDistinct (g : Graph α) : Prop where
  ids : (g.identities.map (·.id)).Nodup
  stepIds : (g.identities.map (·.stepId)).Nodup

/-- Both ends of every edge are nodes. -/
def IsAttached (g : Graph α) : Prop := ∀ edge ∈ g.edges, g.resolves edge = true

theorem isDistinct_empty : (empty : Graph α).IsDistinct := ⟨List.nodup_nil, List.nodup_nil⟩

theorem isAttached_empty : (empty : Graph α).IsAttached := by simp [IsAttached, empty]

theorem identities_of_map_route {g g' : Graph α}
    (h : g'.nodes.map (·.route) = g.nodes.map (·.route)) : g'.identities = g.identities := by
  simpa [identities, Function.comp_def, Node.route] using congrArg (List.map (·.1)) h

theorem identities_eraseP_map (g : Graph α) (id : String)
    (f : List BranchPath → List BranchPath) {edges : List Edge} :
    identities ⟨(g.nodes.eraseP (·.id == id)).map (·.updateBranches f), edges⟩ =
      g.identities.eraseP (·.id == id) := by
  simp only [identities, List.map_map, List.eraseP_map]
  rfl

/-- An edit makes a node, removes the first node of an id, or leaves the identities alone. -/
theorem Rerouted.identities_cases {g g' : Graph α} {edit : Edit α} (h : g.Rerouted edit g') :
    (∃ identity : Identity, edit.newNode? = some (identity.id, identity.stepId) ∧
        g'.identities = g.identities ++ [identity]) ∨
      (∃ id, g'.identities = g.identities.eraseP (·.id == id)) ∨
        g'.identities = g.identities := by
  cases h with
  | push _ node hnew htargets =>
    exact Or.inl ⟨node.identity, hnew, by simp [identities, pushNode]⟩
  | keep _ _ hedges hroutes =>
    exact Or.inr (Or.inr (identities_of_map_route hroutes))
  | remove id node hnode =>
    exact Or.inr (Or.inl ⟨id, identities_eraseP_map g id _⟩)
  | connect newId source target handle sourceNode targetNode hsource htarget hnew hrange =>
    exact Or.inr (Or.inr (identities_noteTarget g _ _ _))
  | disconnect id edge hedge => exact Or.inr (Or.inr (identities_noteTarget g _ _ _))
  | addPath id name => exact Or.inr (Or.inr (identities_updateBranches g id _))
  | removePath id index node hnode hkind hrange =>
    exact Or.inr (Or.inr (identities_updateBranches g id _))

theorem ne_of_isFresh {g : Graph α} {edit : Edit α} {id stepId : String}
    (hfresh : g.isFresh edit = true) (hnew : edit.newNode? = some (id, stepId))
    {identity : Identity} (h : identity ∈ g.identities) :
    identity.id ≠ id ∧ identity.stepId ≠ stepId := by
  obtain ⟨node, hnode, rfl⟩ := List.mem_map.1 h
  simp only [isFresh, hnew, Option.all_some, Bool.not_eq_true', List.any_eq_false,
    Bool.or_eq_true, beq_iff_eq, not_or] at hfresh
  exact hfresh node hnode

/-- A part of the identities stays distinct if that of a new node is not there. -/
theorem Rerouted.nodup_map {γ : Type} {g g' : Graph α} {edit : Edit α} (h : g.Rerouted edit g')
    {key : Identity → γ} (hkeys : (g.identities.map key).Nodup)
    (hnew : ∀ identity : Identity, edit.newNode? = some (identity.id, identity.stepId) →
      ∀ other ∈ g.identities, key other ≠ key identity) : (g'.identities.map key).Nodup := by
  rcases h.identities_cases with ⟨identity, hmade, h⟩ | ⟨id, h⟩ | h
  · rw [h, List.map_append, List.map_singleton]
    refine hkeys.append (List.nodup_singleton _) ?_
    rw [List.disjoint_singleton]
    intro hmem
    obtain ⟨other, hother, hkey⟩ := List.mem_map.1 hmem
    exact hnew identity hmade other hother hkey
  · have hsublist : g'.identities.Sublist g.identities := h ▸ List.eraseP_sublist
    exact hkeys.sublist (hsublist.map _)
  · rwa [h]

/-- A fresh edit keeps ids and step identities distinct. -/
theorem IsDistinct.rerouted {g g' : Graph α} {edit : Edit α} (hg : g.IsDistinct)
    (hfresh : g.isFresh edit = true) (h : g.Rerouted edit g') : g'.IsDistinct where
  ids := h.nodup_map hg.ids fun _ hnew _ hother => (ne_of_isFresh hfresh hnew hother).1
  stepIds := h.nodup_map hg.stepIds fun _ hnew _ hother => (ne_of_isFresh hfresh hnew hother).2

/-- The node found for an id is a node and has the id. -/
theorem mem_and_id_eq_of_node? {g : Graph α} {id : String} {node : Node α}
    (h : g.node? id = some node) : node ∈ g.nodes ∧ node.id = id := by
  have hid := List.find?_some h
  exact ⟨List.mem_of_find?_eq_some h, by simpa using hid⟩

theorem IsDistinct.nodup_nodeIds {g : Graph α} (hg : g.IsDistinct) :
    (g.nodes.map (·.id)).Nodup := by
  simpa [identities, Function.comp_def, Node.identity] using hg.ids

theorem IsDistinct.nodup_nodeStepIds {g : Graph α} (hg : g.IsDistinct) :
    (g.nodes.map (·.data.stepId)).Nodup := by
  simpa [identities, Function.comp_def, Node.identity] using hg.stepIds

/-- Where ids are distinct, an id finds the node that has it. -/
theorem IsDistinct.eq_of_node? {g : Graph α} (hg : g.IsDistinct) {node found : Node α}
    (hnode : node ∈ g.nodes) (hfound : g.node? node.id = some found) : found = node := by
  obtain ⟨hmem, hid⟩ := mem_and_id_eq_of_node? hfound
  exact List.inj_on_of_nodup_map hg.nodup_nodeIds hmem hnode hid

theorem IsDistinct.identity_eq_of_node? {g : Graph α} (hg : g.IsDistinct) {identity : Identity}
    (hidentity : identity ∈ g.identities) {found : Node α}
    (hfound : g.node? identity.id = some found) : found.identity = identity := by
  obtain ⟨node, hnode, rfl⟩ := List.mem_map.1 hidentity
  rw [hg.eq_of_node? hnode hfound]

theorem hasNode_of_node? {g : Graph α} {id : String} {node : Node α} (h : g.node? id = some node) :
    g.hasNode id = true := by
  obtain ⟨hnode, hid⟩ := mem_and_id_eq_of_node? h
  rw [hasNode, List.any_eq_true]
  exact ⟨node, hnode, by simpa using hid⟩

/-- Where the identities stay, the edges need ends that were there. -/
theorem isAttached_of_identities {g g' : Graph α} (h : g'.identities = g.identities)
    (hedges : ∀ edge ∈ g'.edges, g.resolves edge = true) : g'.IsAttached := by
  intro edge hedge
  rw [resolves_congr h]
  exact hedges edge hedge

/-- When a node goes, the ids of others stay. -/
theorem hasNode_of_identities_eraseP {g g' : Graph α} {removed id : String}
    (h : g'.identities = g.identities.eraseP (·.id == removed)) (hne : id ≠ removed)
    (hid : g.hasNode id = true) : g'.hasNode id = true := by
  rw [hasNode_eq_any, List.any_eq_true] at hid ⊢
  obtain ⟨identity, hidentity, hkey⟩ := hid
  refine ⟨identity, h ▸ (List.mem_eraseP_of_neg ?_).2 hidentity, hkey⟩
  rw [beq_iff_eq.1 hkey]
  simpa using hne

/-- The edges beside a new one are edges that were there. -/
theorem sublist_edgesBeside (edge : Edge) (takesPath : Bool) (edges : List Edge) :
    (edgesBeside edge takesPath edges).Sublist edges := by
  rw [edgesBeside]
  split
  · exact List.filter_sublist
  · exact List.Sublist.refl edges

/-- An edit keeps edges attached. -/
theorem IsAttached.rerouted {g g' : Graph α} {edit : Edit α} (hg : g.IsAttached)
    (h : g.Rerouted edit g') : g'.IsAttached := by
  cases h with
  | push _ node hnew htargets =>
    intro edge hedge
    have hends := hg edge hedge
    simp only [resolves, hasNode, pushNode, List.any_append, Bool.and_eq_true] at hends ⊢
    exact ⟨by simp [hends.1], by simp [hends.2]⟩
  | keep _ _ hedges hroutes =>
    refine isAttached_of_identities (identities_of_map_route hroutes) fun edge hedge => ?_
    exact hg edge (hedges ▸ hedge)
  | remove id node hnode =>
    intro edge hedge
    obtain ⟨hedge, htouches⟩ := List.mem_filter.1 hedge
    simp only [Edge.touches, Bool.not_eq_true', Bool.or_eq_false_iff, beq_eq_false_iff_ne]
      at htouches
    obtain ⟨hsource, htarget⟩ := Bool.and_eq_true_iff.1 (hg edge hedge)
    exact Bool.and_eq_true_iff.2
      ⟨hasNode_of_identities_eraseP (identities_eraseP_map g id _) htouches.1 hsource,
        hasNode_of_identities_eraseP (identities_eraseP_map g id _) htouches.2 htarget⟩
  | connect newId source target handle sourceNode targetNode hsource htarget hnew hrange =>
    refine isAttached_of_identities (identities_noteTarget g source _ _) fun edge hedge => ?_
    rcases List.mem_append.1 hedge with hedge | hedge
    · exact hg edge ((sublist_edgesBeside _ _ _).mem hedge)
    · rw [List.mem_singleton.1 hedge]
      exact Bool.and_eq_true_iff.2 ⟨hasNode_of_node? hsource, hasNode_of_node? htarget⟩
  | disconnect id edge hedge =>
    refine isAttached_of_identities (identities_noteTarget g edge.source _ _) fun other hother => ?_
    exact hg other (List.mem_of_mem_eraseP hother)
  | addPath id name => exact isAttached_of_identities (identities_updateBranches g id _) hg
  | removePath id index node hnode hkind hrange =>
    refine isAttached_of_identities (identities_updateBranches g id _) fun edge hedge => ?_
    obtain ⟨old, hold, _, rfl⟩ := mem_edgesWithoutPath.1 hedge
    have hends := hg old hold
    unfold resolves at hends ⊢
    split
    · rwa [source_renumberHandle, target_renumberHandle]
    · exact hends

section Apply

variable [Coordinate α] {g : Graph α} {edit : Edit α}

theorem IsDistinct.apply (hg : g.IsDistinct) (hfresh : g.isFresh edit = true) :
    (g.apply edit).IsDistinct := by
  rcases apply_eq_or_edited g edit with h | h
  · rwa [h]
  · exact hg.rerouted hfresh h.rerouted

theorem IsAttached.apply (hg : g.IsAttached) : (g.apply edit).IsAttached := by
  rcases apply_eq_or_edited g edit with h | h
  · rwa [h]
  · exact hg.rerouted h.rerouted

end Apply

end Graph

end StepGraph
