import StepGraph.Proofs.Continues
import StepGraph.Proofs.Editing.Exclusive
import StepGraph.Proofs.Editing.Origin
import StepGraph.Proofs.Layout.Arranged
import StepGraph.Proofs.Workflow.Steps

/-!
# What a session leaves alone

Edits rewrite the lists of a graph, yet touch only what they name.  A node stays until an edit
removes it by its id, keeps its place among the others and most of its data, and is configured or
given other paths only by edits that name it.  An edge that stays keeps its ends, and its handle but
for the renumbering after a path of its source is gone.  What is new comes last.

There are five groups.

* What edits name.  `Node.IsKept` and `Edge.IsKept` say what a session makes of a node and of an
  edge, given the edits of it that succeed.
* Nodes, with `continues_nodes_edited` for one edit.
* Edges, with `continues_edges_edited` for one edit.
* Sessions.  `Keeps.trans` puts two stretches together, and `keeps_run` puts together any number.
* Workflows.  `isFramed_run` adds what a session leaves of the steps and of where they start.
-/

namespace StepGraph

variable {α : Type}

/-! ## What edits name -/

namespace Edit

/-- The id whose node an edit removes. -/
def removedNode? : Edit α → Option String
  | .removeNode id => some id
  | _ => none

/-- The id whose action an edit sets up. -/
def configuredNode? : Edit α → Option String
  | .setAction id _ _ | .setConfigValue id _ _ => some id
  | _ => none

/-- The id whose paths an edit adds to or removes from. -/
def reshapedNode? : Edit α → Option String
  | .addBranchPath id _ | .removeBranchPath id _ => some id
  | _ => none

/-- Whether an edit puts the node of an id to another place. -/
def moves (id : String) : Edit α → Bool
  | .moveNode id' _ => id' == id
  | .arrange => true
  | _ => false

/-- The index of the path of an id that an edit removes. -/
def pathGone? (id : String) : Edit α → Option Nat
  | .removeBranchPath id' index => if id = id' then some index else none
  | _ => none

/-- An edit after which an edge is gone. -/
def Drops (edge : Edge) : Edit α → Prop
  | .removeNode id => edge.touches id = true
  | .connect _ source _ handle =>
    edge.source = source ∧ edge.sourceHandle = handle ∧ edge.hasExclusiveHandle = true
  | .disconnect id => edge.id = id
  | .removeBranchPath id index => edge.source = id ∧ edge.branchIndex? = some index
  | _ => False

end Edit

/-- What no edit changes of a node. -/
structure Lasting where
  identity : Identity
  stepName : String
  label : String
  extra : Fields

/-- The lasting part of a node. -/
def Node.lasting (node : Node α) : Lasting :=
  ⟨node.identity, node.data.stepName, node.data.label, node.data.extra⟩

/-- What successful edits make of a node that stays. -/
structure Node.IsKept (edits : List (Edit α)) (old new : Node α) : Prop where
  stays : ∀ edit ∈ edits, edit.removedNode? ≠ some old.id
  lasting : new.lasting = old.lasting
  position : (∀ edit ∈ edits, edit.moves old.id = false) → new.position = old.position
  action : (∀ edit ∈ edits, edit.configuredNode? ≠ some old.id) →
    new.data.actionId = old.data.actionId ∧ new.data.definition = old.data.definition ∧
      new.data.config = old.data.config
  paths : (∀ edit ∈ edits, edit.reshapedNode? ≠ some old.id) →
    new.data.branches.map (·.withoutNote) = old.data.branches.map (·.withoutNote)

/-- A node that successful edits remove. -/
def Node.IsRemoved (edits : List (Edit α)) (node : Node α) : Prop :=
  ∃ edit ∈ edits, edit.removedNode? = some node.id

/-- A node that successful edits make. -/
def Node.IsMade (edits : List (Edit α)) (node : Node α) : Prop :=
  ∃ edit ∈ edits, edit.newNode? = some (node.id, node.data.stepId)

/-- An edge after the paths of its source that edits remove are gone. -/
def Edge.renumbered (edits : List (Edit α)) (edge : Edge) : Edge :=
  (edits.filterMap (Edit.pathGone? edge.source)).foldl
    (fun edge index => Graph.renumberHandle index edge) edge

/-- What successful edits make of an edge that stays. -/
structure Edge.IsKept (edits : List (Edit α)) (old new : Edge) : Prop where
  link : new.link = old.link
  targetHandle : new.targetHandle = old.targetHandle
  sourceHandle : (∀ edit ∈ edits, edit.pathGone? old.source = none) →
    new.sourceHandle = old.sourceHandle
  renumbered : new = old.renumbered edits

/-- An edge that is gone after one of a list of successful edits, as it has been renumbered by
then. -/
def Edge.IsDropped (edits : List (Edit α)) (edge : Edge) : Prop :=
  ∃ before edit after, edits = before ++ edit :: after ∧ edit.Drops (edge.renumbered before)

/-- An edge that successful edits make. -/
def Edge.IsMade (edits : List (Edit α)) (edge : Edge) : Prop :=
  ∃ edit ∈ edits, edit.newLink? = some edge.link

/-! ## Nodes -/

theorem Node.IsKept.id_eq {edits : List (Edit α)} {old new : Node α} (h : old.IsKept edits new) :
    new.id = old.id := congrArg (·.identity.id) h.lasting

theorem Node.IsKept.trans {edits edits' : List (Edit α)} {old mid new : Node α}
    (h : old.IsKept edits mid) (h' : mid.IsKept edits' new) : old.IsKept (edits ++ edits') new := by
  have hid := h.id_eq
  have hsplit : ∀ {p : Edit α → Prop}, (∀ edit ∈ edits ++ edits', p edit) →
      (∀ edit ∈ edits, p edit) ∧ ∀ edit ∈ edits', p edit := by
    intro p
    exact List.forall_mem_append.1
  refine {
    stays := List.forall_mem_append.2 ⟨h.stays, hid ▸ h'.stays⟩
    lasting := h'.lasting.trans h.lasting
    position := fun hmoves => ?_
    action := fun hconfigures => ?_
    paths := fun hreshapes => ?_ }
  · obtain ⟨hfirst, hsecond⟩ := hsplit hmoves
    exact (h'.position (hid ▸ hsecond)).trans (h.position hfirst)
  · obtain ⟨hfirst, hsecond⟩ := hsplit hconfigures
    obtain ⟨haction, hdefinition, hconfig⟩ := h.action hfirst
    obtain ⟨haction', hdefinition', hconfig'⟩ := h'.action (hid ▸ hsecond)
    exact ⟨haction'.trans haction, hdefinition'.trans hdefinition, hconfig'.trans hconfig⟩
  · obtain ⟨hfirst, hsecond⟩ := hsplit hreshapes
    exact (h'.paths (hid ▸ hsecond)).trans (h.paths hfirst)

section Singleton

variable {edit : Edit α} {old new : Node α}

/-- What one edit makes of a node. -/
theorem Node.isKept_singleton (hstays : edit.removedNode? ≠ some old.id)
    (hlasting : new.lasting = old.lasting)
    (hposition : edit.moves old.id = false → new.position = old.position)
    (haction : edit.configuredNode? ≠ some old.id →
      new.data.actionId = old.data.actionId ∧ new.data.definition = old.data.definition ∧
        new.data.config = old.data.config)
    (hpaths : edit.reshapedNode? ≠ some old.id →
      new.data.branches.map (·.withoutNote) = old.data.branches.map (·.withoutNote)) :
    old.IsKept [edit] new where
  stays := by simpa using hstays
  lasting := hlasting
  position h := hposition (h edit (List.mem_singleton.2 rfl))
  action h := haction (h edit (List.mem_singleton.2 rfl))
  paths h := hpaths (h edit (List.mem_singleton.2 rfl))

theorem Node.isKept_self (hstays : edit.removedNode? ≠ some old.id) : old.IsKept [edit] old :=
  isKept_singleton hstays rfl (fun _ => rfl) (fun _ => ⟨rfl, rfl, rfl⟩) fun _ => rfl

/-- Noting where paths lead changes nothing else of a node. -/
theorem Node.isKept_updateBranches (hstays : edit.removedNode? ≠ some old.id)
    {f : List BranchPath → List BranchPath}
    (hpaths : (f old.data.branches).map (·.withoutNote) =
      old.data.branches.map (·.withoutNote)) :
    old.IsKept [edit] (old.updateBranches f) :=
  isKept_singleton hstays rfl (fun _ => rfl) (fun _ => ⟨rfl, rfl, rfl⟩) fun _ => hpaths

/-- An edit that removes no node keeps every node that it does not change. -/
theorem carried_self (hstays : edit.removedNode? = none) (nodes : List (Node α)) :
    Carried (Node.IsKept [edit]) (Node.IsRemoved [edit]) nodes nodes := by
  refine .of_forall₂ (List.forall₂_same.2 fun node _ => Node.isKept_self ?_)
  simp [hstays]

end Singleton

namespace Graph

/-- A change of the node of an id carries all nodes over. -/
theorem carried_updateNode {edit : Edit α} {id : String} {f : Node α → Node α}
    (hstays : edit.removedNode? = none)
    (hf : ∀ node : Node α, node.id = id → node.IsKept [edit] (f node)) (g : Graph α) :
    Carried (Node.IsKept [edit]) (Node.IsRemoved [edit]) g.nodes (g.updateNode id f).nodes := by
  refine .of_forall₂ (forall₂_updateFirst (fun node => ?_) (fun node hnode => ?_) g.nodes)
  · exact Node.isKept_self (by simp [hstays])
  · exact hf node (beq_iff_eq.1 hnode)

theorem carried_noteTarget {edit : Edit α} (hstays : edit.removedNode? = none) (g : Graph α)
    (id : String) (path? : Option Nat) (target : Option String) :
    Carried (Node.IsKept [edit]) (Node.IsRemoved [edit]) g.nodes
      (g.noteTarget id path? target).nodes := by
  cases path? with
  | none => exact carried_self hstays g.nodes
  | some index =>
    refine carried_updateNode hstays (fun node _ => Node.isKept_updateBranches ?_ ?_) g
    · simp [hstays]
    · apply map_modify_of_forall_eq
      intro path
      rfl

/-- Where ids are distinct, the node that is removed is the only one of its id. -/
theorem carried_removeNode {g : Graph α} (hids : (g.nodes.map (·.id)).Nodup) (id stepId : String) :
    Carried (Node.IsKept [.removeNode id]) (Node.IsRemoved [.removeNode id]) g.nodes
      ((g.nodes.eraseP (·.id == id)).map fun other =>
        other.updateBranches (·.map (forgetTarget stepId))) := by
  rw [eraseP_eq_filter hids]
  refine .filter_map (fun node _ hnode => ?_) fun node _ hnode => ?_
  · have hne : node.id ≠ id := by simpa using hnode
    apply Node.isKept_updateBranches
    · intro hid
      exact hne (Option.some.inj hid).symm
    · rw [List.map_map]
      refine List.map_congr_left fun path _ => ?_
      rw [Function.comp_apply, forgetTarget]
      split <;> rfl
  · have hid : node.id = id := by simpa using hnode
    exact ⟨.removeNode id, List.mem_singleton.2 rfl, congrArg some hid.symm⟩

variable [Coordinate α]

/-- Arranging moves nodes and does nothing else to them. -/
theorem carried_arrange (g : Graph α) :
    Carried (Node.IsKept [.arrange]) (Node.IsRemoved [.arrange]) g.nodes g.arrange.nodes := by
  refine .of_forall₂ (g.forall₂_isMoved_arrange.imp fun old new hmoved => ?_)
  rw [hmoved]
  exact Node.isKept_singleton nofun rfl nofun (fun _ => ⟨rfl, rfl, rfl⟩) fun _ => rfl

/-- What one successful edit makes of the nodes. -/
theorem continues_nodes_edited {g g' : Graph α} {edit : Edit α}
    (hids : (g.nodes.map (·.id)).Nodup) (h : g.Edited edit g') :
    Continues (Node.IsKept [edit]) (Node.IsRemoved [edit]) (Node.IsMade [edit]) g.nodes
      g'.nodes := by
  have hmade : ∀ node : Node α, edit.newNode? = some (node.id, node.data.stepId) →
      node.IsMade [edit] := fun node hnew => ⟨edit, List.mem_singleton.2 rfl, hnew⟩
  cases h with
  | addNode newId newStepId kind position =>
    exact .append_singleton (carried_self rfl g.nodes) (hmade _ (by cases kind <;> rfl))
  | addNodeAtDefault newId newStepId kind viewCentre =>
    exact .append_singleton (carried_self rfl g.nodes) (hmade _ (by cases kind <;> rfl))
  | duplicateNode newId newStepId id node hnode =>
    exact .append_singleton (carried_self rfl g.nodes) (hmade _ rfl)
  | removeNode id node hnode => exact .of_carried (carried_removeNode hids id node.data.stepId)
  | moveNode id position node hnode =>
    refine .of_carried (carried_updateNode rfl (fun old hid => ?_) g)
    refine Node.isKept_singleton nofun rfl (fun hother => ?_) (fun _ => ⟨rfl, rfl, rfl⟩)
      fun _ => rfl
    exact absurd hid.symm (by simpa [Edit.moves] using hother)
  | connect newId source target handle sourceNode targetNode hsource htarget hne hnew hrange =>
    exact .of_carried (carried_noteTarget rfl g source _ _)
  | disconnect id edge hedge => exact .of_carried (carried_noteTarget rfl g edge.source _ _)
  | setAction id actionId definition node hnode hkind =>
    refine .of_carried (carried_updateNode rfl (fun old hid => ?_) g)
    exact Node.isKept_singleton nofun rfl (fun _ => rfl)
      (fun hother => absurd (congrArg some hid.symm) hother) fun _ => rfl
  | setConfigValue id key value node hnode hkind =>
    refine .of_carried (carried_updateNode rfl (fun old hid => ?_) g)
    exact Node.isKept_singleton nofun rfl (fun _ => rfl)
      (fun hother => absurd (congrArg some hid.symm) hother) fun _ => rfl
  | addBranchPath id name node hnode hkind =>
    refine .of_carried (carried_updateNode rfl (fun old hid => ?_) g)
    exact Node.isKept_singleton nofun rfl (fun _ => rfl) (fun _ => ⟨rfl, rfl, rfl⟩)
      fun hother => absurd (congrArg some hid.symm) hother
  | removeBranchPath id index node hnode hkind hleast hrange =>
    refine .of_carried (carried_updateNode rfl (fun old hid => ?_) g)
    exact Node.isKept_singleton nofun rfl (fun _ => rfl) (fun _ => ⟨rfl, rfl, rfl⟩)
      fun hother => absurd (congrArg some hid.symm) hother
  | arrange => exact .of_carried g.carried_arrange

end Graph

/-! ## Edges -/

section Renumbered

variable {edits edits' : List (Edit α)} {edit : Edit α} {edge old mid new : Edge}

theorem targetHandle_renumberHandle (index : Nat) (edge : Edge) :
    (Graph.renumberHandle index edge).targetHandle = edge.targetHandle := by
  rw [Graph.renumberHandle.eq_def]
  split
  · split <;> rfl
  · rfl

/-- What one renumbering keeps, any number of them keeps. -/
theorem foldl_renumberHandle_eq {β : Type} {value : Edge → β}
    (h : ∀ index edge, value (Graph.renumberHandle index edge) = value edge) (indices : List Nat)
    (edge : Edge) :
    value (indices.foldl (fun edge index => Graph.renumberHandle index edge) edge) =
      value edge := by
  induction indices generalizing edge with
  | nil => rfl
  | cons index rest ih => rw [List.foldl_cons, ih, h]

theorem Edge.link_renumbered (edits : List (Edit α)) (edge : Edge) :
    (edge.renumbered edits).link = edge.link :=
  foldl_renumberHandle_eq Graph.link_renumberHandle _ edge

/-- Where no path of the source is removed, the edge stays as it is. -/
theorem Edge.renumbered_eq_self (h : ∀ edit ∈ edits, edit.pathGone? edge.source = none) :
    edge.renumbered edits = edge := by
  rw [renumbered, List.filterMap_eq_nil_iff.2 h, List.foldl_nil]

theorem Edge.renumbered_append (edits edits' : List (Edit α)) (edge : Edge) :
    edge.renumbered (edits ++ edits') = (edge.renumbered edits).renumbered edits' := by
  have hsource : (edge.renumbered edits).source = edge.source :=
    congrArg Link.source (edge.link_renumbered edits)
  rw [renumbered, List.filterMap_append, List.foldl_append, renumbered, hsource]
  rfl

theorem Edge.isKept_renumbered (edits : List (Edit α)) (edge : Edge) :
    edge.IsKept edits (edge.renumbered edits) where
  link := edge.link_renumbered edits
  targetHandle := foldl_renumberHandle_eq targetHandle_renumberHandle _ edge
  sourceHandle h := congrArg Edge.sourceHandle (renumbered_eq_self h)
  renumbered := rfl

theorem Edge.IsKept.trans (h : old.IsKept edits mid) (h' : mid.IsKept edits' new) :
    old.IsKept (edits ++ edits') new := by
  have hnew : new = old.renumbered (edits ++ edits') := by
    rw [renumbered_append, ← h.renumbered]
    exact h'.renumbered
  rw [hnew]
  exact old.isKept_renumbered _

/-- An edge that is gone stays away. -/
theorem Edge.IsDropped.append (h : edge.IsDropped edits) (edits' : List (Edit α)) :
    edge.IsDropped (edits ++ edits') := by
  obtain ⟨before, edit, after, rfl, hdrops⟩ := h
  exact ⟨before, edit, after ++ edits', by rw [List.append_assoc, List.cons_append], hdrops⟩

/-- An edge that is kept may be gone later. -/
theorem Edge.IsKept.isDropped_append (h : old.IsKept edits mid) (h' : mid.IsDropped edits') :
    old.IsDropped (edits ++ edits') := by
  obtain ⟨before, edit, after, rfl, hdrops⟩ := h'
  refine ⟨edits ++ before, edit, after, (List.append_assoc _ _ _).symm, ?_⟩
  rwa [renumbered_append, ← h.renumbered]

theorem Edge.isKept_self (h : edit.pathGone? edge.source = none) : edge.IsKept [edit] edge := by
  have hkept := edge.isKept_renumbered [edit]
  rwa [renumbered_eq_self (by simpa using h)] at hkept

theorem Edge.isDropped_singleton (h : edit.Drops edge) : edge.IsDropped [edit] :=
  ⟨[], edit, [], rfl, h⟩

end Renumbered

namespace Graph

/-- An edit that removes no path keeps the edges that it does not drop. -/
theorem carried_filter_edges {edit : Edit α} (hpath : ∀ id, edit.pathGone? id = none)
    {p : Edge → Bool} (hdrops : ∀ edge, p edge = false → edit.Drops edge) (edges : List Edge) :
    Carried (Edge.IsKept [edit]) (Edge.IsDropped [edit]) edges (edges.filter p) := by
  rw [← List.map_id (edges.filter p)]
  refine .filter_map (fun edge _ _ => ?_) fun edge _ hp => ?_
  · exact Edge.isKept_self (hpath edge.source)
  · exact Edge.isDropped_singleton (hdrops edge hp)

theorem carried_edges_self {edit : Edit α} (hpath : ∀ id, edit.pathGone? id = none)
    (edges : List Edge) :
    Carried (Edge.IsKept [edit]) (Edge.IsDropped [edit]) edges edges :=
  .of_forall₂ (List.forall₂_same.2 fun edge _ => Edge.isKept_self (hpath edge.source))

/-- A connection drops edges through the handle that it takes, if that leads to one node only. -/
theorem carried_edgesBeside {newId source target : String} {handle : Option String}
    (sourceNode : Node α) (edges : List Edge) :
    Carried (Edge.IsKept [Edit.connect (α := α) newId source target handle])
      (Edge.IsDropped [Edit.connect (α := α) newId source target handle]) edges
      (edgesBeside ⟨newId, source, target, handle, none⟩ (pathTaken? sourceNode handle).isSome
        edges) := by
  rw [edgesBeside]
  split
  · rename_i hone
    refine carried_filter_edges (fun _ => rfl) (fun edge hedge => ?_) edges
    obtain ⟨hsource, rfl⟩ : edge.source = source ∧ edge.sourceHandle = handle := by
      simpa using hedge
    refine ⟨hsource, rfl, ?_⟩
    rw [Bool.or_eq_true] at hone
    rw [Edge.hasExclusiveHandle, Bool.or_eq_true]
    apply hone.imp_left
    intro htaken
    obtain ⟨i, hi⟩ := Option.isSome_iff_exists.1 htaken
    exact Option.isSome_iff_exists.2 ⟨i, (pathTaken?_eq_some_iff.1 hi).2⟩
  · exact carried_edges_self (fun _ => rfl) edges

theorem renumbered_removeBranchPath (id : String) (index : Nat) (edge : Edge) :
    edge.renumbered [Edit.removeBranchPath (α := α) id index] =
      if edge.source = id then renumberHandle index edge else edge := by
  by_cases hid : edge.source = id
  · simp [Edge.renumbered, Edit.pathGone?, hid]
  · simp [Edge.renumbered, Edit.pathGone?, hid]

/-- Removing a path drops its edges and renumbers those of the later paths. -/
theorem carried_edgesWithoutPath (id : String) (index : Nat) (edges : List Edge) :
    Carried (Edge.IsKept [Edit.removeBranchPath (α := α) id index])
      (Edge.IsDropped [Edit.removeBranchPath (α := α) id index]) edges
      (edgesWithoutPath id index edges) := by
  refine .filter_map (fun edge _ _ => ?_) fun edge _ hedge => ?_
  · rw [← renumbered_removeBranchPath (α := α)]
    exact edge.isKept_renumbered _
  · apply Edge.isDropped_singleton
    show edge.source = id ∧ edge.branchIndex? = some index
    simpa using hedge

variable [Coordinate α]

/-- What one successful edit makes of the edges. -/
theorem continues_edges_edited {g g' : Graph α} {edit : Edit α} (h : g.Edited edit g') :
    Continues (Edge.IsKept [edit]) (Edge.IsDropped [edit]) (Edge.IsMade [edit]) g.edges
      g'.edges := by
  have hsame : (∀ id, edit.pathGone? id = none) → g'.edges = g.edges →
      Continues (Edge.IsKept [edit]) (Edge.IsDropped [edit]) (Edge.IsMade [edit]) g.edges
        g'.edges := by
    intro hpath hedges
    rw [hedges]
    exact .of_carried (carried_edges_self hpath g.edges)
  cases h with
  | removeNode id node hnode =>
    refine .of_carried (carried_filter_edges (fun _ => rfl) (fun edge hedge => ?_) g.edges)
    show edge.touches id = true
    simpa using hedge
  | connect newId source target handle sourceNode targetNode hsource htarget hne hnew hrange =>
    refine .append_singleton (carried_edgesBeside sourceNode g.edges) ?_
    exact ⟨_, List.mem_singleton.2 rfl, rfl⟩
  | disconnect id edge hedge =>
    refine .of_carried (.eraseP (fun other => ?_) (fun other hother => ?_) g.edges)
    · exact Edge.isKept_self rfl
    · exact Edge.isDropped_singleton (beq_iff_eq.1 hother)
  | removeBranchPath id index node hnode hkind hleast hrange =>
    exact .of_carried (carried_edgesWithoutPath id index g.edges)
  | _ => exact hsame (fun _ => rfl) rfl

end Graph

/-! ## Sessions -/

section Sessions

variable {edits edits' : List (Edit α)}

theorem Node.isKept_nil (node : Node α) : node.IsKept [] node where
  stays := nofun
  lasting := rfl
  position _ := rfl
  action _ := ⟨rfl, rfl, rfl⟩
  paths _ := rfl

theorem Node.IsRemoved.append_right {node : Node α} (h : node.IsRemoved edits)
    (edits' : List (Edit α)) : node.IsRemoved (edits ++ edits') := by
  obtain ⟨edit, hedit, hremoved⟩ := h
  exact ⟨edit, List.mem_append_left _ hedit, hremoved⟩

/-- A node that is kept may be removed later. -/
theorem Node.IsKept.isRemoved_append {old mid : Node α} (h : old.IsKept edits mid)
    (h' : mid.IsRemoved edits') : old.IsRemoved (edits ++ edits') := by
  obtain ⟨edit, hedit, hremoved⟩ := h'
  exact ⟨edit, List.mem_append_right _ hedit, hremoved.trans (congrArg some h.id_eq)⟩

/-- A new node that is kept is still new. -/
theorem Node.IsMade.append {mid new : Node α} (h : mid.IsMade edits) (h' : mid.IsKept edits' new) :
    new.IsMade (edits ++ edits') := by
  obtain ⟨edit, hedit, hmade⟩ := h
  have hid : new.id = mid.id := h'.id_eq
  have hstepId : new.data.stepId = mid.data.stepId := congrArg (·.identity.stepId) h'.lasting
  refine ⟨edit, List.mem_append_left _ hedit, ?_⟩
  rw [hid, hstepId, hmade]

theorem Node.IsMade.append_left {node : Node α} (h : node.IsMade edits') (edits : List (Edit α)) :
    node.IsMade (edits ++ edits') := by
  obtain ⟨edit, hedit, hmade⟩ := h
  exact ⟨edit, List.mem_append_right _ hedit, hmade⟩

theorem Edge.IsMade.append {mid new : Edge} (h : mid.IsMade edits) (h' : mid.IsKept edits' new) :
    new.IsMade (edits ++ edits') := by
  obtain ⟨edit, hedit, hmade⟩ := h
  exact ⟨edit, List.mem_append_left _ hedit, hmade.trans (congrArg some h'.link.symm)⟩

theorem Edge.IsMade.append_left {edge : Edge} (h : edge.IsMade edits') (edits : List (Edit α)) :
    edge.IsMade (edits ++ edits') := by
  obtain ⟨edit, hedit, hmade⟩ := h
  exact ⟨edit, List.mem_append_right _ hedit, hmade⟩

end Sessions

namespace Graph

/-- What successful edits make of the nodes and the edges of a graph. -/
structure Keeps (edits : List (Edit α)) (g g' : Graph α) : Prop where
  nodes : Continues (Node.IsKept edits) (Node.IsRemoved edits) (Node.IsMade edits) g.nodes g'.nodes
  edges : Continues (Edge.IsKept edits) (Edge.IsDropped edits) (Edge.IsMade edits) g.edges g'.edges

theorem Keeps.refl (g : Graph α) : g.Keeps [] g where
  nodes := .of_carried (.of_forall₂ (List.forall₂_same.2 fun node _ => node.isKept_nil))
  edges := .of_carried (.of_forall₂ (List.forall₂_same.2 fun edge _ => edge.isKept_renumbered []))

/-- Two stretches of edits, one after the other. -/
theorem Keeps.trans {edits edits' : List (Edit α)} {g mid g' : Graph α} (h : g.Keeps edits mid)
    (h' : mid.Keeps edits' g') : g.Keeps (edits ++ edits') g' where
  nodes := h.nodes.trans h'.nodes (fun _ _ _ => Node.IsKept.trans)
    (fun _ hremoved => hremoved.append_right edits') (fun _ _ => Node.IsKept.isRemoved_append)
    (fun _ _ => Node.IsMade.append) fun _ hmade => hmade.append_left edits
  edges := h.edges.trans h'.edges (fun _ _ _ => Edge.IsKept.trans)
    (fun _ hdropped => hdropped.append edits') (fun _ _ => Edge.IsKept.isDropped_append)
    (fun _ _ => Edge.IsMade.append) fun _ hmade => hmade.append_left edits

/-- A node that an edit makes has an id that no node has. -/
def namesAnew (g : Graph α) (edit : Edit α) : Bool := edit.newNode?.all fun (id, _) => !g.hasNode id

variable [Coordinate α]

theorem keeps_of_edited {g g' : Graph α} {edit : Edit α} (hids : (g.nodes.map (·.id)).Nodup)
    (h : g.Edited edit g') : g.Keeps [edit] g' :=
  ⟨continues_nodes_edited hids h, continues_edges_edited h⟩

/-- Ids that are given anew stay distinct. -/
theorem nodup_ids_of_edited {g g' : Graph α} {edit : Edit α} (hids : (g.nodes.map (·.id)).Nodup)
    (hnew : g.namesAnew edit = true) (h : g.Edited edit g') : (g'.nodes.map (·.id)).Nodup := by
  have hmap : ∀ g : Graph α, g.nodes.map (·.id) = g.identities.map (·.id) := by
    intro g
    rw [identities, List.map_map]
    rfl
  rw [hmap] at hids ⊢
  refine h.rerouted.nodup_map hids fun identity hmade other hother => ?_
  rw [namesAnew, hmade, Option.all_some, Bool.not_eq_true', hasNode_eq_any,
    List.any_eq_false] at hnew
  simpa using hnew other hother

/-- The edits of a session that succeed. -/
def succeeding (g : Graph α) : List (Edit α) → List (Edit α)
  | [] => []
  | edit :: rest =>
    match g.perform edit with
    | .ok (_, g') => edit :: g'.succeeding rest
    | .error _ => g.succeeding rest

/-- What a session makes of the nodes and the edges. -/
theorem keeps_run {g : Graph α} {edits : List (Edit α)} (hids : (g.nodes.map (·.id)).Nodup)
    (hnew : runsWith namesAnew g edits = true) : g.Keeps (g.succeeding edits) (g.run edits) := by
  induction edits generalizing g with
  | nil => exact .refl g
  | cons edit rest ih =>
    obtain ⟨hedit, hrest⟩ := Bool.and_eq_true_iff.1 hnew
    rw [succeeding]
    show g.Keeps _ ((g.apply edit).run rest)
    cases hperform : g.perform edit with
    | error error =>
      have happly : g.apply edit = g := by rw [apply, hperform]
      rw [happly] at hrest ⊢
      exact ih hids hrest
    | ok outcome =>
      obtain ⟨result, g'⟩ := outcome
      have happly : g.apply edit = g' := by rw [apply, hperform]
      have hedited : g.Edited edit g' := edited_of_perform_eq_ok hperform
      rw [happly] at hrest ⊢
      exact (keeps_of_edited hids hedited).trans
        (ih (nodup_ids_of_edited hids hedit hedited) hrest)

end Graph

/-! ## Workflows -/

/-- Steps of one node, before and after edits that keep it. -/
structure Workflow.Step.IsSame (old new : Workflow.Step) : Prop where
  stepId : new.stepId = old.stepId
  stepName : new.stepName = old.stepName
  kind : new.kind = old.kind

/-- The step of a node that successful edits make. -/
def Workflow.Step.IsMade (edits : List (Edit α)) (step : Workflow.Step) : Prop :=
  ∃ edit ∈ edits, ∃ id, edit.newNode? = some (id, step.stepId)

namespace Graph

/-- The step of a node that successful edits remove. -/
def LosesStep (edits : List (Edit α)) (g : Graph α) (step : Workflow.Step) : Prop :=
  ∃ node ∈ g.nodes, node.IsRemoved edits ∧ step = g.stepFor node

/-- A node at which no run starts after successful edits. -/
def LosesStart (edits : List (Edit α)) (g' : Graph α) (node : Node α) : Prop :=
  node.IsRemoved edits ∨ ∃ edge ∈ g'.resolvedEdges, edge.target = node.id

theorem isSame_stepFor {g g' : Graph α} {edits : List (Edit α)} {old new : Node α}
    (h : old.IsKept edits new) : (g.stepFor old).IsSame (g'.stepFor new) := by
  have hold := g.isStepOf_stepFor old
  have hnew := g'.isStepOf_stepFor new
  have hstepName : new.data.stepName = old.data.stepName := congrArg (·.stepName) h.lasting
  have hlabel : new.data.label = old.data.label := congrArg (·.label) h.lasting
  constructor
  · rw [hnew.stepId, hold.stepId]
    exact congrArg (·.identity.stepId) h.lasting
  · rw [hnew.stepName, hold.stepName, hstepName, hlabel]
  · rw [hnew.kind, hold.kind]
    exact congrArg (·.identity.kind) h.lasting

/-- The steps of a workflow stand in the order of the nodes that they are made for. -/
theorem Keeps.steps {g g' : Graph α} {edits : List (Edit α)} (h : g.Keeps edits g') :
    Continues Workflow.Step.IsSame (LosesStep edits g) (Workflow.Step.IsMade edits)
      (g.nodes.map g.stepFor) (g'.nodes.map g'.stepFor) := by
  refine h.nodes.map (fun _ _ => isSame_stepFor) (fun node hnode hremoved => ?_)
    fun node hmade => ?_
  · exact ⟨node, hnode, hremoved, rfl⟩
  · obtain ⟨edit, hedit, hnew⟩ := hmade
    exact ⟨edit, hedit, node.id, by rw [hnew, (g'.isStepOf_stepFor node).stepId]⟩

/-- The nodes that a run may start at stand in the order of the nodes.  One that is kept is among
them unless an edge leads into it. -/
theorem Keeps.starts {g g' : Graph α} {edits : List (Edit α)} (h : g.Keeps edits g') :
    Continues (Node.IsKept edits) (LosesStart edits g') (Node.IsMade edits) g.nodes
      g'.index.startCandidates := by
  refine h.nodes.filter (fun _ hremoved => Or.inl hremoved) fun old new hkept hcount => Or.inr ?_
  rw [← hkept.id_eq]
  simpa [List.countP_eq_zero] using hcount

/-- What the successful edits of a session leave of a graph and of its workflow. -/
structure IsFramed (edits : List (Edit α)) (g g' : Graph α) : Prop extends g.Keeps edits g' where
  ids : (g'.nodes.map (·.id)).Nodup
  steps : ∀ workflowId verdict verdict', verdict.isValid = true → verdict'.isValid = true →
    ∃ w w', g.compile workflowId verdict = .ok w ∧ g'.compile workflowId verdict' = .ok w' ∧
      Continues Workflow.Step.IsSame (LosesStep edits g) (Workflow.Step.IsMade edits)
        w.steps w'.steps ∧
      w'.start = (g'.index.startCandidates.head?.map (·.data.stepId)).getD ""
  starts : Continues (Node.IsKept edits) (LosesStart edits g') (Node.IsMade edits) g.nodes
    g'.index.startCandidates

variable [Coordinate α]

/-- A session touches only what its successful edits name.  The nodes and edges that stay keep their
order, before all that are new, and so do the steps of a workflow and the nodes that it may start
at. -/
theorem isFramed_run {g : Graph α} {edits : List (Edit α)} (hids : (g.nodes.map (·.id)).Nodup)
    (hnew : runsWith namesAnew g edits = true) :
    g.IsFramed (g.succeeding edits) (g.run edits) := by
  have hkeeps : g.Keeps (g.succeeding edits) (g.run edits) := keeps_run hids hnew
  have hdistinct : ((g.run edits).nodes.map (·.id)).Nodup := by
    refine run_induction (p := fun g => (g.nodes.map (·.id)).Nodup) ?_ hnew hids
    intro g edit hedit hids
    cases g.apply_eq_or_edited edit with
    | inl hsame => rwa [hsame]
    | inr hedited => exact nodup_ids_of_edited hids hedit hedited
  refine { hkeeps with ids := hdistinct, starts := hkeeps.starts, steps := ?_ }
  intro workflowId verdict verdict' hvalid hvalid'
  refine ⟨_, _, (g.compile_of_isValid workflowId hvalid).trans (g.workflow_eq_ok workflowId),
    ((g.run edits).compile_of_isValid workflowId hvalid').trans
      ((g.run edits).workflow_eq_ok workflowId), hkeeps.steps, ?_⟩
  rw [← Index.startNode?_index]
  rfl

/-- A branch with three paths, of which the first and the last lead on, and an action with a note of
the editor. -/
def pathsGraph : Graph Rat where
  nodes := [
    { id := "n1"
      kind := .branch
      position := ⟨0, 0⟩
      data := { StepData.empty with
        stepId := "s1"
        branches := [⟨"Big", [], .all, some "s2"⟩, .ofName "Small",
          ⟨"Else", [], .any, some "s3"⟩] } },
    .fresh "n2" "s2" .action ⟨0, 200⟩,
    { id := "n3"
      kind := .action
      position := ⟨200, 200⟩
      data := { StepData.empty with stepId := "s3", extra := .ofList [("colour", .str "red")] } },
    .fresh "n4" "s4" .action ⟨400, 0⟩]
  edges := [⟨"e1", "n1", "n2", some "branch-0", none⟩, ⟨"e2", "n1", "n3", some "branch-2", none⟩,
    ⟨"e3", "n2", "n4", none, none⟩]

/-- The open path and the last node go, an action is set up and copied, and the copy is connected.
A branch cannot be configured, and what is gone cannot be moved. -/
def pathsSession : List (Edit Rat) :=
  [.removeBranchPath "n1" 1, .setAction "n2" "mail" none, .setConfigValue "n1" "to" (.str "all"),
    .removeNode "n4", .moveNode "n4" ⟨0, 0⟩, .duplicateNode "n5" "s5" "n2",
    .connect "e4" "n5" "n3" none]

theorem isFramed_run_pathsGraph :
    pathsGraph.IsFramed (pathsGraph.succeeding pathsSession) (pathsGraph.run pathsSession) ∧
      (pathsGraph.run pathsSession).edges =
        [⟨"e1", "n1", "n2", some "branch-0", none⟩, ⟨"e2", "n1", "n3", some "branch-1", none⟩,
          ⟨"e4", "n5", "n3", none, none⟩] ∧
      (pathsGraph.succeeding pathsSession).length = 5 ∧
      (pathsGraph.run pathsSession).index.startCandidates.map (·.id) = ["n1", "n5"] := by
  have hnew : runsWith namesAnew pathsGraph pathsSession = true := by
    decide +kernel
  refine ⟨isFramed_run (by decide) hnew, ?_, ?_, ?_⟩
  · decide +kernel
  · decide +kernel
  · decide +kernel

end Graph

end StepGraph
