import StepGraph.Proofs.Editing.Exclusive
import StepGraph.Proofs.Editing.Origin

/-!
# Well-formed graphs

A session that starts from the empty graph and gives fresh identities to what it makes keeps its
graph well formed, whatever handles it connects and whichever of its edits fail: identities are
distinct, edges join two nodes that are there, nodes have as many paths as their kind asks for, no
edge takes a path that is not there, and an approval is answered by one edge at most.

There are four groups.

* Paths of nodes, which are a matter of single nodes.
* Edges beyond the paths of a branch node.  A connection compares the index that is read from a
  handle with the number of paths, and removing a path goes by the same index, so this holds for
  every spelling of handles.
* Edges of approvals.
* Sessions.  `IsWellFormed.apply` is the step and `isWellFormed_run_take` is the result.
-/

namespace StepGraph

variable {α : Type}

/-! ## Paths of nodes -/

/-- A branch node has two paths at least, and an action has none. -/
def Node.HasPaths (node : Node α) : Prop :=
  match node.kind with
  | .action => node.data.branches = []
  | .branch => 2 ≤ node.data.branches.length

theorem Node.hasPaths_of_action {node : Node α} (h : node.kind = .action) :
    node.HasPaths ↔ node.data.branches = [] := by
  rw [HasPaths, h]

theorem Node.hasPaths_of_branch {node : Node α} (h : node.kind = .branch) :
    node.HasPaths ↔ 2 ≤ node.data.branches.length := by
  rw [HasPaths, h]

theorem Node.hasPaths_fresh (id stepId : String) (kind : NodeKind) (position : Point α) :
    (Node.fresh id stepId kind position).HasPaths := by
  cases kind with
  | action => exact (Node.hasPaths_of_action rfl).2 rfl
  | branch => exact (Node.hasPaths_of_branch rfl).2 (Nat.le_refl 2)

/-- Where the kind stays, only the number of paths matters. -/
theorem Node.HasPaths.of_length {node node' : Node α} (h : node.HasPaths)
    (hkind : node'.kind = node.kind)
    (hlength : node'.data.branches.length = node.data.branches.length) : node'.HasPaths := by
  cases hnode : node.kind with
  | action =>
    rw [Node.hasPaths_of_action hnode, ← List.length_eq_zero_iff] at h
    rw [Node.hasPaths_of_action (hkind.trans hnode), ← List.length_eq_zero_iff, hlength, h]
  | branch =>
    rw [Node.hasPaths_of_branch hnode] at h
    rwa [Node.hasPaths_of_branch (hkind.trans hnode), hlength]

/-- What an edit makes of a node has as many paths as it should, if the node has. -/
theorem Node.Becomes.hasPaths {edit : Edit α} {node node' : Node α} (h : node.Becomes edit node')
    (hnode : node.HasPaths) : node'.HasPaths := by
  cases h with
  | same => exact hnode
  | placed => exact hnode
  | copied => exact hnode.of_length rfl (List.length_map _)
  | forgot => exact hnode.of_length rfl (List.length_map _)
  | noted => exact hnode.of_length rfl (List.length_modify _ _ _)
  | acting => exact hnode
  | configured => exact hnode
  | extended id name _ hkind =>
    have hafter : (node.updateBranches (· ++ [.ofName name])).kind = .branch := hkind
    have htwo := (Node.hasPaths_of_branch hkind).1 hnode
    have hlength : (node.data.branches ++ [BranchPath.ofName name]).length =
        node.data.branches.length + 1 := List.length_append
    rw [Node.hasPaths_of_branch hafter]
    show 2 ≤ (node.data.branches ++ [BranchPath.ofName name]).length
    omega
  | shortened id index _ hkind hleast hrange =>
    have hafter : (node.updateBranches (·.eraseIdx index)).kind = .branch := hkind
    have hlength : (node.data.branches.eraseIdx index).length = node.data.branches.length - 1 :=
      List.length_eraseIdx_of_lt hrange
    rw [Node.hasPaths_of_branch hafter]
    show 2 ≤ (node.data.branches.eraseIdx index).length
    rw [Graph.leastPaths] at hleast
    omega

namespace Graph

/-! ## Edges beyond the paths -/

/-- The edges of a branch node, however their handles are spelled, take paths that are there. -/
def IsRanged (g : Graph α) : Prop :=
  ∀ node ∈ g.nodes, node.isBranch = true → ∀ edge ∈ g.edges, edge.source = node.id →
    ∀ i, edge.branchIndex? = some i → i < node.data.branches.length

theorem isRanged_empty : (empty : Graph α).IsRanged := by simp [IsRanged, empty]

/-- There are no edges beyond the paths. -/
theorem isRanged_iff {g : Graph α} :
    g.IsRanged ↔ ∀ node ∈ g.nodes, node.isBranch = true → ∀ i, node.data.branches.length ≤ i →
      pathEdges g.edges node.id i = [] := by
  constructor
  · intro h node hnode hbranch i hi
    refine List.eq_nil_iff_forall_not_mem.2 fun edge hedge => ?_
    obtain ⟨hmem, hsource, hindex⟩ := mem_pathEdges.1 hedge
    exact Nat.not_lt.2 hi (h node hnode hbranch edge hmem hsource i hindex)
  · intro h node hnode hbranch edge hmem hsource i hindex
    by_contra hi
    have hedge : edge ∈ pathEdges g.edges node.id i := mem_pathEdges.2 ⟨hmem, hsource, hindex⟩
    rw [h node hnode hbranch i (Nat.le_of_not_lt hi)] at hedge
    cases hedge

/-- What bounds the handles of the nodes: their numbers of paths. -/
def shapes (g : Graph α) : List (Identity × Nat) :=
  g.nodes.map fun node => (node.identity, node.data.branches.length)

theorem shapes_noteTarget (g : Graph α) (id : String) (path? : Option Nat)
    (target : Option String) : (g.noteTarget id path? target).shapes = g.shapes := by
  rw [noteTarget.eq_def]
  split
  · refine map_updateFirst (fun node => ?_) g.nodes
    exact Prod.ext rfl (List.length_modify _ _ _)
  · rfl

theorem shapes_of_map_route {g g' : Graph α}
    (h : g'.nodes.map (·.route) = g.nodes.map (·.route)) : g'.shapes = g.shapes := by
  have hshapes := congrArg (List.map fun route => (route.1, route.2.length)) h
  simpa [shapes, Function.comp_def, Node.route] using hshapes

/-- Where the numbers of paths stay, the edges beyond them must not come to be. -/
theorem isRanged_of_shapes_eq {g g' : Graph α} (hshapes : g'.shapes = g.shapes)
    (hedges : ∀ node ∈ g.nodes, node.isBranch = true → ∀ i, node.data.branches.length ≤ i →
      pathEdges g'.edges node.id i = []) : g'.IsRanged := by
  refine isRanged_iff.2 fun node hnode hbranch i hi => ?_
  have hshape : (node.identity, node.data.branches.length) ∈ g.shapes :=
    hshapes ▸ List.mem_map_of_mem hnode
  obtain ⟨old, hold, hsame⟩ := List.mem_map.1 hshape
  simp only [Node.identity, Prod.mk.injEq, Identity.mk.injEq] at hsame
  obtain ⟨⟨hid, hkind, _⟩, hlength⟩ := hsame
  rw [← hid]
  exact hedges old hold (by rwa [Node.isBranch, hkind]) i (hlength ▸ hi)

theorem pathEdges_eq_nil_of_sublist {edges edges' : List Edge} (h : edges'.Sublist edges)
    {id : String} {i : Nat} (hnil : pathEdges edges id i = []) : pathEdges edges' id i = [] := by
  have hlength := length_pathEdges_le_of_sublist h id i
  rw [hnil] at hlength
  exact List.length_eq_zero_iff.1 (Nat.le_zero.1 hlength)

/-- When a path goes, the paths beyond the others are those beyond them before. -/
theorem le_indexBefore {paths : List BranchPath} {index i : Nat} (hrange : index < paths.length)
    (hi : (paths.eraseIdx index).length ≤ i) : paths.length ≤ indexBefore index i := by
  rw [List.length_eraseIdx_of_lt hrange] at hi
  unfold indexBefore
  split <;> omega

/-- Removing a path takes no path from under the edges of others. -/
theorem IsRanged.pathRemoved {g : Graph α} (hg : g.IsRanged) (hdistinct : g.IsDistinct)
    {id : String} {index : Nat} {removed : Node α} (hremoved : g.node? id = some removed)
    (hrange : index < removed.data.branches.length) :
    IsRanged ⟨(g.updateNode id (·.updateBranches (·.eraseIdx index))).nodes,
      edgesWithoutPath id index g.edges⟩ := by
  rw [isRanged_iff] at hg ⊢
  intro node hnode hbranch i hi
  have hnode : node ∈ updateFirst (·.id == id) (·.updateBranches (·.eraseIdx index)) g.nodes :=
    hnode
  rw [updateFirst_eq_map hdistinct.nodup_nodeIds] at hnode
  obtain ⟨old, hold, rfl⟩ := List.mem_map.1 hnode
  by_cases hid : old.id = id
  · rw [if_pos (beq_iff_eq.2 hid)] at hbranch hi ⊢
    have hsame : removed = old := hdistinct.eq_of_node? hold (hid ▸ hremoved)
    have hbefore := le_indexBefore (hsame ▸ hrange) hi
    show pathEdges (edgesWithoutPath id index g.edges) old.id i = []
    rw [hid, pathEdges_edgesWithoutPath_self, ← hid, hg old hold hbranch _ hbefore, List.map_nil]
  · rw [if_neg (by simpa using hid)] at hbranch hi ⊢
    show pathEdges (edgesWithoutPath id index g.edges) old.id i = []
    rw [pathEdges_edgesWithoutPath_ne hid]
    exact hg old hold hbranch i hi

/-- An edit adds no edge beyond the paths of a branch node, and takes no path from under its
edges. -/
theorem IsRanged.rerouted {g g' : Graph α} {edit : Edit α} (hg : g.IsRanged)
    (hdistinct : g.IsDistinct) (hattached : g.IsAttached) (hfresh : g.isFresh edit = true)
    (h : g.Rerouted edit g') : g'.IsRanged := by
  have hnone := isRanged_iff.1 hg
  cases h with
  | push _ new hnew htargets =>
    refine isRanged_iff.2 fun node hnode hbranch i hi => ?_
    rcases List.mem_append.1 hnode with hnode | hnode
    · exact hnone node hnode hbranch i hi
    · rw [List.mem_singleton.1 hnode]
      exact pathEdges_eq_nil hattached (hasNode_eq_false_of_isFresh hfresh hnew) i
  | keep _ _ hedges hroutes =>
    refine isRanged_of_shapes_eq (shapes_of_map_route hroutes) ?_
    rw [hedges]
    exact hnone
  | remove id removed hremoved =>
    refine isRanged_iff.2 fun node hnode hbranch i hi => ?_
    obtain ⟨old, hold, rfl⟩ := List.mem_map.1 hnode
    have hi : old.data.branches.length ≤ i := by
      rwa [Node.updateBranches, Node.updateData, List.length_map] at hi
    have hnil := hnone old (List.mem_of_mem_eraseP hold) hbranch i hi
    exact pathEdges_eq_nil_of_sublist List.filter_sublist hnil
  | connect newId source target handle sourceNode targetNode hsource htarget hnew hrange =>
    refine isRanged_of_shapes_eq (shapes_noteTarget g source _ _) fun node hnode hbranch i hi => ?_
    -- The new edge was checked against the number of paths of its source.
    have hfree : ¬(source = node.id ∧ handle.bind Handle.branchIndex? = some i) := by
      rintro ⟨rfl, hindex⟩
      have hsame : sourceNode = node := hdistinct.eq_of_node? hnode hsource
      have hlt := hrange i (pathTaken?_eq_some_iff.2 ⟨hsame ▸ hbranch, hindex⟩)
      rw [hsame] at hlt
      exact Nat.not_lt.2 hi hlt
    show pathEdges (edgesBeside _ _ g.edges ++ _) node.id i = []
    rw [pathEdges_connected_ne hfree]
    exact hnone node hnode hbranch i hi
  | disconnect id edge hedge =>
    refine isRanged_of_shapes_eq (shapes_noteTarget g edge.source _ _)
      fun node hnode hbranch i hi => ?_
    exact pathEdges_eq_nil_of_sublist List.eraseP_sublist (hnone node hnode hbranch i hi)
  | addPath id name =>
    refine isRanged_iff.2 fun node hnode hbranch i hi => ?_
    rcases mem_updateFirst hnode with hnode | ⟨old, hold, rfl⟩
    · exact hnone node hnode hbranch i hi
    · have hi : (old.data.branches ++ [BranchPath.ofName name]).length ≤ i := hi
      rw [List.length_append] at hi
      exact hnone old (mem_and_id_eq_of_node? hold).1 hbranch i (Nat.le_of_add_right_le hi)
  | removePath id index node hnode hkind hrange => exact hg.pathRemoved hdistinct hnode hrange

/-! ## Edges of approvals -/

/-- The number of edges that leave an id through a handle. -/
def countThrough (edges : List Edge) (id handle : String) : Nat :=
  edges.countP fun edge => edge.source == id && edge.leavesThrough handle

/-- One edge at most leaves through each handle of an approval. -/
def IsDecided (g : Graph α) : Prop :=
  ∀ id handle, Handle.isApproval handle = true → countThrough g.edges id handle ≤ 1

theorem isDecided_empty : (empty : Graph α).IsDecided := by simp [IsDecided, countThrough, empty]

theorem countThrough_le_of_sublist {edges edges' : List Edge} (h : edges'.Sublist edges)
    (id handle : String) : countThrough edges' id handle ≤ countThrough edges id handle :=
  h.countP_le

/-- The handles of an approval belong to no path. -/
theorem branchIndex?_of_isApproval {handle : String} (h : Handle.isApproval handle = true) :
    Handle.branchIndex? handle = none := by
  have hcases : handle = Handle.approve ∨ handle = Handle.reject := by
    simpa [Handle.isApproval] using h
  rcases hcases with rfl | rfl
  · decide
  · decide

/-- An edge is not renumbered to a handle that belongs to no path. -/
theorem leavesThrough_of_renumberHandle {handle : String} (h : Handle.branchIndex? handle = none)
    {index : Nat} {edge : Edge} (hedge : (renumberHandle index edge).leavesThrough handle = true) :
    edge.leavesThrough handle = true := by
  have hnone : (renumberHandle index edge).branchIndex? = none := by
    rw [Edge.branchIndex?, beq_iff_eq.1 hedge, Option.bind_some, h]
  rw [branchIndex?_renumberHandle, Option.map_eq_none_iff] at hnone
  have hsame : renumberHandle index edge = edge := by
    rw [renumberHandle, hnone]
  rwa [hsame] at hedge

theorem countThrough_edgesWithoutPath_le {handle : String} (h : Handle.branchIndex? handle = none)
    (id : String) (index : Nat) (edges : List Edge) (other : String) :
    countThrough (edgesWithoutPath id index edges) other handle ≤
      countThrough edges other handle := by
  unfold edgesWithoutPath countThrough
  rw [List.countP_map]
  refine Nat.le_trans (List.countP_mono_left fun edge _ hedge => ?_) List.filter_sublist.countP_le
  simp only [Function.comp_apply, Bool.and_eq_true] at hedge ⊢
  split at hedge
  · rw [source_renumberHandle] at hedge
    exact ⟨hedge.1, leavesThrough_of_renumberHandle h hedge.2⟩
  · exact hedge

/-- A connection at a handle of an approval takes the place of the one that was there. -/
theorem countThrough_connected_le {edge : Edge} {handle : String}
    (h : Handle.isApproval handle = true) (takesPath : Bool) {edges : List Edge} {id : String}
    (hone : countThrough edges id handle ≤ 1) :
    countThrough (edgesBeside edge takesPath edges ++ [edge]) id handle ≤ 1 := by
  have hkept := countThrough_le_of_sublist (sublist_edgesBeside edge takesPath edges) id handle
  unfold countThrough at *
  rw [List.countP_append]
  by_cases hedge : (edge.source == id && edge.leavesThrough handle) = true
  · have hleaves : edge.sourceHandle = some handle := by
      simpa [Edge.leavesThrough] using (Bool.and_eq_true_iff.1 hedge).2
    have hzero : (edgesBeside edge takesPath edges).countP
        (fun other => other.source == id && other.leavesThrough handle) = 0 := by
      have hexclusive : (takesPath || edge.hasApprovalHandle) = true := by
        simp [Edge.hasApprovalHandle, hleaves, h]
      rw [edgesBeside, if_pos hexclusive, List.countP_eq_zero]
      intro other hother
      have hsource : edge.source = id := by simpa using (Bool.and_eq_true_iff.1 hedge).1
      have hgone := (List.mem_filter.1 hother).2
      rw [hsource, hleaves, Bool.not_eq_true'] at hgone
      exact Bool.eq_false_iff.1 hgone
    have hone : [edge].countP
        (fun other => other.source == id && other.leavesThrough handle) = 1 := by
      rw [List.countP_singleton, if_pos hedge]
    omega
  · rw [List.countP_singleton, if_neg hedge]
    exact Nat.le_trans hkept hone

/-- An edit keeps approvals decided. -/
theorem IsDecided.rerouted {g g' : Graph α} {edit : Edit α} (hg : g.IsDecided)
    (h : g.Rerouted edit g') : g'.IsDecided := by
  intro id handle hhandle
  have hone := hg id handle hhandle
  cases h with
  | push _ node hnew htargets => exact hone
  | keep _ _ hedges hroutes =>
    rw [hedges]
    exact hone
  | remove removed node hnode =>
    exact Nat.le_trans (countThrough_le_of_sublist List.filter_sublist id handle) hone
  | connect newId source target _ sourceNode targetNode hsource htarget hnew hrange =>
    exact countThrough_connected_le hhandle _ hone
  | disconnect edgeId edge hedge =>
    exact Nat.le_trans (countThrough_le_of_sublist List.eraseP_sublist id handle) hone
  | addPath changed name => exact hone
  | removePath changed index node hnode hkind hrange =>
    exact Nat.le_trans (countThrough_edgesWithoutPath_le (branchIndex?_of_isApproval hhandle)
      changed index g.edges id) hone

/-! ## Sessions -/

/-- An edit gives identities to what it makes that nothing of its kind has. -/
def makesFresh (g : Graph α) (edit : Edit α) : Bool :=
  g.isFresh edit && edit.newLink?.all fun link => !g.edges.any (·.id == link.id)

/-- What every session keeps that gives fresh identities. -/
structure IsWellFormed (g : Graph α) : Prop where
  distinct : g.IsDistinct
  edgeIds : (g.edges.map (·.id)).Nodup
  attached : g.IsAttached
  apart : ∀ edge ∈ g.edges, edge.source ≠ edge.target
  paths : ∀ node ∈ g.nodes, node.HasPaths
  ranged : g.IsRanged
  decided : g.IsDecided

theorem isWellFormed_empty : (empty : Graph α).IsWellFormed where
  distinct := isDistinct_empty
  edgeIds := List.nodup_nil
  attached := isAttached_empty
  apart := by simp [empty]
  paths := by simp [empty]
  ranged := isRanged_empty
  decided := isDecided_empty

section Step

variable [Coordinate α] {g g' : Graph α} {edit : Edit α}

/-- A link that is added joins two ids. -/
theorem Edited.source_ne_target (h : g.Edited edit g') {link : Link}
    (hlink : edit.newLink? = some link) : link.source ≠ link.target := by
  cases h with
  | connect newId source target handle sourceNode targetNode hsource htarget hne hnew hrange =>
    cases hlink
    exact hne
  | _ => cases hlink

theorem nodup_edgeIds_of_edited (hids : (g.edges.map (·.id)).Nodup)
    (hfresh : (edit.newLink?.all fun link => !g.edges.any (·.id == link.id)) = true)
    (h : g.Edited edit g') : (g'.edges.map (·.id)).Nodup := by
  have hlinks : ∀ g : Graph α, g.edges.map (·.id) = g.links.map (·.id) := fun g => by
    simp [links, Edge.link, Function.comp_def]
  have hsublist := h.rerouted.links_sublist.map (·.id)
  rw [List.map_append, ← hlinks, ← hlinks] at hsublist
  refine List.Nodup.sublist hsublist ?_
  cases hnew : edit.newLink? with
  | none => simpa using hids
  | some link =>
    rw [hnew, Option.all_some, Bool.not_eq_true', List.any_eq_false] at hfresh
    refine hids.append (List.nodup_singleton _) ?_
    rw [Option.toList_some, List.map_singleton, List.disjoint_singleton]
    intro hmem
    obtain ⟨edge, hedge, hid⟩ := List.mem_map.1 hmem
    exact hfresh edge hedge (beq_iff_eq.2 hid)

/-- A successful edit keeps a graph well formed. -/
theorem IsWellFormed.edited (hg : g.IsWellFormed) (hfresh : g.makesFresh edit = true)
    (h : g.Edited edit g') : g'.IsWellFormed := by
  obtain ⟨hnode, hedge⟩ := Bool.and_eq_true_iff.1 hfresh
  refine {
    distinct := hg.distinct.rerouted hnode h.rerouted
    edgeIds := nodup_edgeIds_of_edited hg.edgeIds hedge h
    attached := hg.attached.rerouted h.rerouted
    apart := fun edge hmem => ?_
    paths := fun node hmem => ?_
    ranged := hg.ranged.rerouted hg.distinct hg.attached hnode h.rerouted
    decided := hg.decided.rerouted h.rerouted }
  · rcases h.rerouted.mem_edges_cases hmem with ⟨old, hold, hsource, htarget⟩ | hlink
    · rw [← hsource, ← htarget]
      exact hg.apart old hold
    · exact h.source_ne_target hlink
  · rcases h.mem_nodes_cases hmem with ⟨id, stepId, kind, position, _, rfl⟩ | ⟨old, hold, hnode⟩
    · exact Node.hasPaths_fresh id stepId kind position
    · exact hnode.hasPaths (hg.paths old hold)

/-- An edit keeps a graph well formed, also when it fails. -/
theorem IsWellFormed.apply (hg : g.IsWellFormed) (hfresh : g.makesFresh edit = true) :
    (g.apply edit).IsWellFormed := by
  rcases apply_eq_or_edited g edit with h | h
  · rwa [h]
  · exact hg.edited hfresh h

/-- What is allowed of a session is allowed of its beginnings. -/
theorem runsWith_take {allowed : Graph α → Edit α → Bool} {edits : List (Edit α)}
    (h : runsWith allowed g edits = true) (k : Nat) : runsWith allowed g (edits.take k) = true := by
  induction edits generalizing g k with
  | nil =>
    rw [List.take_nil]
    rfl
  | cons edit rest ih =>
    cases k with
    | zero => rfl
    | succ k =>
      obtain ⟨hedit, hrest⟩ := Bool.and_eq_true_iff.1 h
      exact Bool.and_eq_true_iff.2 ⟨hedit, ih hrest k⟩

/-- Every state of a session from the empty graph that gives fresh identities is well formed, and
the look-up tables have no dangling edge there. -/
theorem isWellFormed_run_take (edits : List (Edit α))
    (hfresh : runsWith makesFresh empty edits = true) (k : Nat) :
    ((empty : Graph α).run (edits.take k)).IsWellFormed ∧
      ((empty : Graph α).run (edits.take k)).index.dangling = [] := by
  have hwell : ((empty : Graph α).run (edits.take k)).IsWellFormed :=
    run_induction (fun _ _ hedit hg => hg.apply hedit) (runsWith_take hfresh k) isWellFormed_empty
  refine ⟨hwell, ?_⟩
  rw [Index.dangling_index, List.filter_eq_nil_iff]
  intro edge hedge
  simp [hwell.attached edge hedge]

end Step

/-- A branch node is connected at two spellings of its second path, an approval is answered twice,
and then the first path goes; a connection to itself and one beyond the paths fail. -/
def approvalSession : List (Edit Rat) :=
  [.addNode "n1" "s1" .branch ⟨0, 0⟩, .addNode "n2" "s2" .action ⟨0, 0⟩,
    .addNode "n3" "s3" .action ⟨0, 0⟩, .addBranchPath "n1" "Path 3",
    .connect "e1" "n1" "n2" (some "branch-1"), .connect "e2" "n1" "n3" (some "branch-+1"),
    .connect "e3" "n1" "n2" (some "branch-03"), .connect "e4" "n2" "n2" none,
    .connect "e5" "n2" "n3" (some "approve"), .duplicateNode "n4" "s4" "n1",
    .connect "e6" "n2" "n4" (some "approve"), .removeBranchPath "n1" 0]

theorem isWellFormed_approvalSession :
    IsWellFormed (empty.run approvalSession) ∧ (empty.run approvalSession).edges =
      [⟨"e1", "n1", "n2", some "branch-0", none⟩, ⟨"e2", "n1", "n3", some "branch-0", none⟩,
        ⟨"e6", "n2", "n4", some "approve", none⟩] := by
  have hfresh : runsWith makesFresh empty approvalSession = true := by
    decide +kernel
  refine ⟨(isWellFormed_run_take _ hfresh 12).1, ?_⟩
  decide +kernel

end Graph

end StepGraph
