import StepGraph.Proofs.Editing.Exclusive
import StepGraph.Proofs.Workflow.Steps

/-!
# Noted targets

A branch node notes for each of its paths which step the path leads to.  A compilation does not read
the notes; it follows the edges.  Each edit keeps the two in step by itself: a connection is noted, a
note is forgotten with its edge or with the node that it leads to, and removing a path moves the
notes and the handles after it.

There are four groups.

* Notes and the edges they stand for.
* Spelling.  In a session that spells handles as they are written, all handles are spelled so.
* Keeping notes, edit by edit.
* Compiled targets.  `compile_run_hasNotedTarget` says that a workflow compiled in any state
  of a session has the noted targets.
-/

namespace StepGraph

variable {α : Type}

/-! ## Notes -/

/-- The step that a path of a node is noted to lead to. -/
def Node.noteAt? (node : Node α) (i : Nat) : Option String :=
  node.data.branches[i]?.bind (·.target)

namespace Graph

/-- The step that the edge of a path leads to. -/
def pathTarget? (g : Graph α) (id : String) (i : Nat) : Option String :=
  (pathEdges g.edges id i).head?.bind fun edge => g.stepIdAt? edge.target

/-- The notes of branch nodes are the steps that the edges of their paths lead to, and there are no
edges beyond the paths. -/
def IsNoted (g : Graph α) : Prop :=
  ∀ node ∈ g.nodes, node.isBranch = true → ∀ i, node.noteAt? i = g.pathTarget? node.id i

theorem isNoted_empty : (empty : Graph α).IsNoted := by simp [IsNoted, empty]

/-! Notes of a changed node. -/

theorem noteAt?_setPathTarget (index : Nat) (target : Option String) (node : Node α) (i : Nat) :
    (setPathTarget index target node).noteAt? i =
      if index = i then node.data.branches[i]?.bind fun _ => target else node.noteAt? i := by
  unfold setPathTarget Node.updateBranches Node.updateData Node.noteAt?
  rw [List.getElem?_modify]
  split
  · cases node.data.branches[i]? <;> rfl
  · cases node.data.branches[i]? <;> rfl

theorem noteAt?_forgetTarget (stepId : String) (node : Node α) (i : Nat) :
    (node.updateBranches (·.map (forgetTarget stepId))).noteAt? i =
      (node.noteAt? i).filter (· != stepId) := by
  unfold Node.updateBranches Node.updateData Node.noteAt?
  rw [List.getElem?_map]
  cases node.data.branches[i]? with
  | none => rfl
  | some path =>
    simp only [Option.map_some, Option.bind_some, forgetTarget]
    cases htarget : path.target with
    | none => simp [htarget]
    | some target => by_cases h : target = stepId <;> simp [htarget, h, Option.filter_some]

theorem noteAt?_append_ofName (name : String) (node : Node α) (i : Nat) :
    (node.updateBranches (· ++ [.ofName name])).noteAt? i = node.noteAt? i := by
  unfold Node.updateBranches Node.updateData Node.noteAt?
  rcases Nat.lt_trichotomy i node.data.branches.length with h | h | h
  · rw [List.getElem?_append_left h]
  · simp [h, BranchPath.ofName]
  · have hbeyond : (node.data.branches ++ [BranchPath.ofName name]).length ≤ i := by
      rw [List.length_append, List.length_singleton]
      exact h
    rw [List.getElem?_eq_none hbeyond, List.getElem?_eq_none (Nat.le_of_lt h)]

theorem noteAt?_eraseIdx (index : Nat) (node : Node α) (i : Nat) :
    (node.updateBranches (·.eraseIdx index)).noteAt? i = node.noteAt? (indexBefore index i) := by
  unfold Node.updateBranches Node.updateData Node.noteAt? indexBefore
  rw [List.getElem?_eraseIdx]
  split <;> rfl

theorem noteAt?_eq_none {node : Node α} (h : ∀ path ∈ node.data.branches, path.target = none)
    (i : Nat) : node.noteAt? i = none := by
  unfold Node.noteAt?
  cases hpath : node.data.branches[i]? with
  | none => rfl
  | some path => exact h path (List.mem_of_getElem? hpath)

/-! Where an id leads in a changed graph. -/

theorem stepIdAt?_congr {g g' : Graph α} (h : g'.identities = g.identities) (id : String) :
    g'.stepIdAt? id = g.stepIdAt? id := by
  rw [stepIdAt?_eq_find?, stepIdAt?_eq_find?, h]

theorem stepIdAt?_pushNode {g : Graph α} {id : String} (h : g.hasNode id = true) (node : Node α) :
    (g.pushNode node).stepIdAt? id = g.stepIdAt? id := by
  unfold stepIdAt? node? pushNode
  have hfound : (g.nodes.find? (·.id == id)).isSome = true := by
    simpa [hasNode] using h
  rw [List.find?_append, Option.or_of_isSome hfound]

theorem find?_eraseP_id {removed id : String} (h : id ≠ removed) (identities : List Identity) :
    (identities.eraseP (·.id == removed)).find? (·.id == id) =
      identities.find? (·.id == id) := by
  induction identities with
  | nil => rfl
  | cons identity rest ih =>
    rw [List.eraseP_cons, List.find?_cons]
    by_cases hremoved : identity.id = removed
    · rw [hremoved, beq_self_eq_true, cond_true, beq_eq_false_iff_ne.2 h.symm]
    · rw [beq_eq_false_iff_ne.2 hremoved, cond_false, List.find?_cons, ih]

theorem stepIdAt?_of_node? {g : Graph α} {id : String} {node : Node α}
    (h : g.node? id = some node) : g.stepIdAt? id = some node.data.stepId := by
  rw [stepIdAt?, h, Option.map_some]

theorem pathTarget?_congr {g g' : Graph α} {id : String} {i j : Nat}
    (hidentities : g'.identities = g.identities)
    (hedges : (pathEdges g'.edges id i).map (·.target) = (pathEdges g.edges id j).map (·.target)) :
    g'.pathTarget? id i = g.pathTarget? id j := by
  have hhead := congrArg List.head? hedges
  rw [List.head?_map, List.head?_map] at hhead
  have hbind : ∀ (h : Graph α) (edge? : Option Edge),
      (edge?.bind fun edge => h.stepIdAt? edge.target) =
        (edge?.map (·.target)).bind h.stepIdAt? := by
    intro h edge?
    cases edge? <;> rfl
  unfold pathTarget?
  rw [hbind, hbind, hhead]
  congr 1
  funext target
  exact stepIdAt?_congr hidentities target

end Graph

/-! ## Spelling -/

/-- A handle that an edit connects, if it is read as an index, is the one written for the index. -/
def Edit.isCanonical : Edit α → Bool
  | .connect _ _ _ handle =>
    (handle.bind Handle.branchIndex?).all fun i => handle == some (Handle.branch i)
  | _ => true

namespace Graph

/-- A handle that is read as an index is the one written for the index. -/
def IsCanonical (g : Graph α) : Prop :=
  ∀ edge ∈ g.edges, ∀ i, edge.branchIndex? = some i → edge.sourceHandle = some (Handle.branch i)

theorem isCanonical_empty : (empty : Graph α).IsCanonical := by simp [IsCanonical, empty]

section Step

variable {g g' : Graph α} {edit : Edit α}

/-- Renumbering writes handles as they should be. -/
theorem sourceHandle_renumberHandle {index : Nat} {edge : Edge}
    (h : ∀ i, edge.branchIndex? = some i → edge.sourceHandle = some (Handle.branch i)) (i : Nat)
    (hi : (renumberHandle index edge).branchIndex? = some i) :
    (renumberHandle index edge).sourceHandle = some (Handle.branch i) := by
  rw [branchIndex?_renumberHandle] at hi
  obtain ⟨later, hlater, rfl⟩ := Option.map_eq_some_iff.1 hi
  simp only [renumberHandle, hlater]
  split
  · rfl
  · exact h later hlater

/-- An edit that spells handles as they are written keeps them spelled so. -/
theorem IsCanonical.rerouted (hg : g.IsCanonical) (hedit : edit.isCanonical = true)
    (h : g.Rerouted edit g') : g'.IsCanonical := by
  cases h with
  | push _ node hnew htargets => exact hg
  | keep _ _ hedges hroutes =>
    unfold IsCanonical
    rw [hedges]
    exact hg
  | remove id node hnode => exact fun edge hedge => hg edge (List.mem_filter.1 hedge).1
  | connect newId source target handle sourceNode targetNode hsource htarget hnew hrange =>
    intro edge hedge i hi
    rcases List.mem_append.1 hedge with hedge | hedge
    · exact hg edge ((sublist_edgesBeside _ _ _).mem hedge) i hi
    · rw [List.mem_singleton.1 hedge] at hi ⊢
      have hindex : handle.bind Handle.branchIndex? = some i := hi
      simpa [Edit.isCanonical, hindex] using hedit
  | disconnect id edge hedge => exact fun other hother => hg other (List.mem_of_mem_eraseP hother)
  | addPath id name => exact hg
  | removePath id index node hnode hkind hrange =>
    intro edge hedge
    obtain ⟨old, hold, _, rfl⟩ := mem_edgesWithoutPath.1 hedge
    split
    · exact sourceHandle_renumberHandle (hg old hold)
    · exact hg old hold

/-- Handles that are spelled as they are written are spelled alike. -/
theorem IsCanonical.spellsAlike (hg : g.IsCanonical) (hedit : edit.isCanonical = true) :
    g.SpellsAlike edit := by
  cases edit with
  | connect newId source target handle =>
    intro node i _ hpath other hother
    obtain ⟨_, hindex⟩ := pathTaken?_eq_some_iff.1 hpath
    obtain ⟨hmem, _, hother⟩ := mem_pathEdges.1 hother
    have hhandle : handle = some (Handle.branch i) := by
      simpa [Edit.isCanonical, hindex] using hedit
    rw [hhandle]
    exact hg other hmem i hother
  | _ => trivial

/-! ## Keeping notes -/

/-- Where ids are distinct, no other node has the id of the node that goes. -/
theorem IsDistinct.id_ne_of_mem_eraseP (hg : g.IsDistinct) {id : String} {removed node : Node α}
    (hremoved : g.node? id = some removed) (h : node ∈ g.nodes.eraseP (·.id == id)) :
    node.id ≠ id := by
  have hids := hg.nodup_nodeIds
  obtain ⟨hid, before, after, hnodes, hbefore⟩ := List.find?_eq_some_iff_append.1 hremoved
  have hid : removed.id = id := by simpa using hid
  have hbefore : ∀ b ∈ before, ¬(b.id == id) = true := by simpa using hbefore
  rw [hnodes, List.eraseP_append_right _ hbefore, List.eraseP_cons_of_pos (by simpa using hid)] at h
  rcases List.mem_append.1 h with h | h
  · simpa using hbefore node h
  · rw [hnodes, List.map_append, List.map_cons] at hids
    obtain ⟨hnot, _⟩ := List.nodup_cons.1 hids.of_append_right
    intro hsame
    exact hnot (hid.trans hsame.symm ▸ List.mem_map_of_mem h)

/-- What becomes of the notes of a graph when one of its nodes is changed: the changed node and the
others are looked at apart. -/
theorem isNoted_updateNode {f : Node α → Node α} {id : String} {edges : List Edge}
    (hg : g.IsNoted) (hdistinct : g.IsDistinct) (hf : ∀ node, (f node).identity = node.identity)
    (hself : ∀ node ∈ g.nodes, node.isBranch = true → node.id = id → ∀ i,
      (f node).noteAt? i = pathTarget? ⟨(g.updateNode id f).nodes, edges⟩ node.id i)
    (hother : ∀ node ∈ g.nodes, node.isBranch = true → node.id ≠ id → ∀ i,
      pathTarget? ⟨(g.updateNode id f).nodes, edges⟩ node.id i = g.pathTarget? node.id i) :
    IsNoted ⟨(g.updateNode id f).nodes, edges⟩ := by
  intro node hnode hbranch i
  have hnode : node ∈ updateFirst (·.id == id) f g.nodes := hnode
  rw [updateFirst_eq_map hdistinct.nodup_nodeIds] at hnode
  obtain ⟨old, hold, rfl⟩ := List.mem_map.1 hnode
  by_cases hid : old.id = id
  · rw [if_pos (beq_iff_eq.2 hid)] at hbranch ⊢
    have hidentity := hf old
    simp only [Node.identity, Identity.mk.injEq] at hidentity
    rw [Node.isBranch, hidentity.2.1] at hbranch
    rw [hidentity.1]
    exact hself old hold hbranch hid i
  · rw [if_neg (by simpa using hid)] at hbranch ⊢
    rw [hother old hold hbranch hid i]
    exact hg old hold hbranch i

/-- Where identities are distinct, another id leads to another step. -/
theorem IsDistinct.stepId_ne (hg : g.IsDistinct) {a b : String} {nodeA nodeB : Node α}
    (ha : g.node? a = some nodeA) (hb : g.node? b = some nodeB) (hne : a ≠ b) :
    nodeA.data.stepId ≠ nodeB.data.stepId := by
  intro hsame
  obtain ⟨hmemA, rfl⟩ := mem_and_id_eq_of_node? ha
  obtain ⟨hmemB, rfl⟩ := mem_and_id_eq_of_node? hb
  exact hne (congrArg (·.id) (List.inj_on_of_nodup_map hg.nodup_nodeStepIds hmemA hmemB hsame))

/-- When a node goes, the paths that led to its step lead nowhere. -/
theorem pathTarget?_of_removed (hdistinct : g.IsDistinct) (hattached : g.IsAttached)
    {id other : String} {removed : Node α} (hremoved : g.node? id = some removed)
    (hother : other ≠ id) {i : Nat} (hone : (pathEdges g.edges other i).length ≤ 1)
    (f : List BranchPath → List BranchPath) :
    pathTarget? ⟨(g.nodes.eraseP (·.id == id)).map (·.updateBranches f),
        g.edges.filter fun edge => !edge.touches id⟩ other i =
      (g.pathTarget? other i).filter (· != removed.data.stepId) := by
  unfold pathTarget?
  rw [pathEdges_untouched hother]
  match hpath : pathEdges g.edges other i with
  | [] => rfl
  | [edge] =>
    have hmem : edge ∈ pathEdges g.edges other i := by simp [hpath]
    obtain ⟨hmem, _, _⟩ := mem_pathEdges.1 hmem
    by_cases htarget : edge.target = id
    · have hstep := stepIdAt?_of_node? hremoved
      simp [htarget, hstep, Option.filter_some]
    · have hends := Bool.and_eq_true_iff.1 (hattached edge hmem)
      obtain ⟨target, hfound⟩ := exists_node?_of_hasNode hends.2
      have hne := hdistinct.stepId_ne hfound hremoved htarget
      have hstep : stepIdAt? ⟨(g.nodes.eraseP (·.id == id)).map (·.updateBranches f),
          g.edges.filter fun edge => !edge.touches id⟩ edge.target = some target.data.stepId := by
        rw [stepIdAt?_eq_find?, identities_eraseP_map, find?_eraseP_id htarget,
          ← stepIdAt?_eq_find?, stepIdAt?_of_node? hfound]
      simp [htarget, hstep, stepIdAt?_of_node? hfound, hne, Option.filter_some]
  | _ :: _ :: _ => simp [hpath] at hone

/-- A new node leaves the paths of the others alone. -/
theorem pathTarget?_pushNode (hattached : g.IsAttached) (node : Node α) (id : String) (i : Nat) :
    (g.pushNode node).pathTarget? id i = g.pathTarget? id i := by
  unfold pathTarget?
  show (pathEdges g.edges id i).head?.bind _ = _
  cases hpath : (pathEdges g.edges id i).head? with
  | none => rfl
  | some edge =>
    obtain ⟨hmem, _, _⟩ := mem_pathEdges.1 (List.mem_of_mem_head? hpath)
    exact stepIdAt?_pushNode (Bool.and_eq_true_iff.1 (hattached edge hmem)).2 node

/-- What becomes of the notes of a graph when one path is noted anew: its new note has to be right,
and the other paths have to keep their edges. -/
theorem isNoted_noteTarget {id : String} {path? : Option Nat} {target : Option String}
    {edges : List Edge} (hg : g.IsNoted) (hdistinct : g.IsDistinct)
    (hnoted : ∀ node ∈ g.nodes, node.isBranch = true → node.id = id → ∀ i, path? = some i →
      (node.data.branches[i]?.bind fun _ => target) =
        pathTarget? ⟨(g.noteTarget id path? target).nodes, edges⟩ id i)
    (hkept : ∀ node ∈ g.nodes, node.isBranch = true → ∀ i, ¬(node.id = id ∧ path? = some i) →
      pathEdges edges node.id i = pathEdges g.edges node.id i) :
    IsNoted ⟨(g.noteTarget id path? target).nodes, edges⟩ := by
  have hsame : ∀ node ∈ g.nodes, node.isBranch = true → ∀ i, ¬(node.id = id ∧ path? = some i) →
      pathTarget? ⟨(g.noteTarget id path? target).nodes, edges⟩ node.id i =
        g.pathTarget? node.id i := by
    intro node hnode hbranch i hne
    refine pathTarget?_congr (identities_noteTarget g id path? target) ?_
    rw [hkept node hnode hbranch i hne]
  cases path? with
  | none =>
    intro node hnode hbranch i
    rw [hg node hnode hbranch i]
    exact (hsame node hnode hbranch i (by simp)).symm
  | some index =>
    refine isNoted_updateNode hg hdistinct (fun _ => rfl) (fun node hnode hbranch hid i => ?_)
      fun node hnode hbranch hid i => hsame node hnode hbranch i fun h => hid h.1
    rw [noteAt?_setPathTarget]
    by_cases hi : index = i
    · rw [if_pos hi, hid]
      exact hnoted node hnode hbranch hid i (congrArg some hi)
    · rw [if_neg hi, hg node hnode hbranch i]
      exact (hsame node hnode hbranch i fun h => hi (Option.some.inj h.2)).symm

/-- A connection is noted at the path that its edge takes. -/
theorem IsNoted.connected (hg : g.IsNoted) (hdistinct : g.IsDistinct) (edge : Edge)
    {sourceNode targetNode : Node α} (hsource : g.node? edge.source = some sourceNode)
    (htarget : g.node? edge.target = some targetNode)
    (hrange : ∀ i, pathTaken? sourceNode edge.sourceHandle = some i →
      i < sourceNode.data.branches.length)
    (hspelling : ∀ i, pathTaken? sourceNode edge.sourceHandle = some i →
      ∀ other ∈ pathEdges g.edges edge.source i, other.sourceHandle = edge.sourceHandle) :
    IsNoted ⟨(g.noteTarget edge.source (pathTaken? sourceNode edge.sourceHandle)
        (some targetNode.data.stepId)).nodes,
      edgesBeside edge (pathTaken? sourceNode edge.sourceHandle).isSome g.edges ++ [edge]⟩ := by
  refine isNoted_noteTarget hg hdistinct (fun node hnode hbranch hid i hpath => ?_)
    fun node hnode hbranch i hne => pathEdges_connected_ne (fun htaken => hne ?_) _ _
  · have hsame := hdistinct.eq_of_node? hnode (hid ▸ hsource)
    obtain ⟨_, hindex⟩ := pathTaken?_eq_some_iff.1 hpath
    have hlt : i < node.data.branches.length := hsame ▸ hrange i hpath
    have hidentities := identities_noteTarget g edge.source
      (pathTaken? sourceNode edge.sourceHandle) (some targetNode.data.stepId)
    rw [List.getElem?_eq_getElem hlt, Option.bind_some, pathTarget?, hpath, Option.isSome_some,
      pathEdges_connected_self hindex, filter_sourceHandle_ne_eq_nil (hspelling i hpath)]
    rw [hpath] at hidentities
    exact ((stepIdAt?_congr hidentities edge.target).trans (stepIdAt?_of_node? htarget)).symm
  · have hsame := hdistinct.eq_of_node? hnode (htaken.1 ▸ hsource)
    exact ⟨htaken.1.symm, pathTaken?_eq_some_iff.2 ⟨hsame ▸ hbranch, htaken.2⟩⟩

/-- The note of a path is forgotten with its edge. -/
theorem IsNoted.disconnected (hg : g.IsNoted) (hexclusive : g.IsExclusive)
    (hdistinct : g.IsDistinct) {id : String} {edge : Edge} (hedge : g.edge? id = some edge) :
    IsNoted ⟨(g.noteTarget edge.source edge.branchIndex? none).nodes,
      g.edges.eraseP (·.id == id)⟩ := by
  refine isNoted_noteTarget hg hdistinct (fun node hnode hbranch hid i hindex => ?_)
    fun node hnode hbranch i hne => pathEdges_eraseP_ne hedge fun htaken => hne ?_
  · have hone := hexclusive.paths node hnode hbranch i
    rw [hid] at hone
    rw [pathTarget?, pathEdges_eraseP_self hedge hindex hone]
    cases node.data.branches[i]? <;> rfl
  · exact ⟨htaken.1.symm, htaken.2⟩

/-- Edits keep notes. -/
theorem IsNoted.rerouted (hg : g.IsNoted) (hexclusive : g.IsExclusive) (hdistinct : g.IsDistinct)
    (hattached : g.IsAttached) (hfresh : g.isFresh edit = true) (hspelling : g.SpellsAlike edit)
    (h : g.Rerouted edit g') : g'.IsNoted := by
  cases h with
  | push _ node hnew htargets =>
    intro other hother hbranch i
    rw [pathTarget?_pushNode hattached]
    rcases List.mem_append.1 hother with hother | hother
    · exact hg other hother hbranch i
    · rw [List.mem_singleton.1 hother, noteAt?_eq_none htargets, pathTarget?,
        pathEdges_eq_nil hattached (hasNode_eq_false_of_isFresh hfresh hnew)]
      rfl
  | keep _ _ hedges hroutes =>
    intro node hnode hbranch i
    have hroute : node.route ∈ g.nodes.map (·.route) := hroutes ▸ List.mem_map_of_mem hnode
    obtain ⟨old, hold, hroute⟩ := List.mem_map.1 hroute
    simp only [Node.route, Node.identity, Prod.mk.injEq, Identity.mk.injEq] at hroute
    obtain ⟨⟨hid, hkind, _⟩, hbranches⟩ := hroute
    have hnote := hg old hold (by rwa [Node.isBranch, hkind]) i
    rw [pathTarget?_congr (identities_of_map_route hroutes) (by rw [hedges]), ← hid, ← hnote,
      Node.noteAt?, Node.noteAt?, hbranches]
  | remove id removed hremoved =>
    intro node hnode hbranch i
    obtain ⟨old, hold, rfl⟩ := List.mem_map.1 hnode
    have hmem := List.mem_of_mem_eraseP hold
    rw [noteAt?_forgetTarget, hg old hmem hbranch i]
    symm
    exact pathTarget?_of_removed hdistinct hattached hremoved
      (hdistinct.id_ne_of_mem_eraseP hremoved hold) (hexclusive.paths old hmem hbranch i) _
  | connect newId source target handle sourceNode targetNode hsource htarget hnew hrange =>
    exact hg.connected hdistinct ⟨newId, source, target, handle, none⟩ hsource htarget hrange
      fun i => hspelling sourceNode i hsource
  | disconnect id edge hedge => exact hg.disconnected hexclusive hdistinct hedge
  | addPath id name =>
    refine isNoted_updateNode hg hdistinct (fun _ => rfl) (fun node hnode hbranch hid i => ?_)
      fun node hnode hbranch hid i => ?_
    · rw [noteAt?_append_ofName, hg node hnode hbranch i]
      exact (pathTarget?_congr (identities_updateBranches g id _) rfl).symm
    · exact pathTarget?_congr (identities_updateBranches g id _) rfl
  | removePath id index node hnode hkind hrange =>
    refine isNoted_updateNode hg hdistinct (fun _ => rfl) (fun node hnode hbranch hid i => ?_)
      fun node hnode hbranch hid i => ?_
    · rw [noteAt?_eraseIdx, hg node hnode hbranch]
      symm
      refine pathTarget?_congr (identities_updateBranches g id _) ?_
      rw [hid, pathEdges_edgesWithoutPath_self, List.map_map]
      exact List.map_congr_left fun edge _ => target_renumberHandle index edge
    · refine pathTarget?_congr (identities_updateBranches g id _) ?_
      rw [pathEdges_edgesWithoutPath_ne hid]

end Step

/-! ## Compiled targets -/

/-- What a session keeps that gives new nodes fresh identities and spells handles as they are
written. -/
structure IsOrderly (g : Graph α) : Prop where
  distinct : g.IsDistinct
  attached : g.IsAttached
  exclusive : g.IsExclusive
  canonical : g.IsCanonical
  noted : g.IsNoted

theorem isOrderly_empty : (empty : Graph α).IsOrderly :=
  ⟨isDistinct_empty, isAttached_empty, isExclusive_empty, isCanonical_empty, isNoted_empty⟩

/-- An edit keeps a graph orderly. -/
theorem IsOrderly.apply [Coordinate α] {g : Graph α} {edit : Edit α} (hg : g.IsOrderly)
    (hfresh : g.isFresh edit = true) (hcanonical : edit.isCanonical = true) :
    (g.apply edit).IsOrderly := by
  rcases apply_eq_or_edited g edit with h | h
  · rwa [h]
  · have hspelling := hg.canonical.spellsAlike hcanonical
    exact {
      distinct := hg.distinct.rerouted hfresh h.rerouted
      attached := hg.attached.rerouted h.rerouted
      exclusive := hg.exclusive.rerouted hg.distinct hg.attached hfresh hspelling h.rerouted
      canonical := hg.canonical.rerouted hcanonical h.rerouted
      noted := hg.noted.rerouted hg.exclusive hg.distinct hg.attached hfresh hspelling h.rerouted }

/-- A session keeps a graph orderly. -/
theorem isOrderly_run [Coordinate α] {edits : List (Edit α)}
    (hrun : runsWith (fun g edit => g.isFresh edit && edit.isCanonical) empty edits = true) :
    ((empty : Graph α).run edits).IsOrderly := by
  refine run_induction (fun g edit hallowed hg => ?_) hrun isOrderly_empty
  obtain ⟨hfresh, hcanonical⟩ := Bool.and_eq_true_iff.1 hallowed
  exact hg.apply hfresh hcanonical

section Compiled

variable {g : Graph α} {node : Node α} {i : Nat} {path : BranchPath}

theorem resolvedEdges_eq_edges (hg : g.IsAttached) : g.resolvedEdges = g.edges :=
  List.filter_eq_self.2 hg

/-- An edge is of a path when it leaves through the handle written for the path. -/
theorem branchIndex?_eq_some_iff (hi : i < Handle.indexBound) {edge : Edge}
    (h : ∀ i, edge.branchIndex? = some i → edge.sourceHandle = some (Handle.branch i)) :
    edge.branchIndex? = some i ↔ edge.leavesThrough (Handle.branch i) = true := by
  rw [Edge.leavesThrough, beq_iff_eq]
  constructor
  · exact h i
  · intro hhandle
    rw [Edge.branchIndex?, hhandle, Option.bind_some, Handle.branchIndex?_branch hi]

/-- A compilation follows the edge of a path. -/
theorem linkThrough?_branch (hattached : g.IsAttached) (hcanonical : g.IsCanonical)
    (hi : i < Handle.indexBound) (id : String) :
    g.linkThrough? id (Handle.branch i) = g.pathTarget? id i := by
  unfold linkThrough? firstLink? pathTarget? pathEdges
  rw [resolvedEdges_eq_edges hattached, ← List.head?_filter]
  congr 2
  refine List.filter_congr fun edge hedge => ?_
  rw [Bool.eq_iff_iff, Bool.and_eq_true, Bool.and_eq_true, beq_iff_eq (a := edge.branchIndex?),
    branchIndex?_eq_some_iff hi (hcanonical edge hedge)]

/-- A compiled path leads where it is noted to lead: to the node of its edge, or nowhere without
one. -/
structure HasNotedTarget (g : Graph α) (node : Node α) (step : Workflow.Step) (i : Nat)
    (path : BranchPath) : Prop where
  read : step.branchTarget? i = path.target
  written : ((Value.obj step.config).json.member? Workflow.Step.branchesKey).bind (·.item? i) =
    some (Workflow.Step.pathDocument path path.target)
  connected : ∀ edge ∈ g.edges, edge.source = node.id →
    edge.leavesThrough (Handle.branch i) = true → path.target = g.stepIdAt? edge.target
  unconnected : (∀ edge ∈ g.edges, edge.source = node.id →
    edge.leavesThrough (Handle.branch i) = false) → path.target = none

theorem IsOrderly.target_eq (hg : g.IsOrderly) (hnode : node ∈ g.nodes)
    (hbranch : node.isBranch = true) (hpath : node.data.branches[i]? = some path) :
    path.target = g.pathTarget? node.id i := by
  rw [← hg.noted node hnode hbranch i, Node.noteAt?, hpath, Option.bind_some]

/-- In an orderly graph the step of a branch node has the noted targets. -/
theorem IsOrderly.hasNotedTarget (hg : g.IsOrderly) (hnode : node ∈ g.nodes)
    (hbranch : node.isBranch = true) (hi : i < Handle.indexBound)
    (hpath : node.data.branches[i]? = some path) {step : Workflow.Step}
    (hstep : g.IsStepOf node step) : g.HasNotedTarget node step i path := by
  obtain ⟨_, _, hmembers, hread⟩ := hstep.branch hbranch
  have htarget := hg.target_eq hnode hbranch hpath
  have hlink := linkThrough?_branch hg.attached hg.canonical hi node.id
  have hlt := (List.getElem?_eq_some_iff.1 hpath).1
  have hedge : ∀ edge, edge ∈ pathEdges g.edges node.id i ↔
      edge ∈ g.edges ∧ edge.source = node.id ∧ edge.leavesThrough (Handle.branch i) = true := by
    intro edge
    rw [mem_pathEdges]
    refine and_congr_right fun hmem => and_congr_right fun _ => ?_
    exact branchIndex?_eq_some_iff hi (hg.canonical edge hmem)
  refine ⟨?_, ?_, fun edge hmem hsource hhandle => ?_, fun hnone => ?_⟩
  · rw [hread, if_pos hlt, hlink, htarget]
  · have hdocument : (Value.obj step.config).json = .obj step.config.jsonMembers := rfl
    have hitem : (g.pathDocuments node)[i]? =
        some (Workflow.Step.pathDocument path (g.linkThrough? node.id (Handle.branch i))) := by
      rw [pathDocuments, List.getElem?_mapIdx, hpath, Option.map_some]
    rw [hdocument, hmembers, htarget, ← hlink]
    exact hitem
  · have hmem := (hedge edge).2 ⟨hmem, hsource, hhandle⟩
    have hone := hg.exclusive.paths node hnode hbranch i
    rw [htarget, pathTarget?]
    match hlist : pathEdges g.edges node.id i with
    | [] => simp [hlist] at hmem
    | [first] =>
      rw [hlist, List.mem_singleton] at hmem
      rw [hmem]
      rfl
    | _ :: _ :: _ => simp [hlist] at hone
  · have hnil : pathEdges g.edges node.id i = [] := by
      refine List.eq_nil_iff_forall_not_mem.2 fun edge hmem => ?_
      obtain ⟨hmem, hsource, hhandle⟩ := (hedge edge).1 hmem
      rw [hnone edge hmem hsource] at hhandle
      cases hhandle
    rw [htarget, pathTarget?, hnil]
    rfl

/-- In every state of a session from the empty graph that gives new nodes fresh identities and
spells branch handles as they are written, the steps of branch nodes have the noted targets.  An
index has 64 bits. -/
theorem compile_run_hasNotedTarget [Coordinate α] (edits : List (Edit α))
    (hrun : runsWith (fun g edit => g.isFresh edit && edit.isCanonical) empty edits = true)
    (workflowId : Option String) (verdict : Verdict) (hvalid : verdict.isValid = true) :
    ∃ w, ((empty : Graph α).run edits).compile workflowId verdict = .ok w ∧
      List.Forall₂ (fun node step => node.isBranch = true → ∀ i path, i < Handle.indexBound →
          node.data.branches[i]? = some path →
          HasNotedTarget ((empty : Graph α).run edits) node step i path)
        ((empty : Graph α).run edits).nodes w.steps := by
  have hg := isOrderly_run hrun
  obtain ⟨w, hw, _, _, hsteps⟩ := exists_workflow_eq_ok ((empty : Graph α).run edits) workflowId
  refine ⟨w, (compile_of_isValid _ workflowId hvalid).trans hw, ?_⟩
  rw [List.forall₂_iff_get] at hsteps ⊢
  refine ⟨hsteps.1, fun k hk hk' hbranch i path hi hpath => ?_⟩
  exact hg.hasNotedTarget (List.get_mem _ _) hbranch hi hpath (hsteps.2 k hk hk')

/-- The branch node of the session, with the paths that it keeps. -/
theorem paths_reconnectSession (h : 0 < (empty.run (reconnectSession "n3" "branch-1")).nodes.length) :
    ((empty.run (reconnectSession "n3" "branch-1")).nodes.get ⟨0, h⟩).isBranch = true ∧
      ((empty.run (reconnectSession "n3" "branch-1")).nodes.get ⟨0, h⟩).data.branches =
        [⟨"Path 2", [], .all, some "s3"⟩, ⟨"Path 3", [], .all, none⟩] := by
  decide +kernel +revert

theorem compile_reconnectSession :
    ∃ w step, (empty.run (reconnectSession "n3" "branch-1")).compile none ⟨true, [], []⟩ = .ok w ∧
      w.steps[0]? = some step ∧
      step.branchTarget? 0 = some "s3" ∧ step.branchTarget? 1 = none := by
  obtain ⟨w, hw, hsteps⟩ := compile_run_hasNotedTarget (reconnectSession "n3" "branch-1")
    (by decide +kernel) none ⟨true, [], []⟩ rfl
  obtain ⟨hlength, hsteps⟩ := List.forall₂_iff_get.1 hsteps
  have hnodes : 0 < (empty.run (reconnectSession "n3" "branch-1")).nodes.length := by
    decide +kernel
  have hstep : 0 < w.steps.length := hlength ▸ hnodes
  obtain ⟨hbranch, hpaths⟩ := paths_reconnectSession hnodes
  have hfirst := hsteps 0 hnodes hstep hbranch 0 _ (by decide) (by rw [hpaths]; rfl)
  have hsecond := hsteps 0 hnodes hstep hbranch 1 _ (by decide) (by rw [hpaths]; rfl)
  exact ⟨w, w.steps[0], hw, List.getElem?_eq_getElem hstep, hfirst.read, hsecond.read⟩

end Compiled

end Graph

end StepGraph
