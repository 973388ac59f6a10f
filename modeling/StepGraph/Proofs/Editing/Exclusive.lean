import StepGraph.Proofs.Editing.Route
import StepGraph.Proofs.List

/-!
# One edge for each path

The path of a branch node should lead to one node only, and no two edges should join the same nodes
at the same handle.  Edits see to it by comparing handles as texts, but one path has several
handles: `branch-1`, `branch-01` and `branch-+1` are read alike.  So a graph stays in order exactly
as long as no edge is added to a path under another spelling than that of the edge which is there.

* `isExclusive_apply_iff` says it for one edit.
* `isExclusive_run_take_iff` says it for a session from the empty graph, with all its states.
-/

namespace StepGraph.Graph

variable {α : Type}

/-- Each path of a branch node has one edge at most, and no two edges join the same nodes at the
same handle. -/
structure IsExclusive (g : Graph α) : Prop where
  paths : ∀ node ∈ g.nodes, node.isBranch = true → ∀ i, (pathEdges g.edges node.id i).length ≤ 1
  connections : g.edges.Pairwise fun a b => sameConnection a b = false

theorem isExclusive_empty : (empty : Graph α).IsExclusive := ⟨by simp [empty], .nil⟩

/-- Of the nodes, only the identities matter. -/
theorem isExclusive_iff {g : Graph α} :
    g.IsExclusive ↔
      (∀ identity ∈ g.identities, identity.kind = .branch →
        ∀ i, (pathEdges g.edges identity.id i).length ≤ 1) ∧
      g.edges.Pairwise fun a b => sameConnection a b = false := by
  have hpaths : (∀ node ∈ g.nodes, node.isBranch = true →
      ∀ i, (pathEdges g.edges node.id i).length ≤ 1) ↔
      ∀ identity ∈ g.identities, identity.kind = .branch →
        ∀ i, (pathEdges g.edges identity.id i).length ≤ 1 := by
    simp [identities, Node.identity, Node.isBranch]
  rw [← hpaths]
  exact ⟨fun h => ⟨h.paths, h.connections⟩, fun h => ⟨h.1, h.2⟩⟩

theorem sameConnection_comm (a b : Edge) : sameConnection a b = sameConnection b a := by
  unfold sameConnection
  rw [Bool.eq_iff_iff]
  simp only [Bool.and_eq_true, beq_iff_eq, @eq_comm _ a.source, @eq_comm _ a.target,
    @eq_comm _ a.sourceHandle]

/-- An id that no node has is the source of no edge. -/
theorem pathEdges_eq_nil {g : Graph α} (hg : g.IsAttached) {id : String}
    (h : g.hasNode id = false) (i : Nat) : pathEdges g.edges id i = [] := by
  refine List.eq_nil_iff_forall_not_mem.2 fun edge hedge => ?_
  obtain ⟨hmem, rfl, _⟩ := mem_pathEdges.1 hedge
  rw [(Bool.and_eq_true_iff.1 (hg edge hmem)).1] at h
  cases h

theorem hasNode_eq_false_of_isFresh {g : Graph α} {edit : Edit α} {id stepId : String}
    (hfresh : g.isFresh edit = true) (hnew : edit.newNode? = some (id, stepId)) :
    g.hasNode id = false := by
  rw [hasNode_eq_any, List.any_eq_false]
  intro identity hidentity
  simpa using (ne_of_isFresh hfresh hnew hidentity).1

/-! ## A path is removed -/

/-- Of two edges of one path, one after the other, there are none. -/
theorem pairwise_not_mem_pathEdges {edges : List Edge} {id : String}
    (h : ∀ i, (pathEdges edges id i).length ≤ 1) :
    edges.Pairwise fun a b => a.source = id → b.source = id →
      ∀ i, a.branchIndex? = some i → b.branchIndex? ≠ some i := by
  have hpath : ∀ i, edges.Pairwise fun a b =>
      (a.source == id && a.branchIndex? == some i) = true →
        (b.source == id && b.branchIndex? == some i) = true → False := by
    intro i
    rw [← List.pairwise_filter]
    exact pairwise_of_length_le_one (h i) _
  rw [List.pairwise_iff_getElem]
  intro k l hk hl hkl hsource hsource' i hindex hindex'
  refine List.pairwise_iff_getElem.1 (hpath i) k l hk hl hkl ?_ ?_
  · simp [hsource, hindex]
  · simp [hsource', hindex']

/-- Renumbering keeps edges apart that had different indices, or none. -/
theorem sourceHandle_renumberHandle_ne {index : Nat} {a b : Edge}
    (ha : a.branchIndex? ≠ some index) (hb : b.branchIndex? ≠ some index)
    (hhandle : a.sourceHandle ≠ b.sourceHandle)
    (hindex : ∀ i, a.branchIndex? = some i → b.branchIndex? ≠ some i) :
    (renumberHandle index a).sourceHandle ≠ (renumberHandle index b).sourceHandle := by
  intro h
  have hread : (renumberHandle index a).branchIndex? = (renumberHandle index b).branchIndex? := by
    rw [Edge.branchIndex?, Edge.branchIndex?, h]
  rw [branchIndex?_renumberHandle, branchIndex?_renumberHandle] at hread
  cases hi : a.branchIndex? with
  | none =>
    cases hj : b.branchIndex? with
    | none =>
      simp only [renumberHandle, hi, hj] at h
      exact hhandle h
    | some j => simp [hi, hj] at hread
  | some i =>
    cases hj : b.branchIndex? with
    | none => simp [hi, hj] at hread
    | some j =>
      have hij : i ≠ j := fun hij => hindex i hi (hij ▸ hj)
      rw [hi, ne_eq, Option.some.injEq] at ha
      rw [hj, ne_eq, Option.some.injEq] at hb
      simp only [hi, hj, Option.map_some, Option.some.injEq] at hread
      split at hread <;> split at hread <;> omega

/-- Removing a path keeps connections apart. -/
theorem pairwise_edgesWithoutPath {edges : List Edge} {id : String} (index : Nat)
    (hpaths : ∀ i, (pathEdges edges id i).length ≤ 1)
    (h : edges.Pairwise fun a b => sameConnection a b = false) :
    (edgesWithoutPath id index edges).Pairwise fun a b => sameConnection a b = false := by
  unfold edgesWithoutPath
  rw [List.pairwise_map, List.pairwise_filter]
  refine (h.and (pairwise_not_mem_pathEdges hpaths)).imp ?_
  intro a b h ha hb
  obtain ⟨hsame, hindex⟩ := h
  rw [Bool.not_eq_true', Bool.and_eq_false_imp, beq_iff_eq, beq_eq_false_iff_ne] at ha hb
  by_cases hsource : a.source = b.source
  · rw [← hsource] at hb hindex
    by_cases hid : a.source = id
    · rw [if_pos hid, if_pos (hsource ▸ hid)]
      simp only [sameConnection, source_renumberHandle, target_renumberHandle, hsource,
        beq_self_eq_true, Bool.true_and, Bool.and_eq_false_imp, beq_iff_eq, beq_eq_false_iff_ne]
        at hsame ⊢
      intro htarget
      exact sourceHandle_renumberHandle_ne (ha hid) (hb hid) (hsame htarget) (hindex hid hid)
    · rw [if_neg hid, if_neg (hsource ▸ hid)]
      exact hsame
  · have hkeep : ∀ edge : Edge,
        (if edge.source = id then renumberHandle index edge else edge).source = edge.source := by
      intro edge
      split <;> simp
    simp [sameConnection, hkeep, beq_eq_false_iff_ne.2 hsource]

/-! ## One edit -/

/-- Whether an edit adds an edge to the path of a branch node while the path has an edge whose
handle is spelled differently. -/
def meetsOtherSpelling (g : Graph α) : Edit α → Bool
  | .connect newId source target handle =>
    (g.connect newId source target handle).isOk && (g.node? source).any fun node =>
      (pathTaken? node handle).any fun i =>
        (pathEdges g.edges source i).any (·.sourceHandle != handle)
  | _ => false

section Step

variable {g g' : Graph α} {edit : Edit α}

theorem pathTaken?_eq_some_iff {node : Node α} {handle : Option String} {i : Nat} :
    pathTaken? node handle = some i ↔
      node.isBranch = true ∧ handle.bind Handle.branchIndex? = some i := by
  rw [pathTaken?]
  split
  · rename_i hbranch
    simp [hbranch]
  · rename_i hbranch
    simp [hbranch]

/-- The edge that an edit adds to a path is spelled like those which are there. -/
def SpellsAlike (g : Graph α) : Edit α → Prop
  | .connect _ source _ handle => ∀ node i, g.node? source = some node →
    pathTaken? node handle = some i → ∀ other ∈ pathEdges g.edges source i,
      other.sourceHandle = handle
  | _ => True

theorem filter_sourceHandle_ne_eq_nil {edges : List Edge} {handle : Option String}
    (h : ∀ other ∈ edges, other.sourceHandle = handle) :
    edges.filter (·.sourceHandle != handle) = [] := by
  rw [List.filter_eq_nil_iff]
  intro other hother
  simpa using h other hother

/-- An added edge takes the place of those on its path, if they are spelled alike. -/
theorem length_pathEdges_connected_le {edge : Edge} {edges : List Edge} {i : Nat}
    (hindex : edge.branchIndex? = some i)
    (h : ∀ other ∈ pathEdges edges edge.source i, other.sourceHandle = edge.sourceHandle) :
    (pathEdges (edgesBeside edge true edges ++ [edge]) edge.source i).length ≤ 1 := by
  rw [pathEdges_connected_self hindex, filter_sourceHandle_ne_eq_nil h]
  exact Nat.le_refl 1

/-- An added edge joins those on its path that are spelled differently. -/
theorem two_le_length_pathEdges_connected {edge other : Edge} {edges : List Edge} {i : Nat}
    (hindex : edge.branchIndex? = some i) (hother : other ∈ pathEdges edges edge.source i)
    (hhandle : other.sourceHandle ≠ edge.sourceHandle) :
    2 ≤ (pathEdges (edgesBeside edge true edges ++ [edge]) edge.source i).length := by
  have hstays : other ∈
      (pathEdges edges edge.source i).filter (·.sourceHandle != edge.sourceHandle) :=
    List.mem_filter.2 ⟨hother, by simpa using hhandle⟩
  have hpos := List.length_pos_of_mem hstays
  rw [pathEdges_connected_self hindex, List.length_append, List.length_singleton]
  omega

theorem length_pathEdges_le_of_sublist {edges edges' : List Edge} (h : edges'.Sublist edges)
    (id : String) (i : Nat) : (pathEdges edges' id i).length ≤ (pathEdges edges id i).length :=
  (h.filter _).length_le

/-- An edit that spells handles alike keeps a graph in order. -/
theorem IsExclusive.rerouted (hg : g.IsExclusive) (hdistinct : g.IsDistinct)
    (hattached : g.IsAttached) (hfresh : g.isFresh edit = true) (hspelling : g.SpellsAlike edit)
    (h : g.Rerouted edit g') : g'.IsExclusive := by
  obtain ⟨hpaths, hconnections⟩ := isExclusive_iff.1 hg
  cases h with
  | push _ node hnew htargets =>
    refine isExclusive_iff.2 ⟨fun identity hidentity hkind i => ?_, hconnections⟩
    have hidentity : identity ∈ g.identities ++ [node.identity] := by
      simpa [identities, pushNode] using hidentity
    rcases List.mem_append.1 hidentity with hidentity | hidentity
    · exact hpaths identity hidentity hkind i
    · rw [List.mem_singleton.1 hidentity]
      show (pathEdges g.edges node.id i).length ≤ 1
      rw [pathEdges_eq_nil hattached (hasNode_eq_false_of_isFresh hfresh hnew)]
      exact Nat.zero_le 1
  | keep _ _ hedges hroutes =>
    rw [isExclusive_iff, identities_of_map_route hroutes, hedges]
    exact ⟨hpaths, hconnections⟩
  | remove id node hnode =>
    refine isExclusive_iff.2 ⟨fun identity hidentity hkind i => ?_,
      hconnections.sublist List.filter_sublist⟩
    rw [identities_eraseP_map] at hidentity
    exact Nat.le_trans (length_pathEdges_le_of_sublist List.filter_sublist _ _)
      (hpaths identity (List.mem_of_mem_eraseP hidentity) hkind i)
  | connect newId source target handle sourceNode targetNode hsource htarget hnew hrange =>
    refine isExclusive_iff.2 ⟨fun identity hidentity hkind i => ?_, ?_⟩
    · have hmember : identity ∈ g.identities := identities_noteTarget g source _ _ ▸ hidentity
      by_cases htaken : source = identity.id ∧ handle.bind Handle.branchIndex? = some i
      · obtain ⟨rfl, hindex⟩ := htaken
        have hbranch : sourceNode.isBranch = true := by
          rw [← hdistinct.identity_eq_of_node? hmember hsource] at hkind
          exact beq_iff_eq.2 hkind
        have hpath : pathTaken? sourceNode handle = some i :=
          pathTaken?_eq_some_iff.2 ⟨hbranch, hindex⟩
        rw [hpath]
        exact length_pathEdges_connected_le hindex (hspelling sourceNode i hsource hpath)
      · show (pathEdges (edgesBeside _ _ g.edges ++ _) identity.id i).length ≤ 1
        rw [pathEdges_connected_ne htaken]
        exact hpaths identity hmember hkind i
    · refine List.pairwise_append.2 ⟨hconnections.sublist (sublist_edgesBeside _ _ _),
        List.pairwise_singleton _ _, fun other hother edge hedge => ?_⟩
      rw [List.mem_singleton.1 hedge, sameConnection_comm]
      exact hnew other ((sublist_edgesBeside _ _ _).mem hother)
  | disconnect id edge hedge =>
    refine isExclusive_iff.2 ⟨fun identity hidentity hkind i => ?_,
      hconnections.sublist List.eraseP_sublist⟩
    have hmember : identity ∈ g.identities := identities_noteTarget g edge.source _ _ ▸ hidentity
    exact Nat.le_trans (length_pathEdges_le_of_sublist List.eraseP_sublist _ _)
      (hpaths identity hmember hkind i)
  | addPath id name =>
    rw [isExclusive_iff, identities_updateBranches]
    exact ⟨hpaths, hconnections⟩
  | removePath id index node hnode hkind hrange =>
    obtain ⟨hmem, hid⟩ := mem_and_id_eq_of_node? hnode
    have hnodePaths : ∀ i, (pathEdges g.edges id i).length ≤ 1 :=
      hid ▸ hpaths node.identity (List.mem_map_of_mem hmem) hkind
    refine isExclusive_iff.2 ⟨fun identity hidentity hbranch i => ?_,
      pairwise_edgesWithoutPath index hnodePaths hconnections⟩
    have hmember : identity ∈ g.identities := identities_updateBranches g id _ ▸ hidentity
    show (pathEdges (edgesWithoutPath id index g.edges) identity.id i).length ≤ 1
    by_cases hsame : identity.id = id
    · rw [hsame, pathEdges_edgesWithoutPath_self, List.length_map]
      exact hnodePaths _
    · rw [pathEdges_edgesWithoutPath_ne hsame]
      exact hpaths identity hmember hbranch i

variable [Coordinate α]

/-- An added edge that is spelled differently shares its path. -/
theorem not_isExclusive_of_edited (h : g.Edited edit g') (hspelling : ¬g.SpellsAlike edit) :
    ¬g'.IsExclusive := by
  cases edit with
  | connect newId source target handle =>
    simp only [SpellsAlike, Classical.not_forall] at hspelling
    obtain ⟨node, i, hnode, hpath, other, hother, hhandle⟩ := hspelling
    cases h with
    | connect _ _ _ _ sourceNode targetNode hsource htarget hne hnew hrange =>
      obtain rfl : sourceNode = node := Option.some.inj (hsource.symm.trans hnode)
      obtain ⟨hbranch, hindex⟩ := pathTaken?_eq_some_iff.1 hpath
      obtain ⟨hmem, rfl⟩ := mem_and_id_eq_of_node? hsource
      have hmember : sourceNode.identity ∈ g.identities := List.mem_map_of_mem hmem
      rw [← identities_noteTarget g sourceNode.id (pathTaken? sourceNode handle)
        (some targetNode.data.stepId)] at hmember
      intro hexclusive
      have hone := (isExclusive_iff.1 hexclusive).1 _ hmember (beq_iff_eq.1 hbranch) i
      have htwo := two_le_length_pathEdges_connected
        (show Edge.branchIndex? ⟨newId, sourceNode.id, target, handle, none⟩ = some i from hindex)
        hother hhandle
      rw [hpath] at hone
      exact absurd (Nat.le_trans htwo hone) (by decide)
  | _ => exact absurd trivial hspelling

theorem meetsOtherSpelling_eq_false_iff {outcome : EditResult α × Graph α}
    (h : g.perform edit = .ok outcome) :
    g.meetsOtherSpelling edit = false ↔ g.SpellsAlike edit := by
  cases edit with
  | connect newId source target handle =>
    obtain ⟨_, hconnect, _⟩ := bind_eq_ok.1 h
    have hok : (g.connect newId source target handle).isOk = true := by
      rw [hconnect]
      rfl
    simp only [meetsOtherSpelling, SpellsAlike, hok, Bool.true_and, Option.any_eq_false,
      List.any_eq_false, bne_iff_ne, ne_eq, Classical.not_not]
    exact ⟨fun h node i hnode hpath => h node hnode i hpath,
      fun h node hnode i hpath => h node i hnode hpath⟩
  | _ => exact iff_of_true rfl trivial

theorem meetsOtherSpelling_eq_false_of_error {error : EditError}
    (h : g.perform edit = .error error) : g.meetsOtherSpelling edit = false := by
  cases edit with
  | connect newId source target handle =>
    cases hconnect : g.connect newId source target handle with
    | error _ => simp [meetsOtherSpelling, hconnect, Except.isOk, Except.toBool]
    | ok outcome => simp [perform, hconnect, bind, Except.bind] at h
  | _ => rfl

/-- An edit keeps a graph in order unless it meets another spelling. -/
theorem isExclusive_apply_iff (hg : g.IsExclusive) (hdistinct : g.IsDistinct)
    (hattached : g.IsAttached) (hfresh : g.isFresh edit = true) :
    (g.apply edit).IsExclusive ↔ g.meetsOtherSpelling edit = false := by
  unfold apply
  cases hperform : g.perform edit with
  | error e => exact iff_of_true hg (meetsOtherSpelling_eq_false_of_error hperform)
  | ok outcome =>
    have hedited := edited_of_perform_eq_ok hperform
    rw [meetsOtherSpelling_eq_false_iff hperform]
    constructor
    · intro hexclusive
      by_contra hspelling
      exact not_isExclusive_of_edited hedited hspelling hexclusive
    · intro hspelling
      exact hg.rerouted hdistinct hattached hfresh hspelling hedited.rerouted

end Step

/-! ## A session -/

variable [Coordinate α]

/-- The states of a session from a graph in order, edit by edit. -/
private theorem isExclusive_run_take_aux (edits : List (Edit α)) :
    ∀ g : Graph α, g.IsExclusive → g.IsDistinct → g.IsAttached → runsWith isFresh g edits = true →
      ((∀ k, (g.run (edits.take k)).IsExclusive) ↔
        runsWith (fun g edit => !g.meetsOtherSpelling edit) g edits = true) := by
  induction edits with
  | nil =>
    intro g hg _ _ _
    simpa [run, runsWith] using hg
  | cons edit rest ih =>
    intro g hg hdistinct hattached hfresh
    obtain ⟨hedit, hrest⟩ := Bool.and_eq_true_iff.1 hfresh
    have hstep := isExclusive_apply_iff hg hdistinct hattached hedit
    rw [runsWith, Bool.and_eq_true_iff, Bool.not_eq_true', ← hstep]
    constructor
    · intro h
      have hfirst : (g.apply edit).IsExclusive := h 1
      refine ⟨hfirst, (ih _ hfirst (hdistinct.apply hedit) hattached.apply hrest).1 fun k => ?_⟩
      exact h (k + 1)
    · intro h k
      obtain ⟨hfirst, h⟩ := h
      cases k with
      | zero => exact hg
      | succ k => exact (ih _ hfirst (hdistinct.apply hedit) hattached.apply hrest).2 h k

/-- In a session of fresh edits from the empty graph, each path has one edge at most and
connections are apart in every state, exactly when no edit meets another spelling. -/
theorem isExclusive_run_take_iff (edits : List (Edit α))
    (hfresh : runsWith isFresh empty edits = true) :
    (∀ k, ((empty : Graph α).run (edits.take k)).IsExclusive) ↔
      runsWith (fun g edit => !g.meetsOtherSpelling edit) empty edits = true :=
  isExclusive_run_take_aux edits empty isExclusive_empty isDistinct_empty isAttached_empty hfresh

/-- The second of three paths is connected twice, and then the first path is removed. -/
def reconnectSession (target handle : String) : List (Edit Rat) :=
  [.addNode "n1" "s1" .branch ⟨0, 0⟩, .addNode "n2" "s2" .action ⟨0, 0⟩,
    .addNode "n3" "s3" .action ⟨0, 0⟩, .addBranchPath "n1" "Path 3",
    .connect "e1" "n1" "n2" (some "branch-1"), .connect "e2" "n1" target (some handle),
    .removeBranchPath "n1" 0]

/-- A path that is connected twice at one handle keeps the second edge, in every state. -/
theorem isExclusive_reconnectSession :
    (∀ k, (empty.run ((reconnectSession "n3" "branch-1").take k)).IsExclusive) ∧
      (empty.run (reconnectSession "n3" "branch-1")).edges =
        [⟨"e2", "n1", "n3", some "branch-0", none⟩] := by
  have hfresh : runsWith isFresh empty (reconnectSession "n3" "branch-1") = true := by
    decide +kernel
  refine ⟨(isExclusive_run_take_iff _ hfresh).2 ?_, ?_⟩
  · decide +kernel
  · decide +kernel

/-- A path that is connected at two spellings of its handle has two edges, and they join the same
nodes at the same handle once they are renumbered. -/
theorem reconnectSession_respelled :
    runsWith isFresh empty (reconnectSession "n2" "branch-01") = true ∧
      pathEdges (empty.run ((reconnectSession "n2" "branch-01").take 6)).edges "n1" 1 =
        [⟨"e1", "n1", "n2", some "branch-1", none⟩, ⟨"e2", "n1", "n2", some "branch-01", none⟩] ∧
      (empty.run (reconnectSession "n2" "branch-01")).edges =
        [⟨"e1", "n1", "n2", some "branch-0", none⟩, ⟨"e2", "n1", "n2", some "branch-0", none⟩] ∧
      ¬(empty.run (reconnectSession "n2" "branch-01")).IsExclusive := by
  have hedges : (empty.run (reconnectSession "n2" "branch-01")).edges =
      [⟨"e1", "n1", "n2", some "branch-0", none⟩, ⟨"e2", "n1", "n2", some "branch-0", none⟩] := by
    decide +kernel
  refine ⟨by decide +kernel, by decide +kernel, hedges, fun h => ?_⟩
  have hapart := h.connections
  rw [hedges, List.pairwise_pair] at hapart
  exact absurd hapart (by decide)

end StepGraph.Graph
