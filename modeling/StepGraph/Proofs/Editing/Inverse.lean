import StepGraph.Proofs.Editing.Outcome
import StepGraph.Proofs.Graph.Link

/-!
# Edits that take each other back

Disconnecting takes back a connection, removing a node takes back its addition, and removing a path
takes back the path that was added last.  The graph that comes back is the one there was, with all
its nodes, edges and notes, as long as the first edit put nothing in the place of something else and
the second finds nothing more to remove.

There are five groups.

* Branch paths of a node.
* Connections, `disconnect_connect`.
* Nodes, `removeNode_pushNode`.
* Paths, `removeBranchPath_addBranchPath`.
* All of them, `edits_taken_back`.
-/

namespace StepGraph

variable {α : Type}

/-! ## Branch paths of a node -/

theorem Node.updateBranches_eq_self {f : List BranchPath → List BranchPath} {node : Node α}
    (h : f node.data.branches = node.data.branches) : node.updateBranches f = node := by
  unfold updateBranches updateData
  simp only [h]

theorem Node.updateBranches_updateBranches (f f' : List BranchPath → List BranchPath)
    (node : Node α) :
    (node.updateBranches f).updateBranches f' =
      node.updateBranches fun branches => f' (f branches) := rfl

namespace Graph

variable {g : Graph α}

/-- The later note at a path counts. -/
theorem setPathTarget_setPathTarget (index : Nat) (target other : Option String) (node : Node α) :
    setPathTarget index other (setPathTarget index target node) =
      setPathTarget index other node := by
  unfold setPathTarget
  simp only [Node.updateBranches_updateBranches, List.modify_modify_eq, Function.comp_def]

/-- Forgetting changes nothing where there is no note. -/
theorem setPathTarget_none_eq_self {index : Nat} {node : Node α}
    (h : ∀ path, node.data.branches[index]? = some path → path.target = none) :
    setPathTarget index none node = node := by
  refine Node.updateBranches_eq_self (List.ext_getElem? fun i => ?_)
  rw [List.getElem?_modify]
  by_cases hi : index = i
  · subst hi
    cases hpath : node.data.branches[index]? with
    | none => rfl
    | some path => simp [← h path hpath]
  · simp [hi]

/-! ## Connections -/

/-- The first node with an id has no note at the path of an index. -/
def HasNoNoteAt (g : Graph α) (id : String) (index : Nat) : Prop :=
  ∀ node, g.node? id = some node → ∀ path, node.data.branches[index]? = some path →
    path.target = none

/-- What is noted where there was no note can be forgotten, and nothing more is. -/
theorem noteTarget_none_noteTarget {id : String} {index? path? : Option Nat}
    (h : ∀ index, index? = some index → g.HasNoNoteAt id index)
    (hpath : path? = index? ∨ path? = none) (target : Option String) :
    (g.noteTarget id path? target).noteTarget id index? none = g := by
  cases index? with
  | none =>
    rw [or_self] at hpath
    rw [hpath]
    rfl
  | some index =>
    have hself : g.updateNode id (setPathTarget index none) = g :=
      updateNode_eq_self fun node hnode => setPathTarget_none_eq_self (h index rfl node hnode)
    rcases hpath with rfl | rfl
    -- Both notes are at one path, so the second overwrites the first.
    · have hid : ∀ node : Node α, (setPathTarget index target node).id = node.id := fun _ => rfl
      rw [noteTarget, noteTarget, updateNode_updateNode hid]
      simpa only [setPathTarget_setPathTarget] using hself
    -- The edge takes no path and leaves no note, but its handle still names the path to forget.
    · exact hself

/-- Notes are made in nodes, whatever the edges are. -/
theorem mk_nodes_noteTarget (g : Graph α) (edges : List Edge) (id : String) (path? : Option Nat)
    (target : Option String) :
    (⟨(g.noteTarget id path? target).nodes, edges⟩ : Graph α) =
      noteTarget ⟨g.nodes, edges⟩ id path? target := by
  cases path? <;> rfl

/-- The path that an edge takes is the one its handle names, if it takes one. -/
theorem pathTaken?_cases (node : Node α) (handle : Option String) :
    pathTaken? node handle = handle.bind Handle.branchIndex? ∨ pathTaken? node handle = none := by
  rw [pathTaken?]
  split
  · exact Or.inl rfl
  · exact Or.inr rfl

/-- An edge beside which all others stay takes the place of none. -/
theorem edgesBeside_eq_self {edge : Edge} {takesPath : Bool} {edges : List Edge}
    (hne : ∀ other ∈ edges, other ≠ edge)
    (hkept : ∀ other ∈ edges, other ∈ edgesBeside edge takesPath edges ++ [edge]) :
    edgesBeside edge takesPath edges = edges := by
  have hbeside : ∀ other ∈ edges, other ∈ edgesBeside edge takesPath edges := fun other hother =>
    (List.mem_append.1 (hkept other hother)).resolve_right fun hlast =>
      hne other hother (List.mem_singleton.1 hlast)
  rw [edgesBeside] at hbeside ⊢
  split at hbeside
  · rename_i hstands
    rw [if_pos hstands]
    exact List.filter_eq_self.2 fun other hother => (List.mem_filter.1 (hbeside other hother)).2
  · rename_i hstands
    rw [if_neg hstands]

/-- Disconnecting the last edge, if its id is its own, leaves the others and forgets its note. -/
theorem disconnect_last {others : List Edge} (edge : Edge) (hedges : g.edges = others ++ [edge])
    (hothers : ∀ other ∈ others, other.id ≠ edge.id) :
    g.disconnect edge.id =
      .ok (edge, ⟨(g.noteTarget edge.source edge.branchIndex? none).nodes, others⟩) := by
  have hnone : others.find? (·.id == edge.id) = none := by
    simpa [List.find?_eq_none] using hothers
  have hfound : g.edge? edge.id = some edge := by
    simp [edge?, hedges, List.find?_append, hnone]
  have herased : g.edges.eraseP (·.id == edge.id) = others := by
    rw [hedges, List.eraseP_append_right _ (by simpa using hothers)]
    simp
  rw [disconnect, hfound]
  simp only [herased]

/-- A connection that took the place of no edge and overwrote no note is taken back by
disconnecting its edge. -/
theorem disconnect_connect [Coordinate α] {g' : Graph α} {newId source target : String}
    {handle : Option String} {edge : Edge}
    (hconnect : g.connect newId source target handle = .ok (edge, g'))
    (hfresh : ∀ other ∈ g.edges, other.id ≠ newId) (hkept : ∀ other ∈ g.edges, other ∈ g'.edges)
    (hopen : ∀ index, handle.bind Handle.branchIndex? = some index →
      g.HasNoNoteAt source index) :
    edge.id = newId ∧ g'.disconnect newId = .ok (edge, g) := by
  cases edited_of_connect_eq_ok hconnect with
  | connect _ _ _ _ sourceNode targetNode hsource htarget hne hnew hrange =>
    rw [connect_eq_ok hsource htarget hne hnew hrange] at hconnect
    cases hconnect
    refine ⟨rfl, ?_⟩
    -- No edge went, so the new one stands last and the others are as they were.
    have hedges : edgesBeside ⟨newId, source, target, handle, none⟩
        (pathTaken? sourceNode handle).isSome g.edges = g.edges :=
      edgesBeside_eq_self (fun other hother hsame => hfresh other hother (hsame ▸ rfl)) hkept
    have hback : (noteTarget ⟨(g.noteTarget source (pathTaken? sourceNode handle)
          (some targetNode.data.stepId)).nodes, g.edges ++ [⟨newId, source, target, handle, none⟩]⟩
        source (handle.bind Handle.branchIndex?) none).nodes = g.nodes := by
      rw [mk_nodes_noteTarget, noteTarget_none_noteTarget (g := ⟨g.nodes, g.edges ++ _⟩) hopen
        (pathTaken?_cases sourceNode handle)]
    rw [hedges]
    refine (disconnect_last ⟨newId, source, target, handle, none⟩ rfl hfresh).trans ?_
    exact congrArg (fun nodes => Except.ok (_, Graph.mk nodes g.edges)) hback

/-! ## Nodes -/

/-- An id that no node has and no edge touches, and a step identity that no note names. -/
structure IsUntouched (g : Graph α) (id stepId : String) : Prop where
  node : g.hasNode id = false
  edges : ∀ edge ∈ g.edges, edge.touches id = false
  notes : ∀ node ∈ g.nodes, ∀ path ∈ node.data.branches, path.target ≠ some stepId

/-- A node that nothing touches can be removed after it was added, and nothing more is. -/
theorem removeNode_pushNode {node : Node α} (h : g.IsUntouched node.id node.data.stepId) :
    (g.pushNode node).removeNode node.id = .ok (node, g) := by
  have hnodes : ((g.pushNode node).nodes.eraseP (·.id == node.id)).map
      (fun other => other.updateBranches (·.map (forgetTarget node.data.stepId))) = g.nodes := by
    have herased : (g.nodes ++ [node]).eraseP (·.id == node.id) = g.nodes := by
      rw [List.eraseP_append_right _ (by simpa using id_beq_of_hasNode h.node)]
      simp
    rw [pushNode, herased]
    refine (List.map_congr_left fun other hother => ?_).trans (List.map_id _)
    refine Node.updateBranches_eq_self ((List.map_congr_left fun path hpath => ?_).trans
      (List.map_id _))
    exact if_neg (h.notes other hother path hpath)
  have hedges : (g.pushNode node).edges.filter (fun edge => !edge.touches node.id) = g.edges :=
    List.filter_eq_self.2 fun edge hedge => by rw [h.edges edge hedge, Bool.not_false]
  rw [removeNode, getNode_eq_ok.2 (node?_pushNode_self h.node)]
  simp only [bind, Except.bind, hnodes, hedges]

/-! ## Paths -/

/-- The edges of a graph stay when a path goes that none of them leaves through, nor through a later
one. -/
theorem edgesWithoutPath_eq_self {id : String} {index : Nat} {edges : List Edge}
    (h : ∀ edge ∈ edges, edge.source = id → ∀ i, edge.branchIndex? = some i → i < index) :
    edgesWithoutPath id index edges = edges := by
  have hkept : edges.filter (fun edge => !(edge.source == id && edge.branchIndex? == some index)) =
      edges := by
    refine List.filter_eq_self.2 fun edge hedge => ?_
    rw [Bool.not_eq_true', Bool.and_eq_false_imp, beq_iff_eq, beq_eq_false_iff_ne]
    intro hsource hindex
    exact Nat.lt_irrefl _ (h edge hedge hsource index hindex)
  rw [edgesWithoutPath, hkept]
  refine (List.map_congr_left fun edge hedge => ?_).trans (List.map_id _)
  split
  · rename_i hsource
    rw [renumberHandle.eq_def]
    split
    · rename_i later hlater
      exact if_neg (Nat.not_lt.2 (Nat.le_of_lt (h edge hedge hsource later hlater)))
    · rfl
  · rfl

/-- A path that was added last can be removed, and nothing more is. -/
theorem removeBranchPath_addBranchPath {id : String} {node : Node α}
    (hnode : g.node? id = some node) (hkind : node.kind = .branch)
    (hleast : leastPaths ≤ node.data.branches.length)
    (hedges : ∀ edge ∈ g.edges, edge.source = id → ∀ i, edge.branchIndex? = some i →
      i < node.data.branches.length) (name : String) :
    ∃ g', g.addBranchPath id name = .ok (node.data.branches.length, g') ∧
      g'.removeBranchPath id node.data.branches.length = .ok (.ofName name, g) := by
  have hbranches : (node.data.branches ++ [BranchPath.ofName name]).eraseIdx
      node.data.branches.length = node.data.branches := by
    rw [List.eraseIdx_append_of_length_le (Nat.le_refl _)]
    simp
  have hid : ∀ node : Node α, (node.updateBranches (· ++ [.ofName name])).id = node.id :=
    fun _ => rfl
  have hadded : (g.updateNode id (·.updateBranches (· ++ [.ofName name]))).node? id =
      some (node.updateBranches (· ++ [.ofName name])) := by
    rw [node?_updateNode hid, hnode, Option.map_some]
  -- The node is found again by its id, and the path by its place, which is the last.
  have herased : (g.updateNode id (·.updateBranches (· ++ [.ofName name]))).updateNode id
      (·.updateBranches (·.eraseIdx node.data.branches.length)) = g := by
    rw [updateNode_updateNode hid]
    refine updateNode_eq_self fun found hfound => ?_
    rw [hnode] at hfound
    cases hfound
    exact Node.updateBranches_eq_self
      (f := fun paths => (paths ++ [BranchPath.ofName name]).eraseIdx node.data.branches.length)
      hbranches
  have hpaths : (node.updateBranches (· ++ [.ofName name])).data.branches =
      node.data.branches ++ [.ofName name] := rfl
  have hlast : (node.data.branches ++ [BranchPath.ofName name])[node.data.branches.length]? =
      some (.ofName name) := by
    simp
  have hmore : ¬(node.data.branches ++ [BranchPath.ofName name]).length ≤ leastPaths := by
    rw [List.length_append, List.length_singleton]
    omega
  refine ⟨_, by rw [addBranchPath, getNodeOfKind_eq_ok.2 ⟨hnode, hkind⟩]; rfl, ?_⟩
  rw [removeBranchPath, getNodeOfKind_eq_ok.2 ⟨hadded, hkind⟩]
  simp only [bind, Except.bind, hpaths, if_neg hmore, hlast, herased]
  exact congrArg (fun edges => Except.ok (_, Graph.mk g.nodes edges))
    (edgesWithoutPath_eq_self hedges)

/-! ## All of them -/

/-- Edits that take nothing away are taken back: a connection by disconnecting its edge, the
addition of a node or of a copy by removing it, and the addition of a path by removing the last
path. -/
theorem edits_taken_back [Coordinate α] (g : Graph α) :
    (∀ newId source target handle edge g',
        g.connect newId source target handle = .ok (edge, g') →
        (∀ other ∈ g.edges, other.id ≠ newId) → (∀ other ∈ g.edges, other ∈ g'.edges) →
        (∀ index, handle.bind Handle.branchIndex? = some index → g.HasNoNoteAt source index) →
          edge.id = newId ∧ g'.disconnect newId = .ok (edge, g)) ∧
      (∀ newId newStepId, g.IsUntouched newId newStepId →
        (∀ kind position node g', g.addNode newId newStepId kind position = (node, g') →
          g'.removeNode newId = .ok (node, g)) ∧
        (∀ kind viewCentre node g',
          g.addNodeAtDefault newId newStepId kind viewCentre = (node, g') →
            g'.removeNode newId = .ok (node, g)) ∧
        ∀ id, g.hasNode id = true → ∃ node g', g.duplicateNode newId newStepId id = .ok (node, g') ∧
          g'.removeNode newId = .ok (node, g)) ∧
      ∀ id node name, g.node? id = some node → node.kind = .branch →
        leastPaths ≤ node.data.branches.length →
        (∀ edge ∈ g.edges, edge.source = id → ∀ index, edge.branchIndex? = some index →
          index < node.data.branches.length) →
          ∃ g', g.addBranchPath id name = .ok (node.data.branches.length, g') ∧
            g'.removeBranchPath id node.data.branches.length = .ok (.ofName name, g) := by
  refine ⟨fun newId source target handle edge g' => disconnect_connect,
    fun newId newStepId h => ⟨?_, ?_, ?_⟩,
    fun id node name hnode hkind hleast hedges =>
      removeBranchPath_addBranchPath hnode hkind hleast hedges name⟩
  · intro kind position node g' hadd
    cases hadd
    exact removeNode_pushNode (by cases kind <;> exact h)
  · intro kind viewCentre node g' hadd
    cases hadd
    exact removeNode_pushNode (by cases kind <;> exact h)
  · intro id hid
    obtain ⟨original, horiginal⟩ := exists_node?_of_hasNode hid
    exact ⟨_, _, by rw [duplicateNode, getNode_eq_ok.2 horiginal]; rfl, removeNode_pushNode h⟩

/-- A branch whose first path leads to an action, and whose second is open. -/
def openGraph : Graph Rat where
  nodes := [
    { id := "n1"
      kind := .branch
      position := ⟨0, 0⟩
      data := { StepData.empty with
        stepId := "s1"
        branches := [⟨"Big", [], .all, some "s2"⟩, .ofName "Small"] } },
    .fresh "n2" "s2" .action ⟨0, 200⟩]
  edges := [⟨"e1", "n1", "n2", some "branch-0", none⟩]

/-- The open path is connected and freed again, the branch is copied and the copy removed, and a
third path is added and removed. -/
theorem edits_taken_back_openGraph :
    (∃ edge g', openGraph.connect "e2" "n1" "n2" (some "branch-1") = .ok (edge, g') ∧
      g'.disconnect "e2" = .ok (edge, openGraph)) ∧
      (∃ copy g', openGraph.duplicateNode "n3" "s3" "n1" = .ok (copy, g') ∧
        g'.removeNode "n3" = .ok (copy, openGraph)) ∧
      ∃ g', openGraph.addBranchPath "n1" "Else" = .ok (2, g') ∧
        g'.removeBranchPath "n1" 2 = .ok (.ofName "Else", openGraph) := by
  obtain ⟨hconnect, hadd, hpath⟩ := openGraph.edits_taken_back
  refine ⟨?_, ?_, ?_⟩
  · obtain ⟨edge, g', hdone⟩ : ∃ edge g',
        openGraph.connect "e2" "n1" "n2" (some "branch-1") = .ok (edge, g') := ⟨_, _, rfl⟩
    have hopen : ∀ index, some 1 = some index → openGraph.HasNoNoteAt "n1" index := by
      rintro _ ⟨⟩ node hnode path hbranch
      cases hnode
      cases hbranch
      rfl
    refine ⟨edge, g', hdone, (hconnect _ _ _ _ edge g' hdone (by decide) ?_ hopen).2⟩
    cases hdone
    decide +kernel
  · have huntouched : openGraph.IsUntouched "n3" "s3" := ⟨by decide, by decide, by decide⟩
    exact (hadd _ _ huntouched).2.2 "n1" (by decide)
  · exact hpath "n1" _ "Else" rfl rfl (by decide) (by decide)

end Graph

end StepGraph
