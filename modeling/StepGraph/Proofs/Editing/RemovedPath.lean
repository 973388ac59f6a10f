import StepGraph.Proofs.Editing.Target

/-!
# A removed path in the compiled workflow

Removing a path of a branch node deletes its edges, renumbers the handles of the later paths and
takes the path out of the list of the node.  A compilation sees one change only: the entry of the
path is gone from the configuration of the step, and the later entries have moved to its place with
their targets.  The handles of the node must be spelled as they are written, since a compilation
looks for `branch-1` and does not see `branch-01`, which removing a path turns into `branch-0`.

There are three groups.

* Resolved edges.  They are those that were there, without those of the path.
* Links.  A handle of the node leads where the handle of the path in its old place led.
* Steps.  `compile_removeBranchPath` is the result.
-/

namespace StepGraph

open Workflow.Step

variable {α : Type}

namespace Graph

/-- The graph without the path at an index of a node. -/
def withoutPath (g : Graph α) (id : String) (index : Nat) : Graph α where
  nodes := (g.updateNode id (·.updateBranches (·.eraseIdx index))).nodes
  edges := edgesWithoutPath id index g.edges

/-- The handles of a node that are read as an index are the ones written for the index. -/
def IsCanonicalAt (g : Graph α) (id : String) : Prop :=
  ∀ edge ∈ g.edges, edge.source = id → ∀ i, edge.branchIndex? = some i →
    edge.sourceHandle = some (Handle.branch i)

section Removed

variable {g : Graph α} {id : String} {index : Nat}

/-! ## Resolved edges -/

theorem identities_withoutPath (g : Graph α) (id : String) (index : Nat) :
    (g.withoutPath id index).identities = g.identities := identities_updateBranches g id _

theorem resolves_withoutPath (g : Graph α) (id : String) (index : Nat) :
    (g.withoutPath id index).resolves = g.resolves :=
  resolves_congr (identities_withoutPath g id index)

/-- Removing a path and setting dangling edges aside can be done in either order. -/
theorem resolvedEdges_withoutPath (g : Graph α) (id : String) (index : Nat) :
    (g.withoutPath id index).resolvedEdges = edgesWithoutPath id index g.resolvedEdges := by
  have hends := comp_renumberHandle g.resolves index
    (fun edge => by rw [resolves, resolves, source_renumberHandle, target_renumberHandle]) id
  unfold resolvedEdges
  rw [resolves_withoutPath]
  show (edgesWithoutPath id index g.edges).filter g.resolves = _
  unfold edgesWithoutPath
  rw [List.filter_map, hends, List.filter_filter, List.filter_filter]
  simp only [Bool.and_comm]

/-! ## Links -/

theorem isCanonicalAt_withoutPath (h : g.IsCanonicalAt id) (index : Nat) :
    (g.withoutPath id index).IsCanonicalAt id := by
  intro edge hedge hsource i hi
  obtain ⟨old, hold, _, rfl⟩ := mem_edgesWithoutPath.1 hedge
  by_cases hid : old.source = id
  · rw [if_pos hid] at hi ⊢
    exact sourceHandle_renumberHandle (h old hold hid) i hi
  · rw [if_neg hid] at hsource
    exact absurd hsource hid

/-- Where handles are spelled as they are written, a compilation follows the first of the resolved
edges of a path. -/
theorem linkThrough?_branch_of_isCanonicalAt (h : g.IsCanonicalAt id) {i : Nat}
    (hi : i < Handle.indexBound) :
    g.linkThrough? id (Handle.branch i) =
      (pathEdges g.resolvedEdges id i).head?.bind fun edge => g.stepIdAt? edge.target := by
  have hpath : g.resolvedEdges.filter (fun edge => edge.source == id &&
      edge.leavesThrough (Handle.branch i)) = pathEdges g.resolvedEdges id i := by
    refine List.filter_congr fun edge hedge => ?_
    rw [Bool.eq_iff_iff, Bool.and_eq_true, Bool.and_eq_true, beq_iff_eq,
      beq_iff_eq (a := edge.branchIndex?)]
    refine and_congr_right fun hsource => ?_
    exact (branchIndex?_eq_some_iff hi (h edge (List.mem_filter.1 hedge).1 hsource)).symm
  unfold linkThrough? firstLink?
  rw [← List.head?_filter, hpath]

/-- A path leads where it led from its old place. -/
theorem linkThrough?_withoutPath_self (h : g.IsCanonicalAt id) {i : Nat}
    (hi : indexBefore index i < Handle.indexBound) :
    (g.withoutPath id index).linkThrough? id (Handle.branch i) =
      g.linkThrough? id (Handle.branch (indexBefore index i)) := by
  have hle : i ≤ indexBefore index i := by
    unfold indexBefore
    split <;> omega
  rw [linkThrough?_branch_of_isCanonicalAt h hi,
    linkThrough?_branch_of_isCanonicalAt (isCanonicalAt_withoutPath h index)
      (Nat.lt_of_le_of_lt hle hi),
    resolvedEdges_withoutPath, pathEdges_edgesWithoutPath_self, List.head?_map]
  cases (pathEdges g.resolvedEdges id (indexBefore index i)).head? with
  | none => rfl
  | some edge =>
    simp only [Option.map_some, Option.bind_some, target_renumberHandle]
    exact stepIdAt?_congr (identities_withoutPath g id index) edge.target

/-! ## Steps -/

/-- The step of a node depends on the edges out of its id and on where ids lead. -/
theorem stepFor_congr {g g' : Graph α} {node : Node α} (hidentities : g'.identities = g.identities)
    (hedges : g'.resolvedEdges.filter (·.source == node.id) =
      g.resolvedEdges.filter (·.source == node.id)) : g'.stepFor node = g.stepFor node := by
  have hlinks : ∀ p, g'.firstLink? node.id p = g.firstLink? node.id p := by
    intro p
    have hfind := congrArg (List.find? p) hedges
    simp only [List.find?_filter, Bool.decide_and, Bool.decide_eq_true] at hfind
    rw [firstLink?, firstLink?, hfind]
    simp only [stepIdAt?_congr hidentities]
  exact stepFor_congr_links (fun _ => hlinks _) fun _ _ => hlinks _

/-- The steps of other nodes stay. -/
theorem stepFor_withoutPath_ne {node : Node α} (h : node.id ≠ id) (index : Nat) :
    (g.withoutPath id index).stepFor node = g.stepFor node := by
  refine stepFor_congr (identities_withoutPath g id index) ?_
  rw [resolvedEdges_withoutPath, filter_source_edgesWithoutPath_ne h]

/-- The entry of the path goes from the configuration of the step. -/
theorem pathValues_withoutPath (h : g.IsCanonicalAt id) {node : Node α} (hid : node.id = id)
    (hsize : node.data.branches.length ≤ Handle.indexBound) :
    (g.withoutPath id index).index.pathValues (node.updateBranches (·.eraseIdx index)) =
      (g.index.pathValues node).eraseIdx index := by
  refine List.ext_getElem? fun i => ?_
  have hbefore : ∀ {β : Type} (items : List β),
      (items.eraseIdx index)[i]? = items[indexBefore index i]? := by
    intro β items
    rw [List.getElem?_eraseIdx, indexBefore]
    split <;> rfl
  rw [hbefore, getElem?_pathValues, getElem?_pathValues]
  show Option.map _ (node.data.branches.eraseIdx index)[i]? = _
  rw [hbefore]
  cases hpath : node.data.branches[indexBefore index i]? with
  | none => rfl
  | some path =>
    have hlt := (List.getElem?_eq_some_iff.1 hpath).1
    rw [Option.map_some, Option.map_some]
    show some (pathValue path ((g.withoutPath id index).linkThrough? node.id _)) = _
    rw [hid, linkThrough?_withoutPath_self h (Nat.lt_of_lt_of_le hlt hsize)]

theorem stepFor_withoutPath_self (h : g.IsCanonicalAt id) {node : Node α} (hid : node.id = id)
    (hkind : node.kind = .branch) (hsize : node.data.branches.length ≤ Handle.indexBound) :
    (g.withoutPath id index).stepFor (node.updateBranches (·.eraseIdx index)) =
      { g.stepFor node with
        config := branchFields ((g.index.pathValues node).eraseIdx index) } := by
  have hafter : (node.updateBranches (·.eraseIdx index)).kind = .branch := hkind
  rw [stepFor, stepFor, hafter, hkind]
  simp only [branchStep, pathValues_withoutPath h hid hsize]
  rfl

/-- A compilation of the graph without a path of a node changes one step. -/
theorem map_stepFor_withoutPath (index : Nat) (hids : (g.nodes.map (·.id)).Nodup)
    (h : g.IsCanonicalAt id) {node : Node α} (hnode : g.node? id = some node)
    (hkind : node.kind = .branch) (hsize : node.data.branches.length ≤ Handle.indexBound) :
    ∃ slot, g.nodes[slot]? = some node ∧
      (g.withoutPath id index).nodes.map (g.withoutPath id index).stepFor =
        (g.nodes.map g.stepFor).set slot { g.stepFor node with
          config := branchFields ((g.index.pathValues node).eraseIdx index) } := by
  obtain ⟨before, after, hnodes, hid, hbefore, hchanged⟩ :=
    exists_nodes_updateNode hnode (·.updateBranches (·.eraseIdx index))
  have hafter : ∀ other ∈ after, other.id ≠ id := by
    rw [hnodes, List.map_append, List.map_cons] at hids
    intro other hother hsame
    refine (List.nodup_cons.1 hids.of_append_right).1 ?_
    rw [hid, ← hsame]
    exact List.mem_map_of_mem hother
  have hchanged : (g.withoutPath id index).nodes =
      before ++ node.updateBranches (·.eraseIdx index) :: after := hchanged
  have hsame : ∀ others : List (Node α), (∀ other ∈ others, other.id ≠ id) →
      others.map (g.withoutPath id index).stepFor = others.map g.stepFor := by
    intro others hothers
    refine List.map_congr_left fun other hother => ?_
    exact stepFor_withoutPath_ne (hothers other hother) index
  refine ⟨before.length, by rw [hnodes, List.getElem?_append_right (Nat.le_refl _)]; simp, ?_⟩
  rw [hchanged, hnodes, List.map_append, List.map_append, List.map_cons, List.map_cons,
    hsame before hbefore, hsame after hafter, stepFor_withoutPath_self h hid hkind hsize,
    List.set_append_right _ _ (Nat.le_of_eq (List.length_map _)), List.length_map, Nat.sub_self,
    List.set_cons_zero]

end Removed

/-- A successful removal of a path checked that the node is a branch and that the path is there. -/
theorem eq_withoutPath_of_removeBranchPath_eq_ok [Coordinate α] {g g' : Graph α} {id : String}
    {index : Nat} {path : BranchPath} (h : g.removeBranchPath id index = .ok (path, g')) :
    g' = g.withoutPath id index ∧ ∃ node, g.node? id = some node ∧ node.kind = .branch ∧
      index < node.data.branches.length := by
  cases edited_of_removeBranchPath_eq_ok h with
  | removeBranchPath _ _ node hnode hkind hleast hrange => exact ⟨rfl, node, hnode, hkind, hrange⟩

theorem length_pathValues (g : Graph α) (node : Node α) :
    (g.index.pathValues node).length = node.data.branches.length := by
  simp [Index.pathValues]

/-- Where ids are distinct and the branch handles of a node are spelled as they are written,
removing a path of the node takes its entry out of the configuration of the step and changes nothing
else in the steps.  Indices of paths have 64 bits. -/
theorem compile_removeBranchPath [Coordinate α] {g g' : Graph α} {id : String} {index : Nat}
    {path : BranchPath} (hids : (g.nodes.map (·.id)).Nodup)
    (hsize : ∀ node ∈ g.nodes, node.data.branches.length ≤ Handle.indexBound)
    (hcanonical : g.IsCanonicalAt id) (hremove : g.removeBranchPath id index = .ok (path, g'))
    (workflowId : Option String) (verdict verdict' : Verdict) (hvalid : verdict.isValid = true)
    (hvalid' : verdict'.isValid = true) :
    ∃ w w' slot step paths,
      g.compile workflowId verdict = .ok w ∧ g'.compile workflowId verdict' = .ok w' ∧
      g.nodes[slot]?.map (·.id) = some id ∧ w.steps[slot]? = some step ∧
      step.config = branchFields paths ∧ index < paths.length ∧
      w'.steps = w.steps.set slot { step with config := branchFields (paths.eraseIdx index) } ∧
      ∀ i, branchTarget? { step with config := branchFields (paths.eraseIdx index) } i =
        step.branchTarget? (indexBefore index i) := by
  obtain ⟨rfl, node, hnode, hkind, hrange⟩ := eq_withoutPath_of_removeBranchPath_eq_ok hremove
  obtain ⟨hmem, hid⟩ := mem_and_id_eq_of_node? hnode
  obtain ⟨slot, hslot, hsteps⟩ :=
    map_stepFor_withoutPath index hids hcanonical hnode hkind (hsize node hmem)
  have hconfig : (g.stepFor node).config = branchFields (g.index.pathValues node) := by
    rw [stepFor, hkind]
    rfl
  refine ⟨_, _, slot, g.stepFor node, g.index.pathValues node,
    (g.compile_of_isValid workflowId hvalid).trans (g.workflow_eq_ok workflowId),
    (compile_of_isValid _ workflowId hvalid').trans (workflow_eq_ok _ workflowId),
    ?_, ?_, hconfig, ?_, hsteps, fun i => ?_⟩
  · rw [hslot, Option.map_some, hid]
  · rw [List.getElem?_map, hslot, Option.map_some]
  · rw [length_pathValues]
    exact hrange
  · rw [branchTarget?_branchFields rfl, branchTarget?_branchFields hconfig, List.getElem?_eraseIdx,
      indexBefore]
    split <;> rfl

/-- A branch of three paths.  The second has two edges, the third one to a node that is not there,
and an edge is beyond the paths; another node has an edge at a handle of the same name. -/
def crowdedGraph : Graph Rat where
  nodes := [
    { id := "n1"
      kind := .branch
      position := ⟨0, 0⟩
      data := { StepData.empty with
        stepId := "s1", branches := [.ofName "Path 1", .ofName "Path 2", .ofName "Path 3"] } },
    { id := "n2", kind := .action, position := ⟨0, 0⟩, data := { StepData.empty with stepId := "s2" } },
    { id := "n3", kind := .action, position := ⟨0, 0⟩, data := { StepData.empty with stepId := "s3" } }]
  edges := [
    ⟨"e1", "n1", "n2", some "branch-1", none⟩,
    ⟨"e2", "n1", "n3", some "branch-1", none⟩,
    ⟨"e3", "n1", "n9", some "branch-2", none⟩,
    ⟨"e4", "n1", "n3", some "branch-2", none⟩,
    ⟨"e5", "n1", "n2", some "branch-5", none⟩,
    ⟨"e6", "n1", "n3", some "branch-0", none⟩,
    ⟨"e7", "n1", "n2", some "approve", none⟩,
    ⟨"e8", "n2", "n3", some "branch-2", none⟩]

theorem compile_crowdedGraph :
    ∃ w w' split split' rest,
      crowdedGraph.compile none ⟨true, [], []⟩ = .ok w ∧
      (crowdedGraph.withoutPath "n1" 0).compile none ⟨true, [], []⟩ = .ok w' ∧
      w.steps = split :: rest ∧ w'.steps = split' :: rest ∧
      split'.branchTarget? 0 = split.branchTarget? 1 ∧
      split'.branchTarget? 1 = split.branchTarget? 2 := by
  have hcanonical : crowdedGraph.IsCanonicalAt "n1" := by
    have hread : ∀ edge ∈ crowdedGraph.edges, edge.source = "n1" →
        edge.branchIndex?.all (fun i => edge.sourceHandle == some (Handle.branch i)) = true := by
      decide +kernel
    intro edge hedge hsource i hi
    simpa [hi] using hread edge hedge hsource
  have hremove : crowdedGraph.removeBranchPath "n1" 0 =
      .ok (.ofName "Path 1", crowdedGraph.withoutPath "n1" 0) := rfl
  obtain ⟨w, w', slot, split, paths, hw, hw', hslot, hsplit, -, -, hsteps, htargets⟩ :=
    compile_removeBranchPath (by decide +kernel) (by decide +kernel) hcanonical hremove none
      ⟨true, [], []⟩ ⟨true, [], []⟩ rfl rfl
  obtain rfl : slot = 0 := by
    match slot with
    | 0 => rfl
    | 1 | 2 => simp [crowdedGraph] at hslot
    | _ + 3 => simp [crowdedGraph] at hslot
  obtain ⟨id, start, steps⟩ := w
  cases steps with
  | nil => simp at hsplit
  | cons first rest =>
    obtain rfl : first = split := by simpa using hsplit
    exact ⟨_, w', first, _, rest, hw, hw', rfl, hsteps, htargets 0, htargets 1⟩

end Graph

end StepGraph
