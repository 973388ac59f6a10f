import StepGraph.Editing.Basic
import StepGraph.Proofs.Graph.Handle

/-!
# The edges of a path

`Graph.pathEdges` are the edges that leave a node through the handle of a path, however the handle
is spelled.  For each way in which edits change the list of edges there is one equation, which says
what becomes of the edges of a path.

* `pathEdges_untouched`: when a node goes with the edges that touch it.
* `pathEdges_connected_self`, `pathEdges_connected_ne`: when an edge is added.
* `pathEdges_eraseP_self`, `pathEdges_eraseP_ne`: when an edge is removed.
* `pathEdges_edgesWithoutPath_self`, `pathEdges_edgesWithoutPath_ne`: when a path is removed.
-/

namespace StepGraph.Graph

/-- The edges that leave an id through the handle of a path. -/
def pathEdges (edges : List Edge) (id : String) (i : Nat) : List Edge :=
  edges.filter fun edge => edge.source == id && edge.branchIndex? == some i

theorem mem_pathEdges {edges : List Edge} {id : String} {i : Nat} {edge : Edge} :
    edge ∈ pathEdges edges id i ↔
      edge ∈ edges ∧ edge.source = id ∧ edge.branchIndex? = some i := by
  simp [pathEdges]

/-! ## A node goes -/

/-- When a node goes, the paths of other nodes lose the edges that lead to it. -/
theorem pathEdges_untouched {removed id : String} (h : id ≠ removed) (edges : List Edge) (i : Nat) :
    pathEdges (edges.filter fun edge => !edge.touches removed) id i =
      (pathEdges edges id i).filter (·.target != removed) := by
  unfold pathEdges
  rw [List.filter_filter, List.filter_filter]
  refine List.filter_congr fun edge _ => ?_
  rw [Bool.eq_iff_iff]
  simp only [Edge.touches, Bool.and_eq_true, Bool.not_eq_true', Bool.or_eq_false_iff, beq_iff_eq,
    beq_eq_false_iff_ne, bne_iff_ne]
  constructor
  · intro h
    obtain ⟨⟨hsource, hindex⟩, _, htarget⟩ := h
    exact ⟨htarget, hsource, hindex⟩
  · intro h
    obtain ⟨htarget, hsource, hindex⟩ := h
    exact ⟨⟨hsource, hindex⟩, hsource ▸ h, htarget⟩

/-! ## An edge is added -/

/-- The path that an edge takes keeps the edges whose handle is spelled differently. -/
theorem pathEdges_connected_self {edge : Edge} {i : Nat} (h : edge.branchIndex? = some i)
    (edges : List Edge) :
    pathEdges (edgesBeside edge true edges ++ [edge]) edge.source i =
      (pathEdges edges edge.source i).filter (·.sourceHandle != edge.sourceHandle) ++ [edge] := by
  have hedge : pathEdges [edge] edge.source i = [edge] := by
    simp [pathEdges, h]
  have hbeside : pathEdges (edgesBeside edge true edges) edge.source i =
      (pathEdges edges edge.source i).filter (·.sourceHandle != edge.sourceHandle) := by
    rw [edgesBeside, Bool.true_or, if_pos rfl]
    unfold pathEdges
    rw [List.filter_filter, List.filter_filter]
    refine List.filter_congr fun other _ => ?_
    rw [Bool.eq_iff_iff]
    simp only [Bool.and_eq_true, Bool.not_eq_true', Bool.and_eq_false_imp, beq_iff_eq,
      beq_eq_false_iff_ne, bne_iff_ne]
    constructor
    · intro h
      obtain ⟨⟨hsource, hindex⟩, hhandle⟩ := h
      exact ⟨hhandle hsource, hsource, hindex⟩
    · intro h
      obtain ⟨hhandle, hsource, hindex⟩ := h
      exact ⟨⟨hsource, hindex⟩, fun _ => hhandle⟩
  unfold pathEdges at *
  rw [List.filter_append, hedge, hbeside]

/-- Every other path keeps its edges. -/
theorem pathEdges_connected_ne {edge : Edge} {id : String} {i : Nat}
    (h : ¬(edge.source = id ∧ edge.branchIndex? = some i)) (takesPath : Bool) (edges : List Edge) :
    pathEdges (edgesBeside edge takesPath edges ++ [edge]) id i = pathEdges edges id i := by
  have hedge : pathEdges [edge] id i = [] := by
    simpa [pathEdges] using h
  have hbeside : pathEdges (edgesBeside edge takesPath edges) id i = pathEdges edges id i := by
    rw [edgesBeside]
    split
    · unfold pathEdges
      rw [List.filter_filter]
      refine List.filter_congr fun other _ => ?_
      rw [Bool.eq_iff_iff]
      simp only [Bool.and_eq_true, Bool.not_eq_true', Bool.and_eq_false_imp, beq_iff_eq,
        beq_eq_false_iff_ne, and_iff_left_iff_imp]
      -- What goes has the source and the handle of the edge, and so is not of this path.
      rintro ⟨hid, hindex⟩ hsource hhandle
      refine h ⟨hsource ▸ hid, ?_⟩
      rw [← hindex, Edge.branchIndex?, Edge.branchIndex?, hhandle]
    · rfl
  unfold pathEdges at *
  rw [List.filter_append, hedge, hbeside, List.append_nil]

/-! ## An edge is removed -/

/-- A path of one edge loses it. -/
theorem pathEdges_eraseP_self {edges : List Edge} {p : Edge → Bool} {edge : Edge} {i : Nat}
    (h : edges.find? p = some edge) (hindex : edge.branchIndex? = some i)
    (hone : (pathEdges edges edge.source i).length ≤ 1) :
    pathEdges (edges.eraseP p) edge.source i = [] := by
  obtain ⟨hp, before, after, rfl, hbefore⟩ := List.find?_eq_some_iff_append.1 h
  have hbefore : ∀ b ∈ before, ¬p b = true := by simpa using hbefore
  have hedge : pathEdges [edge] edge.source i = [edge] := by
    simp [pathEdges, hindex]
  rw [List.eraseP_append_right _ hbefore, List.eraseP_cons_of_pos hp]
  unfold pathEdges at *
  rw [List.append_cons, List.filter_append, List.filter_append, hedge, List.length_append,
    List.length_append, List.length_singleton] at hone
  rw [List.filter_append, ← List.length_eq_zero_iff, List.length_append]
  omega

/-- Every other path keeps its edges. -/
theorem pathEdges_eraseP_ne {edges : List Edge} {p : Edge → Bool} {edge : Edge} {id : String}
    {i : Nat} (h : edges.find? p = some edge)
    (hne : ¬(edge.source = id ∧ edge.branchIndex? = some i)) :
    pathEdges (edges.eraseP p) id i = pathEdges edges id i := by
  obtain ⟨hp, before, after, rfl, hbefore⟩ := List.find?_eq_some_iff_append.1 h
  have hbefore : ∀ b ∈ before, ¬p b = true := by simpa using hbefore
  have hedge : pathEdges [edge] id i = [] := by
    simpa [pathEdges] using hne
  rw [List.eraseP_append_right _ hbefore, List.eraseP_cons_of_pos hp]
  unfold pathEdges at *
  rw [List.append_cons, List.filter_append, List.filter_append, List.filter_append, hedge,
    List.append_nil]

/-! ## A path is removed -/

@[simp] theorem source_renumberHandle (index : Nat) (edge : Edge) :
    (renumberHandle index edge).source = edge.source := by
  rw [renumberHandle.eq_def]
  split
  · split <;> rfl
  · rfl

@[simp] theorem target_renumberHandle (index : Nat) (edge : Edge) :
    (renumberHandle index edge).target = edge.target := by
  rw [renumberHandle.eq_def]
  split
  · split <;> rfl
  · rfl

/-- What renumbering keeps of an edge is kept where the edges of one node only are renumbered. -/
theorem comp_renumberHandle {β : Type} (f : Edge → β) (index : Nat)
    (h : ∀ edge, f (renumberHandle index edge) = f edge) (id : String) :
    (f ∘ fun edge => if edge.source = id then renumberHandle index edge else edge) = f := by
  funext edge
  rw [Function.comp_apply]
  split
  · exact h edge
  · rfl

/-- A renumbered handle is read as the index before it. -/
theorem branchIndex?_renumberHandle (index : Nat) (edge : Edge) :
    (renumberHandle index edge).branchIndex? =
      edge.branchIndex?.map fun later => if index < later then later - 1 else later := by
  rw [renumberHandle.eq_def]
  split
  · rename_i later hlater
    obtain ⟨handle, _, hread⟩ := Option.bind_eq_some_iff.1 hlater
    have hbound : later - 1 < Handle.indexBound := by
      have := Handle.branchIndex?_lt hread
      omega
    rw [hlater, Option.map_some]
    split
    · exact Handle.branchIndex?_branch hbound
    · exact hlater
  · rename_i hnone
    rw [hnone, Option.map_none]

/-- Where the path at an index was before the path at another index went. -/
def indexBefore (index i : Nat) : Nat := if i < index then i else i + 1

theorem mem_edgesWithoutPath {id : String} {index : Nat} {edges : List Edge} {edge : Edge} :
    edge ∈ edgesWithoutPath id index edges ↔
      ∃ old ∈ edges, (old.source = id → old.branchIndex? ≠ some index) ∧
        (if old.source = id then renumberHandle index old else old) = edge := by
  simp [edgesWithoutPath, and_assoc, Decidable.imp_iff_not_or]

/-- The paths after the one that goes move to its place with their edges. -/
theorem pathEdges_edgesWithoutPath_self (id : String) (index : Nat) (edges : List Edge) (i : Nat) :
    pathEdges (edgesWithoutPath id index edges) id i =
      (pathEdges edges id (indexBefore index i)).map (renumberHandle index) := by
  unfold pathEdges edgesWithoutPath
  rw [List.filter_map, List.filter_filter]
  have hfilter : ∀ edge : Edge,
      (((fun edge : Edge => edge.source == id && edge.branchIndex? == some i) ∘ fun edge =>
          if edge.source = id then renumberHandle index edge else edge) edge &&
        !(edge.source == id && edge.branchIndex? == some index)) =
      (edge.source == id && edge.branchIndex? == some (indexBefore index i)) := by
    intro edge
    by_cases hid : edge.source = id
    · cases hlater : edge.branchIndex? with
      | none => simp [hid, branchIndex?_renumberHandle, hlater]
      | some later =>
        rw [Bool.eq_iff_iff]
        simp [hid, branchIndex?_renumberHandle, hlater, indexBefore]
        split <;> split <;> omega
    · simp [beq_eq_false_iff_ne.2 hid, hid]
  rw [List.filter_congr fun edge _ => hfilter edge]
  refine List.map_congr_left fun edge hedge => if_pos ?_
  exact (mem_pathEdges.1 hedge).2.1

/-- Other nodes keep their edges. -/
theorem filter_source_edgesWithoutPath_ne {id other : String} (h : other ≠ id) (index : Nat)
    (edges : List Edge) :
    (edgesWithoutPath id index edges).filter (·.source == other) =
      edges.filter (·.source == other) := by
  have hsource := comp_renumberHandle (fun edge => edge.source == other) index
    (fun edge => by rw [source_renumberHandle]) id
  unfold edgesWithoutPath
  rw [List.filter_map, hsource, List.filter_filter]
  have hfilter : edges.filter (fun edge => edge.source == other &&
      !(edge.source == id && edge.branchIndex? == some index)) =
      edges.filter (·.source == other) := by
    refine List.filter_congr fun edge _ => ?_
    by_cases hother : edge.source = other
    · simp [hother, beq_eq_false_iff_ne.2 h]
    · simp [hother]
  rw [hfilter]
  refine (List.map_congr_left fun edge hedge => ?_).trans (List.map_id _)
  have hother : edge.source = other := by simpa using (List.mem_filter.1 hedge).2
  exact if_neg fun hid => h (hother.symm.trans hid)

/-- The paths of other nodes keep their edges. -/
theorem pathEdges_edgesWithoutPath_ne {id other : String} (h : other ≠ id) (index : Nat)
    (edges : List Edge) (i : Nat) :
    pathEdges (edgesWithoutPath id index edges) other i = pathEdges edges other i := by
  have hpath : ∀ edges, pathEdges edges other i =
      (edges.filter (·.source == other)).filter (·.branchIndex? == some i) := by
    intro edges
    rw [List.filter_filter]
    unfold pathEdges
    simp only [Bool.and_comm]
  rw [hpath, hpath, filter_source_edgesWithoutPath_ne h]

end StepGraph.Graph
