import StepGraph.Proofs.Validation.CycleSearch

/-!
# The steps of a cycle search

A search goes on in single steps: it starts at a vertex or passes it by, follows a successor or
passes it by, or leaves a vertex none of whose successors is left.  `CycleSearch.run` says what
comes of all steps together; here they are counted.

There are three groups.

* Steps.  `Step` lists them and `Ends` says where there is none.
* What a step keeps.  It uses up one unit of work (`Step.work_eq`), moves a vertex from the fresh
  ones to the expanded ones or none (`Step.perm`), and leaves the result as it is
  (`Step.result_eq`).
* Whole searches.  `exists_steps_ends` says that a search ends, `Steps.work_eq` bounds its steps,
  and `Steps.nodup_expanded` says that no vertex is expanded twice.
-/

namespace StepGraph.CycleSearch

variable {V : Type} [DecidableEq V] {successors : V → List V}

/-! ## Steps -/

/-- A search under way. -/
structure State (V : Type) where
  /-- The vertices to start at that have not had their turn. -/
  roots : List V
  fresh : List V
  expanded : List V
  /-- The path being followed, the innermost vertex first. -/
  path : List (Frame V)

/-- Before the first step. -/
def State.start (vertices : List V) : State V := ⟨vertices, vertices.eraseDups, [], []⟩

/-- One step of a search. -/
inductive Step (successors : V → List V) : State V → State V → Prop
  | start (root : V) (roots fresh expanded : List V) (hroot : root ∈ fresh) :
    Step successors ⟨root :: roots, fresh, expanded, []⟩
      ⟨roots, fresh.erase root, root :: expanded, [⟨root, successors root⟩]⟩
  | passRoot (root : V) (roots fresh expanded : List V) (hroot : root ∉ fresh) :
    Step successors ⟨root :: roots, fresh, expanded, []⟩ ⟨roots, fresh, expanded, []⟩
  | leave (v : V) (roots fresh expanded : List V) (outer : List (Frame V)) :
    Step successors ⟨roots, fresh, expanded, ⟨v, []⟩ :: outer⟩ ⟨roots, fresh, expanded, outer⟩
  | enter (v w : V) (ws roots fresh expanded : List V) (outer : List (Frame V))
    (hpath : ¬(w = v ∨ w ∈ outer.map (·.vertex))) (hw : w ∈ fresh) :
    Step successors ⟨roots, fresh, expanded, ⟨v, w :: ws⟩ :: outer⟩
      ⟨roots, fresh.erase w, w :: expanded, ⟨w, successors w⟩ :: ⟨v, ws⟩ :: outer⟩
  | pass (v w : V) (ws roots fresh expanded : List V) (outer : List (Frame V))
    (hpath : ¬(w = v ∨ w ∈ outer.map (·.vertex))) (hw : w ∉ fresh) :
    Step successors ⟨roots, fresh, expanded, ⟨v, w :: ws⟩ :: outer⟩
      ⟨roots, fresh, expanded, ⟨v, ws⟩ :: outer⟩

/-- Where a search ends: nothing is left to do, or a cycle closes. -/
inductive Ends : State V → Progress V → Prop
  | done (fresh expanded : List V) : Ends ⟨[], fresh, expanded, []⟩ ⟨fresh, expanded, none⟩
  | closed (v w : V) (ws roots fresh expanded : List V) (outer : List (Frame V))
    (hpath : w = v ∨ w ∈ outer.map (·.vertex)) :
    Ends ⟨roots, fresh, expanded, ⟨v, w :: ws⟩ :: outer⟩ ⟨fresh, expanded, some v⟩

/-- A number of steps, one after the other. -/
inductive Steps (successors : V → List V) : Nat → State V → State V → Prop
  | refl (s : State V) : Steps successors 0 s s
  | head {n : Nat} {s t u : State V} (first : Step successors s t) (rest : Steps successors n t u) :
    Steps successors (n + 1) s u

/-- A search takes a step unless it ends. -/
theorem exists_step_or_ends (successors : V → List V) (s : State V) :
    (∃ t, Step successors s t) ∨ ∃ p, Ends s p := by
  obtain ⟨roots, fresh, expanded, path⟩ := s
  match path with
  | [] =>
    match roots with
    | [] => exact Or.inr ⟨_, .done fresh expanded⟩
    | root :: roots =>
      by_cases hroot : root ∈ fresh
      · exact Or.inl ⟨_, .start root roots fresh expanded hroot⟩
      · exact Or.inl ⟨_, .passRoot root roots fresh expanded hroot⟩
  | ⟨v, []⟩ :: outer => exact Or.inl ⟨_, .leave v roots fresh expanded outer⟩
  | ⟨v, w :: ws⟩ :: outer =>
    by_cases hpath : w = v ∨ w ∈ outer.map (·.vertex)
    · exact Or.inr ⟨_, .closed v w ws roots fresh expanded outer hpath⟩
    · by_cases hw : w ∈ fresh
      · exact Or.inl ⟨_, .enter v w ws roots fresh expanded outer hpath hw⟩
      · exact Or.inl ⟨_, .pass v w ws roots fresh expanded outer hpath hw⟩

/-! ## What a step keeps -/

/-- The work left: a unit for each vertex to start at, each frame and each successor. -/
def State.work (successors : V → List V) (s : State V) : Nat :=
  s.roots.length + freshWork successors s.fresh + pathWork s.path

/-- A step uses up one unit of work. -/
theorem Step.work_eq {s t : State V} (h : Step successors s t) :
    s.work successors = t.work successors + 1 := by
  cases h with
  | start root roots fresh expanded hroot =>
    have := freshWork_erase successors hroot
    simp only [State.work, pathWork, List.length_cons]
    omega
  | passRoot root roots fresh expanded hroot =>
    simp only [State.work, List.length_cons]
    omega
  | leave v roots fresh expanded outer =>
    simp only [State.work, pathWork, List.length_nil]
    omega
  | enter v w ws roots fresh expanded outer hpath hw =>
    have := freshWork_erase successors hw
    simp only [State.work, pathWork, List.length_cons]
    omega
  | pass v w ws roots fresh expanded outer hpath hw =>
    simp only [State.work, pathWork, List.length_cons]
    omega

/-- Expanding a vertex takes it from the fresh ones. -/
theorem erase_append_cons_perm {fresh : List V} {v : V} (hv : v ∈ fresh) (expanded : List V) :
    (fresh.erase v ++ v :: expanded).Perm (fresh ++ expanded) :=
  List.perm_middle.trans ((List.perm_cons_erase hv).symm.append_right expanded)

/-- A step keeps the fresh and the expanded vertices together. -/
theorem Step.perm {s t : State V} (h : Step successors s t) :
    (t.fresh ++ t.expanded).Perm (s.fresh ++ s.expanded) := by
  cases h with
  | start root roots fresh expanded hroot => exact erase_append_cons_perm hroot expanded
  | passRoot root roots fresh expanded hroot => exact List.Perm.refl _
  | leave v roots fresh expanded outer => exact List.Perm.refl _
  | enter v w ws roots fresh expanded outer hpath hw => exact erase_append_cons_perm hw expanded
  | pass v w ws roots fresh expanded outer hpath hw => exact List.Perm.refl _

/-- What comes of a search under way. -/
def State.result (successors : V → List V) (s : State V) : Progress V :=
  s.roots.foldl (visit successors) (follow successors s.fresh s.expanded s.path)

/-- Once a cycle is found, nothing more is started. -/
theorem foldl_visit_of_found {p : Progress V} (h : p.found ≠ none) (roots : List V) :
    roots.foldl (visit successors) p = p := by
  induction roots with
  | nil => rfl
  | cons root rest ih =>
    have hstay : visit successors p root = p := by
      rw [visit, if_neg]
      simp [h]
    rw [List.foldl_cons, hstay, ih]

/-- A step leaves the result as it is. -/
theorem Step.result_eq {s t : State V} (h : Step successors s t) :
    s.result successors = t.result successors := by
  cases h with
  | start root roots fresh expanded hroot =>
    simp [State.result, follow, visit, hroot]
  | passRoot root roots fresh expanded hroot =>
    simp [State.result, follow, visit, hroot]
  | leave v roots fresh expanded outer => simp [State.result, follow]
  | enter v w ws roots fresh expanded outer hpath hw =>
    simp only [State.result]
    rw [follow, if_neg hpath, if_pos hw]
  | pass v w ws roots fresh expanded outer hpath hw =>
    simp only [State.result]
    rw [follow, if_neg hpath, if_neg hw]

/-- Where a search ends, its result is there. -/
theorem Ends.result_eq {s : State V} {p : Progress V} (h : Ends s p) : s.result successors = p := by
  cases h with
  | done fresh expanded => simp [State.result, follow]
  | closed v w ws roots fresh expanded outer hpath =>
    simp only [State.result]
    rw [follow, if_pos hpath]
    exact foldl_visit_of_found (by simp) roots

/-! ## Whole searches -/

theorem Steps.perm {n : Nat} {s t : State V} (h : Steps successors n s t) :
    (t.fresh ++ t.expanded).Perm (s.fresh ++ s.expanded) := by
  induction h with
  | refl s => exact List.Perm.refl _
  | head first _ ih => exact ih.trans first.perm

/-- The steps taken are units of work used up. -/
theorem Steps.work_eq {n : Nat} {s t : State V} (h : Steps successors n s t) :
    s.work successors = t.work successors + n := by
  induction h with
  | refl s => rfl
  | head first _ ih =>
    have := first.work_eq
    omega

/-- A search under way ends. -/
theorem exists_steps_ends (successors : V → List V) (s : State V) :
    ∃ n t, Steps successors n s t ∧ Ends t (s.result successors) := by
  -- The induction is on the work, of which each step uses up one unit.
  induction hwork : s.work successors using Nat.strongRecOn generalizing s with
  | ind work ih =>
    rcases exists_step_or_ends successors s with ⟨t, hstep⟩ | ⟨p, hends⟩
    · have hless := hstep.work_eq
      obtain ⟨n, u, hsteps, hends⟩ := ih (t.work successors) (by omega) t rfl
      exact ⟨n + 1, u, .head hstep hsteps, hstep.result_eq ▸ hends⟩
    · exact ⟨0, s, .refl s, hends.result_eq ▸ hends⟩

theorem result_start (successors : V → List V) (vertices : List V) :
    (State.start vertices).result successors = run successors vertices := by
  simp [State.start, State.result, follow, run]

/-- At no point of a search has a vertex been expanded twice. -/
theorem Steps.nodup_expanded {n : Nat} {vertices : List V} {s : State V}
    (h : Steps successors n (.start vertices) s) : s.expanded.Nodup := by
  have hperm : (s.fresh ++ s.expanded).Perm vertices.eraseDups := by
    simpa [State.start] using h.perm
  have hnodup := hperm.nodup_iff.2 (nodup_eraseDups vertices)
  exact (List.nodup_append.1 hnodup).2.1

/-- The reserve of distinct vertices: a unit for each of them and each edge out of one. -/
theorem freshWork_le {β : Type} (source : β → V) {vertices : List V} (hdistinct : vertices.Nodup)
    (edges : List β)
    (hdegree : ∀ v ∈ vertices, (successors v).length ≤ edges.countP (source · == v)) :
    freshWork successors vertices ≤ vertices.length + edges.length := by
  -- The induction leaves out the edges of the vertices it has passed.
  induction vertices generalizing edges with
  | nil => simp [freshWork]
  | cons v rest ih =>
    rw [List.nodup_cons] at hdistinct
    have hrest : ∀ u ∈ rest,
        (successors u).length ≤ (edges.filter (source · != v)).countP (source · == u) := by
      intro u hu
      have hne : u ≠ v := fun heq => hdistinct.1 (heq ▸ hu)
      refine Nat.le_trans (hdegree u (List.mem_cons_of_mem _ hu)) (Nat.le_of_eq ?_)
      rw [List.countP_filter]
      refine List.countP_congr fun edge _ => ?_
      simp only [Bool.and_eq_true, beq_iff_eq, bne_iff_ne]
      exact ⟨fun h => ⟨h, h ▸ hne⟩, And.left⟩
    have hcount : edges.length =
        edges.countP (source · == v) + (edges.filter (source · != v)).length := by
      rw [List.length_eq_countP_add_countP (source · == v), ← List.countP_eq_length_filter]
      exact congrArg _ (List.countP_congr fun edge _ => by simp)
    have hv := hdegree v List.mem_cons_self
    have := ih hdistinct.2 _ hrest
    simp only [freshWork, List.length_cons]
    omega

end StepGraph.CycleSearch
