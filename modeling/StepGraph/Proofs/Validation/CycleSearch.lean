import Mathlib.Data.List.Chain
import Mathlib.Data.List.Nodup
import Mathlib.Logic.Relation
import StepGraph.Proofs.List
import StepGraph.Validation.CycleSearch

/-!
# The cycle search finds a cycle exactly when there is one

`CycleSearch.find?` looks for a vertex whose successor lies on the path being followed.  This module
relates it to `OnCycle`, which says that a walk along successors leads from a vertex back to itself.

There are four groups.

* Vertices on cycles, and what lies ahead of a vertex.
* A vertex that is found is on a cycle.  `IsTrail` says that the vertices of a path follow each
  other, so that the innermost one is reached from all others.
* A search that finds nothing leaves nothing out.  `Sound` is the invariant: a vertex that has been
  expanded and is off the path is done, which means that its successors are done and no cycle goes
  through it.  `Sound.drop`, `Sound.push`, `Sound.skip` and `Sound.pop` are the steps of
  `CycleSearch.follow`.
* The result.  `onCycle_of_find?_eq_some` and `find?_eq_none_iff`.
-/

namespace StepGraph.CycleSearch

open Relation (TransGen ReflTransGen)

variable {V : Type} {successors : V → List V}

/-! ## Vertices on cycles -/

/-- A walk of at least one step leads from the vertex back to itself. -/
def OnCycle (successors : V → List V) (v : V) : Prop :=
  TransGen (fun a b => b ∈ successors a) v v

/-- A set that holds the successors of its members holds all that is ahead of them. -/
theorem mem_of_transGen {done : V → Prop} (hdone : ∀ a, done a → ∀ b ∈ successors a, done b)
    {a b : V} (ha : done a) (h : TransGen (fun a b => b ∈ successors a) a b) : done b := by
  induction h with
  | single hab => exact hdone _ ha _ hab
  | tail _ hbc ih => exact hdone _ ih _ hbc

/-- A vertex outside such a set whose successors are all inside is on no cycle. -/
theorem not_onCycle_of_successors {done : V → Prop}
    (hdone : ∀ a, done a → ∀ b ∈ successors a, done b) {v : V} (hv : ¬done v)
    (hsuccessors : ∀ w ∈ successors v, done w) : ¬OnCycle successors v := by
  intro hcycle
  obtain ⟨w, hw, hback⟩ := TransGen.head'_iff.1 hcycle
  rcases Relation.reflTransGen_iff_eq_or_transGen.1 hback with heq | hback
  · exact hv (heq ▸ hsuccessors w hw)
  · exact hv (mem_of_transGen hdone (hsuccessors w hw) hback)

/-! ## A vertex that is found is on a cycle -/

/-- The vertices of a path, the innermost first. -/
def pathVertices (path : List (Frame V)) : List V := path.map (·.vertex)

@[simp] theorem pathVertices_nil : pathVertices ([] : List (Frame V)) = [] := rfl

@[simp] theorem pathVertices_cons (frame : Frame V) (outer : List (Frame V)) :
    pathVertices (frame :: outer) = frame.vertex :: pathVertices outer := rfl

/-- Each vertex of the path is a successor of the next outer one, and what is pending in a frame are
successors of its vertex. -/
structure IsTrail (successors : V → List V) (path : List (Frame V)) : Prop where
  chain : (pathVertices path).IsChain fun inner outer => inner ∈ successors outer
  pending : ∀ frame ∈ path, ∀ w ∈ frame.pending, w ∈ successors frame.vertex

/-- The innermost vertex of a chain is reached from all others. -/
theorem transGen_of_isChain {v w : V} {outer : List V}
    (h : (v :: outer).IsChain fun inner outer => inner ∈ successors outer) (hw : w ∈ outer) :
    TransGen (fun a b => b ∈ successors a) w v := by
  induction outer generalizing v with
  | nil => simp at hw
  | cons u rest ih =>
    rw [List.isChain_cons_cons] at h
    rcases List.mem_cons.1 hw with rfl | hw
    · exact TransGen.single h.1
    · exact TransGen.tail (ih h.2 hw) h.1

/-- A path stays a trail without its innermost frame. -/
theorem IsTrail.tail {frame : Frame V} {outer : List (Frame V)}
    (h : IsTrail successors (frame :: outer)) : IsTrail successors outer where
  chain := h.chain.tail
  pending := fun f hf => h.pending f (List.mem_cons_of_mem _ hf)

/-- A path stays a trail when a successor is no longer pending. -/
theorem IsTrail.drop {v w : V} {ws : List V} {outer : List (Frame V)}
    (h : IsTrail successors (⟨v, w :: ws⟩ :: outer)) : IsTrail successors (⟨v, ws⟩ :: outer) where
  chain := h.chain
  pending := by
    intro f hf u hu
    rcases List.mem_cons.1 hf with rfl | hf
    · exact h.pending ⟨v, w :: ws⟩ List.mem_cons_self u (List.mem_cons_of_mem _ hu)
    · exact h.pending f (List.mem_cons_of_mem _ hf) u hu

/-- A pending successor may be put on the path. -/
theorem IsTrail.push {v w : V} {ws : List V} {outer : List (Frame V)}
    (h : IsTrail successors (⟨v, w :: ws⟩ :: outer)) :
    IsTrail successors (⟨w, successors w⟩ :: ⟨v, ws⟩ :: outer) where
  chain := by
    rw [pathVertices_cons, pathVertices_cons, List.isChain_cons_cons]
    exact ⟨h.pending ⟨v, w :: ws⟩ List.mem_cons_self w List.mem_cons_self, h.chain⟩
  pending := by
    intro f hf u hu
    rcases List.mem_cons.1 hf with rfl | hf
    · exact hu
    · exact h.drop.pending f hf u hu

/-- The path that is started at a root. -/
theorem IsTrail.start (root : V) : IsTrail successors [⟨root, successors root⟩] where
  chain := List.isChain_singleton _
  pending := by
    intro f hf u hu
    rw [List.mem_singleton] at hf
    subst hf
    exact hu

variable [DecidableEq V]

/-- What is found by going on from a trail is on a cycle. -/
theorem onCycle_of_follow {fresh expanded : List V} {path : List (Frame V)} {v : V}
    (htrail : IsTrail successors path)
    (h : (follow successors fresh expanded path).found = some v) : OnCycle successors v := by
  fun_induction follow successors fresh expanded path with
  | case1 => simp at h
  | case2 fresh expanded u outer ih => exact ih htrail.tail h
  | case3 fresh expanded u w ws outer hw =>
    obtain rfl : u = v := by simpa using h
    have hstep : w ∈ successors u :=
      htrail.pending ⟨u, w :: ws⟩ List.mem_cons_self w List.mem_cons_self
    rcases hw with rfl | hw
    · exact TransGen.single hstep
    · exact TransGen.head hstep (transGen_of_isChain htrail.chain hw)
  | case4 fresh expanded u w ws outer _ _ ih => exact ih htrail.push h
  | case5 fresh expanded u w ws outer _ _ ih => exact ih htrail.drop h

/-! ## A search that finds nothing leaves nothing out -/

/-- A vertex is done when it has been expanded and the path has left it. -/
def IsDone (expanded : List V) (path : List (Frame V)) (v : V) : Prop :=
  v ∈ expanded ∧ v ∉ pathVertices path

/-- Every successor of a vertex on the path is still pending, or done, or the vertex that comes next
on the path; `next` is the one that comes after the innermost. -/
def Passed (successors : V → List V) (done : V → Prop) : Option V → List (Frame V) → Prop
  | _, [] => True
  | next, frame :: outer =>
    (∀ w ∈ successors frame.vertex, w ∈ frame.pending ∨ done w ∨ next = some w) ∧
      Passed successors done (some frame.vertex) outer

omit [DecidableEq V] in
/-- More may be done, and then the vertex that comes next may be among it. -/
theorem Passed.mono {done done' : V → Prop} {next next' : Option V} {path : List (Frame V)}
    (h : Passed successors done next path) (hdone : ∀ w, done w → done' w)
    (hnext : ∀ w, next = some w → done' w ∨ next' = some w) :
    Passed successors done' next' path := by
  induction path generalizing next next' with
  | nil => trivial
  | cons frame outer ih =>
    refine ⟨fun w hw => ?_, ih h.2 fun w hw => Or.inr hw⟩
    rcases h.1 w hw with hpending | hw' | hw'
    · exact Or.inl hpending
    · exact Or.inr (Or.inl (hdone w hw'))
    · exact Or.inr (hnext w hw')

/-- The invariant of a search among `vertices`.  `next` is a vertex that has been taken from the
pending ones of the innermost frame and is not dealt with yet. -/
structure Sound (successors : V → List V) (vertices fresh expanded : List V) (next : Option V)
    (path : List (Frame V)) : Prop where
  fresh_nodup : fresh.Nodup
  fresh_disjoint : ∀ v ∈ fresh, v ∉ expanded
  cover : ∀ v, v ∈ vertices ↔ v ∈ fresh ∨ v ∈ expanded
  path_nodup : (pathVertices path).Nodup
  path_expanded : ∀ v ∈ pathVertices path, v ∈ expanded
  passed : Passed successors (IsDone expanded path) next path
  done_closed : ∀ v, IsDone expanded path v → ∀ w ∈ successors v, IsDone expanded path w
  done_acyclic : ∀ v, IsDone expanded path v → ¬OnCycle successors v

namespace Sound

variable {vertices fresh expanded : List V} {next : Option V} {outer path : List (Frame V)}
  {v w : V} {ws : List V}

omit [DecidableEq V] in
/-- A pending successor is taken. -/
theorem drop (h : Sound successors vertices fresh expanded none (⟨v, w :: ws⟩ :: outer)) :
    Sound successors vertices fresh expanded (some w) (⟨v, ws⟩ :: outer) where
  fresh_nodup := h.fresh_nodup
  fresh_disjoint := h.fresh_disjoint
  cover := h.cover
  path_nodup := h.path_nodup
  path_expanded := h.path_expanded
  passed := by
    refine ⟨fun u hu => ?_, h.passed.2⟩
    rcases h.passed.1 u hu with hpending | hdone | hnext
    · rcases List.mem_cons.1 hpending with rfl | hpending
      · exact Or.inr (Or.inr rfl)
      · exact Or.inl hpending
    · exact Or.inr (Or.inl hdone)
    · simp at hnext
  done_closed := h.done_closed
  done_acyclic := h.done_acyclic

/-- The vertex taken is fresh and is put on the path.  It is not done before and not done after. -/
theorem push (h : Sound successors vertices fresh expanded (some w) path) (hw : w ∈ fresh) :
    Sound successors vertices (fresh.erase w) (w :: expanded) none
      (⟨w, successors w⟩ :: path) := by
  have hnew : w ∉ expanded := h.fresh_disjoint w hw
  have hdone : ∀ u, IsDone (w :: expanded) (⟨w, successors w⟩ :: path) u ↔
      IsDone expanded path u := by
    intro u
    simp only [IsDone, pathVertices_cons, List.mem_cons, not_or]
    constructor
    · intro hu
      obtain ⟨hu, hne, hpath⟩ := hu
      exact ⟨hu.resolve_left hne, hpath⟩
    · intro hu
      obtain ⟨hu, hpath⟩ := hu
      exact ⟨Or.inr hu, fun heq => hnew (heq ▸ hu), hpath⟩
  exact {
    fresh_nodup := h.fresh_nodup.erase w
    fresh_disjoint := by
      intro u hu hexpanded
      rw [h.fresh_nodup.mem_erase_iff] at hu
      rcases List.mem_cons.1 hexpanded with heq | hexpanded
      · exact hu.1 heq
      · exact h.fresh_disjoint u hu.2 hexpanded
    cover := by
      intro u
      rw [h.cover, h.fresh_nodup.mem_erase_iff, List.mem_cons]
      by_cases heq : u = w
      · subst heq
        simp [hw]
      · simp [heq]
    path_nodup := by
      rw [pathVertices_cons, List.nodup_cons]
      exact ⟨fun hpath => hnew (h.path_expanded w hpath), h.path_nodup⟩
    path_expanded := by
      intro u hu
      rcases List.mem_cons.1 hu with rfl | hu
      · exact List.mem_cons_self
      · exact List.mem_cons_of_mem _ (h.path_expanded u hu)
    passed := ⟨fun u hu => Or.inl hu,
      h.passed.mono (fun u hu => (hdone u).2 hu) fun u hu => Or.inr hu⟩
    done_closed := fun u hu x hx => (hdone x).2 (h.done_closed u ((hdone u).1 hu) x hx)
    done_acyclic := fun u hu => h.done_acyclic u ((hdone u).1 hu) }

omit [DecidableEq V] in
/-- The vertex taken is done already. -/
theorem skip (h : Sound successors vertices fresh expanded (some w) path) (hw : w ∉ fresh)
    (hvertex : w ∈ vertices) (hpath : w ∉ pathVertices path) :
    Sound successors vertices fresh expanded none path where
  fresh_nodup := h.fresh_nodup
  fresh_disjoint := h.fresh_disjoint
  cover := h.cover
  path_nodup := h.path_nodup
  path_expanded := h.path_expanded
  passed := by
    have hdone : IsDone expanded path w := ⟨((h.cover w).1 hvertex).resolve_left hw, hpath⟩
    refine h.passed.mono (fun _ hu => hu) fun u hu => Or.inl ?_
    obtain rfl : w = u := by simpa using hu
    exact hdone
  done_closed := h.done_closed
  done_acyclic := h.done_acyclic

/-- The innermost vertex has no pending successor left, so it is done too. -/
theorem pop (h : Sound successors vertices fresh expanded none (⟨v, []⟩ :: outer)) :
    Sound successors vertices fresh expanded none outer := by
  have hv : v ∉ pathVertices outer := (List.nodup_cons.1 h.path_nodup).1
  have hdone : ∀ u, IsDone expanded outer u ↔ u = v ∨ IsDone expanded (⟨v, []⟩ :: outer) u := by
    intro u
    simp only [IsDone, pathVertices_cons, List.mem_cons, not_or]
    constructor
    · intro hu
      obtain ⟨hu, hpath⟩ := hu
      by_cases heq : u = v
      · exact Or.inl heq
      · exact Or.inr ⟨hu, heq, hpath⟩
    · rintro (rfl | ⟨hu, _, hpath⟩)
      · exact ⟨h.path_expanded u List.mem_cons_self, hv⟩
      · exact ⟨hu, hpath⟩
  have hsuccessors : ∀ w ∈ successors v, IsDone expanded (⟨v, []⟩ :: outer) w := by
    intro w hw
    rcases h.passed.1 w hw with hpending | hw | hnext
    · simp at hpending
    · exact hw
    · simp at hnext
  exact {
    fresh_nodup := h.fresh_nodup
    fresh_disjoint := h.fresh_disjoint
    cover := h.cover
    path_nodup := (List.nodup_cons.1 h.path_nodup).2
    path_expanded := fun u hu => h.path_expanded u (List.mem_cons_of_mem _ hu)
    passed := by
      refine h.passed.2.mono (fun u hu => (hdone u).2 (Or.inr hu)) fun u hu => Or.inl ?_
      obtain rfl : v = u := by simpa using hu
      exact (hdone v).2 (Or.inl rfl)
    done_closed := by
      intro u hu w hw
      rcases (hdone u).1 hu with rfl | hu
      · exact (hdone w).2 (Or.inr (hsuccessors w hw))
      · exact (hdone w).2 (Or.inr (h.done_closed u hu w hw))
    done_acyclic := by
      intro u hu
      rcases (hdone u).1 hu with rfl | hu
      · exact not_onCycle_of_successors h.done_closed
          (fun hu => hu.2 List.mem_cons_self) hsuccessors
      · exact h.done_acyclic u hu }

/-- At the start every vertex is fresh. -/
theorem start (vertices : List V) :
    Sound successors vertices vertices.eraseDups [] none [] where
  fresh_nodup := nodup_eraseDups vertices
  fresh_disjoint := by simp
  cover := by simp
  path_nodup := List.nodup_nil
  path_expanded := by simp
  passed := trivial
  done_closed := by simp [IsDone]
  done_acyclic := by simp [IsDone]

/-- Going on from a trail without finding anything uses up the path. -/
theorem follow (hclosed : ∀ v ∈ vertices, ∀ w ∈ successors v, w ∈ vertices)
    (htrail : IsTrail successors path)
    (h : Sound successors vertices fresh expanded none path)
    (hfound : (follow successors fresh expanded path).found = none) :
    Sound successors vertices (CycleSearch.follow successors fresh expanded path).fresh
      (CycleSearch.follow successors fresh expanded path).expanded none [] := by
  have hpending : ∀ {fresh expanded : List V} {u w : V} {ws : List V} {outer : List (Frame V)},
      IsTrail successors (⟨u, w :: ws⟩ :: outer) →
      Sound successors vertices fresh expanded none (⟨u, w :: ws⟩ :: outer) → w ∈ vertices := by
    intro fresh expanded u w ws outer htrail h
    have hu : u ∈ vertices :=
      (h.cover u).2 (Or.inr (h.path_expanded u List.mem_cons_self))
    exact hclosed u hu w (htrail.pending ⟨u, w :: ws⟩ List.mem_cons_self w List.mem_cons_self)
  fun_induction CycleSearch.follow successors fresh expanded path with
  | case1 => exact h
  | case2 fresh expanded u outer ih => exact ih htrail.tail h.pop hfound
  | case3 => simp at hfound
  | case4 fresh expanded u w ws outer _ hw ih =>
    exact ih htrail.push (h.drop.push hw) hfound
  | case5 fresh expanded u w ws outer hpath hw ih =>
    have hpath : w ∉ pathVertices (⟨u, ws⟩ :: outer) := by
      rw [pathVertices_cons, List.mem_cons]
      exact hpath
    exact ih htrail.drop (h.drop.skip hw (hpending htrail h) hpath) hfound

end Sound

/-! ## The result -/

/-- What is found was on the path or fresh. -/
theorem mem_of_follow {fresh expanded : List V} {path : List (Frame V)} {v : V}
    (h : (follow successors fresh expanded path).found = some v) :
    v ∈ pathVertices path ∨ v ∈ fresh := by
  fun_induction follow successors fresh expanded path with
  | case1 => simp at h
  | case2 fresh expanded u outer ih => exact (ih h).imp_left (List.mem_cons_of_mem _)
  | case3 fresh expanded u w ws outer =>
    obtain rfl : u = v := by simpa using h
    exact Or.inl List.mem_cons_self
  | case4 fresh expanded u w ws outer _ hw ih =>
    rcases ih h with hv | hv
    · rcases List.mem_cons.1 hv with rfl | hv
      · exact Or.inr hw
      · exact Or.inl hv
    · exact Or.inr (List.mem_of_mem_erase hv)
  | case5 fresh expanded u w ws outer _ _ ih => exact ih h

/-- Nothing that has been expanded is forgotten. -/
theorem mem_expanded_follow {fresh expanded : List V} {path : List (Frame V)} {v : V}
    (hv : v ∈ expanded) : v ∈ (follow successors fresh expanded path).expanded := by
  fun_induction follow successors fresh expanded path with
  | case1 => exact hv
  | case2 _ _ _ _ ih => exact ih hv
  | case3 => exact hv
  | case4 _ _ _ _ _ _ _ _ ih => exact ih (List.mem_cons_of_mem _ hv)
  | case5 _ _ _ _ _ _ _ _ ih => exact ih hv

/-- What is known after paths have been started at the vertices of `roots`: a vertex that has been
found is on a cycle, and as long as none is, every root has been expanded. -/
structure Searched (successors : V → List V) (vertices roots : List V) (p : Progress V) : Prop where
  onCycle : ∀ v, p.found = some v → v ∈ vertices ∧ OnCycle successors v
  sound : p.found = none → Sound successors vertices p.fresh p.expanded none []
  expanded : p.found = none → ∀ v ∈ roots, v ∈ p.expanded

/-- A path started at one more vertex keeps what is known. -/
theorem Searched.visit {vertices roots : List V} {p : Progress V} {root : V}
    (hclosed : ∀ v ∈ vertices, ∀ w ∈ successors v, w ∈ vertices) (hroot : root ∈ vertices)
    (h : Searched successors vertices roots p) :
    Searched successors vertices (roots ++ [root]) (visit successors p root) := by
  rw [CycleSearch.visit]
  split
  · rename_i hstart
    have hnone : p.found = none := Option.isNone_iff_eq_none.1 hstart.1
    have hsound : Sound successors vertices p.fresh p.expanded (some root) [] :=
      { h.sound hnone with passed := trivial }
    refine ⟨fun v hv => ⟨?_, onCycle_of_follow (IsTrail.start root) hv⟩,
      (hsound.push hstart.2).follow hclosed (IsTrail.start root), ?_⟩
    · rcases mem_of_follow hv with hv | hv
      · obtain rfl : v = root := by simpa using hv
        exact hroot
      · exact (hsound.cover v).2 (Or.inl (List.mem_of_mem_erase hv))
    · intro _ v hv
      apply mem_expanded_follow
      rcases List.mem_append.1 hv with hv | hv
      · exact List.mem_cons_of_mem _ (h.expanded hnone v hv)
      · rw [List.mem_singleton.1 hv]
        exact List.mem_cons_self
  · rename_i hstay
    refine ⟨h.onCycle, h.sound, fun hnone v hv => ?_⟩
    rcases List.mem_append.1 hv with hv | hv
    · exact h.expanded hnone v hv
    · rw [List.mem_singleton.1 hv]
      have hfresh : root ∉ p.fresh := fun hfresh => hstay ⟨by simp [hnone], hfresh⟩
      exact (((h.sound hnone).cover root).1 hroot).resolve_left hfresh

/-- A whole search keeps it too. -/
theorem searched_run {vertices : List V}
    (hclosed : ∀ v ∈ vertices, ∀ w ∈ successors v, w ∈ vertices) :
    Searched successors vertices vertices (run successors vertices) := by
  suffices ∀ (rest roots : List V) (p : Progress V), (∀ v ∈ rest, v ∈ vertices) →
      Searched successors vertices roots p →
        Searched successors vertices (roots ++ rest) (rest.foldl (visit successors) p) from
    this vertices [] _ (fun _ hv => hv) ⟨by simp, fun _ => Sound.start vertices, by simp⟩
  intro rest
  induction rest with
  | nil => simp
  | cons root rest ih =>
    intro roots p hrest h
    have hvisit := h.visit hclosed (hrest root List.mem_cons_self)
    simpa using ih _ _ (fun v hv => hrest v (List.mem_cons_of_mem _ hv)) hvisit

/-- A vertex that is found is on a cycle. -/
theorem onCycle_of_find?_eq_some {vertices : List V}
    (hclosed : ∀ v ∈ vertices, ∀ w ∈ successors v, w ∈ vertices) {v : V}
    (h : find? successors vertices = some v) : v ∈ vertices ∧ OnCycle successors v :=
  (searched_run hclosed).onCycle v h

/-- Nothing is found exactly when no vertex is on a cycle. -/
theorem find?_eq_none_iff {vertices : List V}
    (hclosed : ∀ v ∈ vertices, ∀ w ∈ successors v, w ∈ vertices) :
    find? successors vertices = none ↔ ∀ v ∈ vertices, ¬OnCycle successors v := by
  constructor
  · intro hnone v hv
    have h := searched_run hclosed
    exact (h.sound hnone).done_acyclic v ⟨h.expanded hnone v hv, by simp⟩
  · intro hacyclic
    by_contra hsome
    obtain ⟨v, hv⟩ := Option.ne_none_iff_exists'.1 hsome
    obtain ⟨hvertex, hcycle⟩ := onCycle_of_find?_eq_some hclosed hv
    exact hacyclic v hvertex hcycle

end StepGraph.CycleSearch
