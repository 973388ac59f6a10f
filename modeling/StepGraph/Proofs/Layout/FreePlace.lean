import Mathlib.Algebra.Order.BigOperators.Group.Finset
import Mathlib.Data.Finset.Max
import Mathlib.Data.Nat.Cast.Order.Ring
import Mathlib.Order.Interval.Finset.Nat
import StepGraph.Proofs.Editing.Outcome
import StepGraph.Proofs.Layout.Grid

/-!
# Free places

The search for a free place tries one place after the other, in equal steps, and takes the first at
which no box is in the way; where all tries fail it stays at the place behind the last of them,
which it does not look at.  Each step moves a place down by 40 and a box is in the way over a height
of less than 280, so a box spoils seven tries at most, and fourteen boxes cannot spoil a hundred.

There are four groups.

* The search, for every type of coordinates: `exists_moveUntilFree_eq`.
* Steps with exact coordinates.
* Counting.  `card_blocking_le` is about one box, and `exists_lt_isBlocked_eq_false` about all.
* The edits that look for a place.  `isFirstFree_freePlace` puts it all together.
-/

namespace StepGraph

namespace Layout

/-! ## The search -/

section Search

variable {α : Type} [Coordinate α] {existing : List (Point α)} {direction : Direction}

/-- The number of steps of a search: at every place before a box is in the way, and at the place
there is none, unless all tries have failed. -/
structure IsFirstFree (existing : List (Point α)) (direction : Direction) (desired : Point α)
    (tries steps : Nat) : Prop where
  le : steps ≤ tries
  blocked : ∀ n < steps, isBlocked existing (direction.step^[n] desired) = true
  free : steps < tries → isBlocked existing (direction.step^[steps] desired) = false

/-- The search moves to the first free place. -/
theorem exists_moveUntilFree_eq (existing : List (Point α)) (direction : Direction) (tries : Nat)
    (desired : Point α) :
    ∃ steps, IsFirstFree existing direction desired tries steps ∧
      moveUntilFree existing direction tries desired = direction.step^[steps] desired := by
  induction tries generalizing desired with
  | zero => exact ⟨0, ⟨le_rfl, by simp, by simp⟩, rfl⟩
  | succ tries ih =>
    rw [moveUntilFree]
    split
    · rename_i hblocked
      obtain ⟨steps, hsteps, hplace⟩ := ih (direction.step desired)
      refine ⟨steps + 1, ⟨Nat.succ_le_succ hsteps.le, fun n hn => ?_, fun hlt => ?_⟩, hplace⟩
      · cases n with
        | zero => exact hblocked
        | succ n => exact hsteps.blocked n (Nat.lt_of_succ_lt_succ hn)
      · exact hsteps.free (Nat.lt_of_succ_lt_succ hlt)
    · rename_i hfree
      exact ⟨0, ⟨Nat.zero_le _, by simp, fun _ => by simpa using hfree⟩, rfl⟩

/-- Where a try finds a free place, the search stops there or before. -/
theorem IsFirstFree.le_of_free {desired : Point α} {tries steps n : Nat}
    (h : IsFirstFree existing direction desired tries steps)
    (hfree : isBlocked existing (direction.step^[n] desired) = false) : steps ≤ n := by
  by_contra hlt
  rw [h.blocked n (Nat.lt_of_not_le hlt)] at hfree
  cases hfree

/-- No box is in the way at a free place. -/
theorem isBlocked_eq_false_iff {p : Point α} :
    isBlocked existing p = false ↔ ∀ q ∈ existing, overlaps p q (units nodeMargin) = false := by
  simp [isBlocked]

end Search

/-! ## Steps with exact coordinates -/

/-- Every step goes down by the same distance. -/
theorem y_iterate_step (direction : Direction) (n : Nat) (p : Point Rat) :
    (direction.step^[n] p).y = p.y + n * 40 := by
  induction n generalizing p with
  | zero => simp
  | succ n ih =>
    have hstep : (direction.step p).y = p.y + 40 := by cases direction <;> rfl
    rw [Function.iterate_succ_apply, ih, hstep]
    push_cast
    linarith

/-- A step, along each axis. -/
theorem step_eq_offset (direction : Direction) (p : Point Rat) :
    ∃ across : Int,
      direction.step p =
        p.offset (across * units placementStep) ((1 : Int) * units placementStep) := by
  cases direction with
  | down => exact ⟨0, by simp [Direction.step]⟩
  | diagonal => exact ⟨1, by simp [Direction.step]⟩

/-- Steps stay on the grid. -/
theorem OnGrid.iterate_step {p : Point Rat} (h : OnGrid (units gridSize) p) (direction : Direction)
    (n : Nat) : OnGrid (units gridSize) (direction.step^[n] p) := by
  induction n generalizing p with
  | zero => exact h
  | succ n ih =>
    obtain ⟨across, hstep⟩ := step_eq_offset direction p
    rw [Function.iterate_succ_apply, hstep]
    exact ih (h.offset across 1)

/-! ## Counting -/

/-- Numbers that are less than a distance apart are no more than the distance. -/
theorem card_le_of_forall_lt_add {numbers : Finset Nat} {distance : Nat}
    (h : ∀ m ∈ numbers, ∀ n ∈ numbers, n < m + distance) : numbers.card ≤ distance := by
  rcases numbers.eq_empty_or_nonempty with rfl | hne
  · simp
  · have hsub : numbers ⊆ Finset.Ico (numbers.min' hne) (numbers.min' hne + distance) := by
      intro n hn
      exact Finset.mem_Ico.2 ⟨numbers.min'_le n hn, h _ (numbers.min'_mem hne) n hn⟩
    simpa using Finset.card_le_card hsub

/-- A box is in the way at seven tries at most. -/
theorem card_blocking_le (direction : Direction) (desired q : Point Rat) (tries : Nat) :
    ((Finset.range tries).filter fun n =>
      overlaps (direction.step^[n] desired) q (units nodeMargin) = true).card ≤ 7 := by
  refine card_le_of_forall_lt_add fun m hm n hn => ?_
  have hm := (overlaps_rat.1 (Finset.mem_filter.1 hm).2).2.2
  have hn := (overlaps_rat.1 (Finset.mem_filter.1 hn).2).2.1
  -- One try is below the upper edge of the box with its clearance, the other above the lower one.
  simp only [y_iterate_step, units_rat, nodeMargin, gridSize] at hm hn
  have hlt : (n : Rat) < m + 7 := by
    push_cast at hm hn
    linarith
  exact_mod_cast hlt

/-- Where there are too few boxes to spoil all tries, a try finds a free place. -/
theorem exists_lt_isBlocked_eq_false {existing : List (Point Rat)} {tries : Nat}
    (h : existing.length * 7 < tries) (direction : Direction) (desired : Point Rat) :
    ∃ n < tries, isBlocked existing (direction.step^[n] desired) = false := by
  by_contra hall
  have hcover : Finset.range tries ⊆ existing.toFinset.biUnion fun q =>
      (Finset.range tries).filter fun n =>
        overlaps (direction.step^[n] desired) q (units nodeMargin) = true := by
    intro n hn
    have hblocked : isBlocked existing (direction.step^[n] desired) = true := by
      by_contra hfree
      exact hall ⟨n, Finset.mem_range.1 hn, by simpa using hfree⟩
    obtain ⟨q, hq, hoverlaps⟩ := List.any_eq_true.1 hblocked
    exact Finset.mem_biUnion.2
      ⟨q, List.mem_toFinset.2 hq, Finset.mem_filter.2 ⟨hn, hoverlaps⟩⟩
  have hcard := (Finset.card_le_card hcover).trans (Finset.card_biUnion_le_card_mul _ _ 7
    fun q _ => card_blocking_le direction desired q tries)
  have hlength := existing.toFinset_card_le
  rw [Finset.card_range] at hcard
  omega

/-- Fifteen boxes can spoil all hundred tries, and the place behind the last one too. -/
example :
    let existing : List (Point Rat) := (List.range 15).map fun i => ⟨0, units (120 + 280 * i)⟩
    isBlocked existing (freePlace existing .down ⟨0, 0⟩) = true := by
  decide +kernel

end Layout

/-! ## The edits that look for a place -/

namespace Graph

open Layout

/-- Whether a box at a place keeps clear of all nodes. -/
def IsClear (g : Graph Rat) (place : Point Rat) : Prop :=
  ∀ node ∈ g.nodes, overlaps place node.position (units nodeMargin) = false ∧
    overlaps node.position place (units nodeMargin) = false

theorem isClear_of_isBlocked_eq_false {g : Graph Rat} {place : Point Rat}
    (h : isBlocked g.positions place = false) : g.IsClear place := by
  intro node hnode
  have hfree := isBlocked_eq_false_iff.1 h node.position (List.mem_map_of_mem hnode)
  exact ⟨hfree, overlaps_comm place node.position _ ▸ hfree⟩

/-- The search takes the first free place, and among few boxes there is one. -/
theorem exists_freePlace_eq (existing : List (Point Rat)) (direction : Direction)
    (desired : Point Rat) :
    ∃ steps, IsFirstFree existing direction desired placementTries steps ∧
      freePlace existing direction desired = direction.step^[steps] desired ∧
      (existing.length ≤ 14 → steps < placementTries) := by
  obtain ⟨steps, hsteps, hplace⟩ :=
    exists_moveUntilFree_eq existing direction placementTries desired
  refine ⟨steps, hsteps, hplace, fun hlength => ?_⟩
  have hfew : existing.length * 7 < placementTries := by
    rw [placementTries]
    omega
  obtain ⟨n, hn, hfree⟩ := exists_lt_isBlocked_eq_false hfew direction desired
  exact (hsteps.le_of_free hfree).trans_lt hn

/-- Among few nodes the search finds a place that is clear of them. -/
theorem isClear_freePlace {g : Graph Rat} (h : g.nodes.length ≤ 14) (direction : Direction)
    (desired : Point Rat) : g.IsClear (freePlace g.positions direction desired) := by
  obtain ⟨steps, hsteps, hplace, hlt⟩ := exists_freePlace_eq g.positions direction desired
  rw [hplace]
  refine isClear_of_isBlocked_eq_false (hsteps.free (hlt ?_))
  rwa [positions, List.length_map]

/-- The first node has nothing to keep clear of, and every other one searches. -/
theorem isClear_defaultPlace {g : Graph Rat} (h : g.nodes.length ≤ 14)
    (viewCentre : Option (Point Rat)) : g.IsClear (defaultPlace g.positions viewCentre) := by
  rw [defaultPlace]
  split
  · rename_i hempty
    have hnil : g.nodes = [] := by simpa [positions] using hempty
    simp [IsClear, hnil]
  · exact isClear_freePlace h _ _

/-- The search begins on the grid and stays there. -/
theorem onGrid_defaultPlace {existing : List (Point Rat)} (h : existing ≠ [])
    (viewCentre : Option (Point Rat)) :
    OnGrid (units gridSize) (defaultPlace existing viewCentre) := by
  rw [defaultPlace, if_neg (mt List.isEmpty_iff.1 h)]
  obtain ⟨steps, -, hplace, -⟩ := exists_freePlace_eq existing .diagonal
    (snap ((viewCentre.getD firstPlace).offset (-units (nodeWidth / 2)) (-units (nodeHeight / 2))))
  rw [hplace]
  exact (onGrid_snap _).iterate_step .diagonal steps

/-- The search takes the first free place, and among at most fourteen boxes there is one.  So a node
added without a drop point and a copy of a node keep clear of at most fourteen nodes, and a node
added without a drop point to a graph with nodes is on the grid. -/
theorem isFirstFree_freePlace :
    (∀ (existing : List (Point Rat)) (direction : Direction) (desired : Point Rat),
      ∃ steps, IsFirstFree existing direction desired placementTries steps ∧
        freePlace existing direction desired = direction.step^[steps] desired ∧
        (existing.length ≤ 14 → steps < placementTries)) ∧
      ∀ (g : Graph Rat) (newId newStepId : String),
        (∀ (kind : NodeKind) (viewCentre : Option (Point Rat)), ∃ place,
          g.addNodeAtDefault newId newStepId kind viewCentre =
            (.fresh newId newStepId kind place,
              g.pushNode (.fresh newId newStepId kind place)) ∧
          (g.nodes.length ≤ 14 → g.IsClear place) ∧
          (g.nodes ≠ [] → OnGrid (units gridSize) place)) ∧
        ∀ (id : String) (node : Node Rat), g.node? id = some node → ∃ place,
          g.duplicateNode newId newStepId id =
            .ok (copyOf node newId newStepId place,
              g.pushNode (copyOf node newId newStepId place)) ∧
          (g.nodes.length ≤ 14 → g.IsClear place) := by
  refine ⟨exists_freePlace_eq, fun g newId newStepId => ⟨fun kind viewCentre => ?_,
    fun id node hnode => ?_⟩⟩
  · refine ⟨_, rfl, fun hlength => isClear_defaultPlace hlength viewCentre, fun hnodes => ?_⟩
    exact onGrid_defaultPlace (by simpa [positions] using hnodes) viewCentre
  · refine ⟨freePlace g.positions .diagonal
      (node.position.offset (units duplicateOffset) (units duplicateOffset)), ?_,
      fun hlength => isClear_freePlace hlength _ _⟩
    rw [duplicateNode, getNode_eq_ok.2 hnode]
    rfl

end Graph

end StepGraph
