import Mathlib.Data.Rat.Floor
import Mathlib.Tactic.Linarith
import Mathlib.Tactic.Ring
import StepGraph.Layout.Place

/-!
# The grid and the overlap of boxes, exactly

With rational coordinates the layout makes no rounding errors.  `Layout.OnGrid` says that both
coordinates of a point are whole multiples of a cell size.

There are three groups.

* Rounding.
* The grid.  `onGrid_snapTo` says that snapping leads onto the grid, `snapTo_eq_self` that it leaves
  the points of the grid where they are, and `OnGrid.offset` that placement steps stay on the grid.
* Overlaps.  `overlaps_rat` gives the test as inequalities between rationals, and `overlaps_comm`
  says that the order of the boxes does not matter.
-/

namespace StepGraph

/-! ## Rounding -/

/-- A whole number is the one nearest to itself. -/
theorem roundRat_intCast (z : Int) : roundRat z = z := by
  rw [roundRat]
  split
  · refine le_antisymm (Int.le_of_lt_add_one (Rat.floor_lt_iff.2 ?_)) (Rat.le_floor_iff.2 ?_)
    · push_cast
      linarith
    · linarith
  · refine le_antisymm (Rat.ceil_le_iff.2 ?_) (Int.le_of_sub_one_lt (Rat.lt_ceil_iff.2 ?_))
    · linarith
    · push_cast
      linarith

namespace Layout

@[simp] theorem units_rat (n : Nat) : (units n : Rat) = n := rfl

/-! ## The grid -/

/-- Whether both coordinates are whole multiples of a cell size. -/
def OnGrid (cell : Rat) (p : Point Rat) : Prop :=
  (∃ k : Int, p.x = k * cell) ∧ ∃ k : Int, p.y = k * cell

theorem snapTo_rat {cell : Rat} (hcell : 0 < cell) (p : Point Rat) :
    snapTo cell p = ⟨roundRat (p.x / cell) * cell, roundRat (p.y / cell) * cell⟩ :=
  if_neg (not_le.2 hcell)

/-- Snapping leads onto the grid. -/
theorem onGrid_snapTo {cell : Rat} (hcell : 0 < cell) (p : Point Rat) :
    OnGrid cell (snapTo cell p) := by
  rw [snapTo_rat hcell]
  exact ⟨⟨_, rfl⟩, _, rfl⟩

/-- Snapping leaves the points of the grid where they are. -/
theorem snapTo_eq_self {cell : Rat} (hcell : 0 < cell) {p : Point Rat} (h : OnGrid cell p) :
    snapTo cell p = p := by
  obtain ⟨⟨k, hx⟩, l, hy⟩ := h
  have hround : ∀ k : Int, (roundRat (k * cell / cell) : Rat) = k := by
    intro k
    rw [mul_div_cancel_right₀ _ hcell.ne', roundRat_intCast]
  rw [snapTo_rat hcell, hx, hy, hround, hround, ← hx, ← hy]

/-- The cells of the grid have a size. -/
theorem gridSize_pos : (0 : Rat) < units gridSize := by
  rw [units_rat, gridSize]
  norm_num

theorem onGrid_snap (p : Point Rat) : OnGrid (units gridSize) (snap p) :=
  onGrid_snapTo gridSize_pos p

theorem snap_eq_self {p : Point Rat} (h : OnGrid (units gridSize) p) : snap p = p :=
  snapTo_eq_self gridSize_pos h

/-- Placement steps, forth and back, lead from the grid onto the grid: a step is two cells long. -/
theorem OnGrid.offset {p : Point Rat} (h : OnGrid (units gridSize) p) (across down : Int) :
    OnGrid (units gridSize)
      (p.offset (across * units placementStep) (down * units placementStep)) := by
  obtain ⟨⟨k, hx⟩, l, hy⟩ := h
  have hmove : ∀ m n : Int, (m * units gridSize + n * units placementStep : Rat) =
      ((m + 2 * n : Int) : Rat) * units gridSize := by
    intro m n
    simp only [units_rat, placementStep]
    push_cast
    ring
  exact ⟨⟨k + 2 * across, by rw [← hmove, ← hx]; rfl⟩, l + 2 * down, by rw [← hmove, ← hy]; rfl⟩

/-! ## Overlaps -/

/-- Boxes overlap when they are too close along both axes. -/
theorem overlaps_rat {a b : Point Rat} {margin : Rat} :
    overlaps a b margin = true ↔
      (a.x < b.x + 280 + margin ∧ b.x < a.x + 280 + margin) ∧
        a.y < b.y + 120 + margin ∧ b.y < a.y + 120 + margin := by
  simp only [overlaps, Bool.and_eq_true, decide_eq_true_eq, and_assoc]
  rfl

/-- Which box comes first does not matter. -/
theorem overlaps_comm {α : Type} [Coordinate α] (a b : Point α) (margin : α) :
    overlaps a b margin = overlaps b a margin := by
  simp only [overlaps, Bool.and_assoc]
  rw [Bool.and_left_comm, Bool.and_comm (decide (a.y < _))]

end Layout

end StepGraph
