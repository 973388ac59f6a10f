import Mathlib.Tactic.Linarith
import StepGraph.Proofs.Editing.Origin
import StepGraph.Proofs.Layout.Arranged
import StepGraph.Proofs.Layout.FreePlace

/-!
# Snapping is rounding

With exact coordinates, snapping moves each coordinate to the nearest multiple of the cell size, and
away from zero where two are equally near.  `Layout.IsNearest` says this of one coordinate.  It
leaves no choice, and so the laws of snapping follow from it without another look at how numbers are
rounded.

There are three groups.

* The nearest multiple: that it is unique, and what follows from that.
* Snapping, with `isNearest_snapTo`.
* Edits.  `Graph.isOnGrid_run` says that a session keeps to the grid, and `snaps_onto_grid` puts it
  all together.
-/

namespace StepGraph

namespace Layout

/-! ## The nearest multiple -/

/-- The multiple of a cell size that a coordinate is rounded to. -/
structure IsNearest (cell x y : Rat) : Prop where
  multiple : ∃ k : Int, y = k * cell
  near : |y - x| ≤ cell / 2
  /-- An exact half goes away from zero. -/
  away : |y - x| = cell / 2 → |y| = |x| + cell / 2

section Nearest

variable {cell x x' y y' : Rat}

/-- On the other side of zero everything is the same. -/
theorem IsNearest.neg (h : IsNearest cell x y) : IsNearest cell (-x) (-y) := by
  obtain ⟨k, hk⟩ := h.multiple
  have hdistance : |-y - -x| = |y - x| := by
    rw [← abs_neg (y - x)]
    congr 1
    ring
  refine ⟨⟨-k, ?_⟩, hdistance ▸ h.near, fun hhalf => ?_⟩
  · rw [hk]
    push_cast
    ring
  · rw [abs_neg, abs_neg]
    exact h.away (hdistance ▸ hhalf)

/-- Different multiples are a cell apart at least. -/
theorem add_le_of_multiples (hcell : 0 < cell) {k l : Int} (h : (k * cell : Rat) < l * cell) :
    k * cell + cell ≤ l * cell := by
  have hlt : k + 1 ≤ l := by
    have hlt : (k : Rat) < l := lt_of_mul_lt_mul_right h hcell.le
    exact_mod_cast hlt
  calc (k * cell : Rat) + cell = ((k + 1 : Int) : Rat) * cell := by push_cast; ring
    _ ≤ l * cell := mul_le_mul_of_nonneg_right (by exact_mod_cast hlt) hcell.le

/-- Of the multiples that a coordinate may be rounded to, none is below another. -/
theorem IsNearest.le_other (hcell : 0 < cell) (h : IsNearest cell x y)
    (h' : IsNearest cell x y') : y' ≤ y := by
  by_contra hlt
  rw [not_le] at hlt
  obtain ⟨k, rfl⟩ := h.multiple
  obtain ⟨l, rfl⟩ := h'.multiple
  have hgap := add_le_of_multiples hcell hlt
  have hbelow := (abs_le.1 h.near).1
  have habove := (abs_le.1 h'.near).2
  -- Both are half a cell away, on either side, and so both would be away from zero.
  have hk : (k * cell : Rat) = x - cell / 2 := by linarith
  have hl : (l * cell : Rat) = x + cell / 2 := by linarith
  have hkAway := h.away (by rw [hk, abs_of_nonpos] <;> linarith)
  have hlAway := h'.away (by rw [hl, abs_of_nonneg] <;> linarith)
  have hnonpos : x ≤ 0 := by
    by_contra hpos
    rw [hk, abs_of_pos (not_le.1 hpos)] at hkAway
    rcases abs_choice (x - cell / 2) with hsign | hsign <;> linarith
  have hnonneg : 0 ≤ x := by
    by_contra hneg
    rw [hl, abs_of_neg (not_le.1 hneg)] at hlAway
    rcases abs_choice (x + cell / 2) with hsign | hsign <;> linarith
  obtain rfl : x = 0 := le_antisymm hnonpos hnonneg
  have hodd : ((2 * k + 1 : Int) : Rat) * cell = 0 := by
    push_cast
    linarith
  have hzero : (2 * k + 1 : Int) = 0 := by
    exact_mod_cast (mul_eq_zero.1 hodd).resolve_right hcell.ne'
  omega

/-- A coordinate is rounded in one way only. -/
theorem IsNearest.unique (hcell : 0 < cell) (h : IsNearest cell x y) (h' : IsNearest cell x y') :
    y = y' :=
  le_antisymm (h'.le_other hcell h) (h.le_other hcell h')

/-- Rounding keeps the order. -/
theorem IsNearest.mono (hcell : 0 < cell) (hx : x ≤ x') (h : IsNearest cell x y)
    (h' : IsNearest cell x' y') : y ≤ y' := by
  by_contra hlt
  rw [not_le] at hlt
  obtain ⟨k, rfl⟩ := h.multiple
  obtain ⟨l, rfl⟩ := h'.multiple
  have hgap := add_le_of_multiples hcell hlt
  have hbelow := (abs_le.1 h'.near).1
  have habove := (abs_le.1 h.near).2
  obtain rfl : x = x' := by linarith
  exact absurd hlt (not_lt_of_ge (h'.le_other hcell h))

end Nearest

/-! ## Snapping -/

/-- From zero upward, an exact half goes up. -/
theorem roundRat_bounds_of_nonneg {q : Rat} (h : 0 ≤ q) :
    (roundRat q : Rat) ≤ q + 1 / 2 ∧ q - 1 / 2 < roundRat q := by
  rw [roundRat, if_pos h]
  have habove : q + 1 / 2 < ((q + 1 / 2).floor + 1 : Int) :=
    Rat.floor_lt_iff.1 (Int.lt_add_one_of_le le_rfl)
  push_cast at habove
  exact ⟨Rat.le_floor_iff.1 le_rfl, by linarith⟩

/-- Below zero, an exact half goes down. -/
theorem roundRat_bounds_of_neg {q : Rat} (h : q < 0) :
    (roundRat q : Rat) < q + 1 / 2 ∧ q - 1 / 2 ≤ roundRat q := by
  rw [roundRat, if_neg (not_le.2 h)]
  have hbelow : (((q - 1 / 2).ceil - 1 : Int) : Rat) < q - 1 / 2 :=
    Rat.lt_ceil_iff.1 (Int.sub_one_lt_of_le le_rfl)
  push_cast at hbelow
  exact ⟨by linarith, Rat.ceil_le_iff.1 le_rfl⟩

/-- Rounding to a whole number gives the nearest one. -/
theorem isNearest_roundRat (q : Rat) : IsNearest 1 q (roundRat q) := by
  have hmultiple : ∃ k : Int, (roundRat q : Rat) = k * 1 := ⟨roundRat q, (mul_one _).symm⟩
  rcases le_or_gt 0 q with hq | hq
  · obtain ⟨habove, hbelow⟩ := roundRat_bounds_of_nonneg hq
    refine ⟨hmultiple, abs_le.2 ⟨by linarith, by linarith⟩, fun hhalf => ?_⟩
    have hup : (roundRat q : Rat) = q + 1 / 2 := by
      rcases abs_choice ((roundRat q : Rat) - q) with hsign | hsign <;> linarith
    rw [hup, abs_of_nonneg hq, abs_of_nonneg (by linarith)]
  · obtain ⟨habove, hbelow⟩ := roundRat_bounds_of_neg hq
    refine ⟨hmultiple, abs_le.2 ⟨by linarith, by linarith⟩, fun hhalf => ?_⟩
    have hdown : (roundRat q : Rat) = q - 1 / 2 := by
      rcases abs_choice ((roundRat q : Rat) - q) with hsign | hsign <;> linarith
    rw [hdown, abs_of_neg hq, abs_of_neg (by linarith)]
    ring

/-- What holds of whole numbers holds of the multiples of a cell size. -/
theorem IsNearest.scale {cell x y : Rat} (hcell : 0 < cell) (h : IsNearest 1 (x / cell) y) :
    IsNearest cell x (y * cell) := by
  obtain ⟨k, hk⟩ := h.multiple
  have hx : |x| = |x / cell| * cell := by
    rw [abs_div, abs_of_pos hcell, div_mul_cancel₀ _ hcell.ne']
  have hy : |y * cell| = |y| * cell := by
    rw [abs_mul, abs_of_pos hcell]
  have hdistance : |y * cell - x| = |y - x / cell| * cell := by
    rw [← abs_of_pos hcell, ← abs_mul, abs_of_pos hcell, sub_mul, div_mul_cancel₀ _ hcell.ne']
  refine ⟨⟨k, by rw [hk, mul_one]⟩, ?_, fun hhalf => ?_⟩
  · rw [hdistance]
    calc |y - x / cell| * cell ≤ 1 / 2 * cell := mul_le_mul_of_nonneg_right h.near hcell.le
      _ = cell / 2 := by ring
  · have haway := h.away (mul_right_cancel₀ hcell.ne' (by rw [← hdistance, hhalf]; ring))
    rw [hy, haway, hx]
    ring

/-- Snapping moves both coordinates to the nearest multiples of the cell size. -/
theorem isNearest_snapTo {cell : Rat} (hcell : 0 < cell) (p : Point Rat) :
    IsNearest cell p.x (snapTo cell p).x ∧ IsNearest cell p.y (snapTo cell p).y := by
  rw [snapTo_rat hcell]
  exact ⟨(isNearest_roundRat _).scale hcell, (isNearest_roundRat _).scale hcell⟩

/-- The laws of a function that snaps points. -/
structure IsSnapping (cell : Rat) (f : Point Rat → Point Rat) : Prop where
  nearest : ∀ p, IsNearest cell p.x (f p).x ∧ IsNearest cell p.y (f p).y
  idem : ∀ p, f (f p) = f p
  mono : ∀ p q, (p.x ≤ q.x → (f p).x ≤ (f q).x) ∧ (p.y ≤ q.y → (f p).y ≤ (f q).y)
  odd : ∀ p, f ⟨-p.x, -p.y⟩ = ⟨-(f p).x, -(f p).y⟩

theorem isSnapping_snapTo {cell : Rat} (hcell : 0 < cell) : IsSnapping cell (snapTo cell) where
  nearest := isNearest_snapTo hcell
  idem p := snapTo_eq_self hcell (onGrid_snapTo hcell p)
  mono p q := by
    obtain ⟨hpx, hpy⟩ := isNearest_snapTo hcell p
    obtain ⟨hqx, hqy⟩ := isNearest_snapTo hcell q
    exact ⟨fun hx => hpx.mono hcell hx hqx, fun hy => hpy.mono hcell hy hqy⟩
  odd p := by
    obtain ⟨hx, hy⟩ := isNearest_snapTo hcell p
    obtain ⟨hx', hy'⟩ := isNearest_snapTo hcell ⟨-p.x, -p.y⟩
    rw [← hx'.unique hcell hx.neg, ← hy'.unique hcell hy.neg]

end Layout

/-! ## Edits -/

namespace Graph

open Layout

/-- A place on the grid, which snapping leaves where it is. -/
def IsGridPlace (place : Point Rat) : Prop := OnGrid (units gridSize) place ∧ snap place = place

theorem isGridPlace_of_onGrid {place : Point Rat} (h : OnGrid (units gridSize) place) :
    IsGridPlace place := ⟨h, snap_eq_self h⟩

/-- All nodes are on the grid. -/
def IsOnGrid (g : Graph Rat) : Prop := ∀ place ∈ g.positions, IsGridPlace place

/-- Whether an edit looks at the grid for the node it makes: a node that is added without a drop
point goes to the middle of the view when it is the first one. -/
def keepsToGrid (g : Graph Rat) : Edit Rat → Bool
  | .addNodeAtDefault _ _ _ _ => !g.isEmpty
  | _ => true

section Places

variable {g g' : Graph Rat}

theorem isOnGrid_pushNode (hg : g.IsOnGrid) {node : Node Rat}
    (hnode : OnGrid (units gridSize) node.position) : (g.pushNode node).IsOnGrid := by
  intro place hplace
  rw [positions, pushNode, List.map_append, List.mem_append] at hplace
  cases hplace with
  | inl hplace => exact hg place hplace
  | inr hplace =>
    rw [List.map_singleton, List.mem_singleton] at hplace
    exact hplace ▸ isGridPlace_of_onGrid hnode

/-- A change of a node that does not move it. -/
theorem positions_updateNode (g : Graph Rat) (id : String) {f : Node Rat → Node Rat}
    (h : ∀ node, (f node).position = node.position) :
    (g.updateNode id f).positions = g.positions := map_updateFirst h g.nodes

theorem positions_noteTarget (g : Graph Rat) (id : String) (path? : Option Nat)
    (target : Option String) : (g.noteTarget id path? target).positions = g.positions := by
  rw [noteTarget.eq_def]
  split
  · exact positions_updateNode g id fun _ => rfl
  · rfl

theorem isGridPlace_of_mem_arrange {place : Point Rat} (h : place ∈ g.arrange.positions) :
    IsGridPlace place := by
  obtain ⟨node, hnode, rfl⟩ := List.mem_map.1 h
  exact g.isArranged_arrange.onGrid node hnode

/-- The search for a free place moves by steps. -/
theorem onGrid_freePlace {desired : Point Rat} (h : OnGrid (units gridSize) desired)
    (existing : List (Point Rat)) (direction : Direction) :
    OnGrid (units gridSize) (freePlace existing direction desired) := by
  obtain ⟨steps, -, hplace, -⟩ := exists_freePlace_eq existing direction desired
  rw [hplace]
  exact h.iterate_step direction steps

/-- A copy is wanted one step away from its original. -/
theorem onGrid_offset_duplicateOffset {place : Point Rat} (h : OnGrid (units gridSize) place) :
    OnGrid (units gridSize) (place.offset (units duplicateOffset) (units duplicateOffset)) := by
  have hstep : (units duplicateOffset : Rat) = (1 : Int) * units placementStep := by
    rw [Int.cast_one, one_mul]
    rfl
  rw [hstep]
  exact h.offset 1 1

/-- A successful edit keeps all nodes on the grid. -/
theorem IsOnGrid.edited {edit : Edit Rat} (hg : g.IsOnGrid) (hkeeps : g.keepsToGrid edit = true)
    (h : g.Edited edit g') : g'.IsOnGrid := by
  have hsame : g'.positions = g.positions → g'.IsOnGrid := by
    intro hplaces place hplace
    exact hg place (hplaces ▸ hplace)
  cases h with
  | addNode newId newStepId kind position => exact isOnGrid_pushNode hg (onGrid_snap position)
  | addNodeAtDefault newId newStepId kind viewCentre =>
    have hnodes : g.positions ≠ [] := by
      simpa [keepsToGrid, isEmpty, positions] using hkeeps
    exact isOnGrid_pushNode hg (onGrid_defaultPlace hnodes viewCentre)
  | duplicateNode newId newStepId id node hnode =>
    have hplace := hg node.position (List.mem_map_of_mem (mem_and_id_eq_of_node? hnode).1)
    apply isOnGrid_pushNode hg
    exact onGrid_freePlace (onGrid_offset_duplicateOffset hplace.1) g.positions .diagonal
  | removeNode id node hnode =>
    intro place hplace
    obtain ⟨other, hother, rfl⟩ := List.mem_map.1 hplace
    obtain ⟨old, hold, rfl⟩ := List.mem_map.1 hother
    exact hg old.position (List.mem_map_of_mem (List.mem_of_mem_eraseP hold))
  | moveNode id position node hnode =>
    intro place hplace
    obtain ⟨moved, hmoved, rfl⟩ := List.mem_map.1 hplace
    cases mem_updateFirst hmoved with
    | inl hmem => exact hg moved.position (List.mem_map_of_mem hmem)
    | inr hmoved =>
      obtain ⟨old, -, rfl⟩ := hmoved
      exact isGridPlace_of_onGrid (onGrid_snap position)
  | connect newId source target handle sourceNode targetNode hsource htarget hne hnew hrange =>
    exact hsame (positions_noteTarget g source _ _)
  | disconnect id edge hedge => exact hsame (positions_noteTarget g edge.source _ _)
  | setAction id actionId definition node hnode hkind =>
    exact hsame (positions_updateNode g id fun _ => rfl)
  | setConfigValue id key value node hnode hkind =>
    exact hsame (positions_updateNode g id fun _ => rfl)
  | addBranchPath id name node hnode hkind =>
    exact hsame (positions_updateNode g id fun _ => rfl)
  | removeBranchPath id index node hnode hkind hleast hrange =>
    exact hsame (positions_updateNode g id fun _ => rfl)
  | arrange =>
    intro place hplace
    exact isGridPlace_of_mem_arrange hplace

/-- A session keeps all nodes on the grid. -/
theorem isOnGrid_run {edits : List (Edit Rat)} (hkeeps : runsWith keepsToGrid g edits = true)
    (hg : g.IsOnGrid) : (g.run edits).IsOnGrid := by
  refine run_induction (fun g edit hedit hg => ?_) hkeeps hg
  cases apply_eq_or_edited g edit with
  | inl h => rwa [h]
  | inr h => exact hg.edited hedit h

end Places

/-- The edits that put nodes on the grid, wherever the other nodes are. -/
structure LandsOnGrid (g : Graph Rat) : Prop where
  added : ∀ id stepId kind position, ∃ node,
    g.addNode id stepId kind position = (node, g.pushNode node) ∧ IsGridPlace node.position
  moved : ∀ id position g', g.moveNode id position = .ok g' → ∃ node,
    g'.node? id = some node ∧ node.position = snap position ∧ IsGridPlace node.position
  addedAtDefault : g.nodes ≠ [] → ∀ id stepId kind viewCentre, ∃ node,
    g.addNodeAtDefault id stepId kind viewCentre = (node, g.pushNode node) ∧
      IsGridPlace node.position
  arranged : ∀ place ∈ g.arrange.positions, IsGridPlace place

theorem landsOnGrid (g : Graph Rat) : g.LandsOnGrid where
  added id stepId kind position :=
    ⟨_, rfl, isGridPlace_of_onGrid (onGrid_snap position)⟩
  moved id position g' h := by
    obtain ⟨node, hnode, h⟩ := bind_eq_ok.1 h
    cases h
    refine ⟨{ node with position := snap position }, ?_, rfl,
      isGridPlace_of_onGrid (onGrid_snap position)⟩
    have hid : ∀ node : Node Rat, { node with position := snap position }.id = node.id := by
      intro node
      rfl
    rw [node?_updateNode hid, getNode_eq_ok.1 hnode, Option.map_some]
  addedAtDefault hnodes id stepId kind viewCentre := by
    refine ⟨_, rfl, isGridPlace_of_onGrid (onGrid_defaultPlace ?_ viewCentre)⟩
    simpa [positions] using hnodes
  arranged _ := isGridPlace_of_mem_arrange

/-- Snapping rounds both coordinates to the nearest multiples of the cell size, an exact half going
away from zero; doing it again changes nothing, and it keeps the order and the sides of zero.
Placement steps stay among the points that snapping leaves where they are.  So nodes that are
added, moved or arranged are on one grid, and a session that starts on it stays there. -/
theorem snaps_onto_grid :
    (∀ cell : Rat, 0 < cell → IsSnapping cell (snapTo cell)) ∧
      (∀ (p : Point Rat) (across down : Int), IsGridPlace
        ((snap p).offset (across * units placementStep) (down * units placementStep))) ∧
      (∀ (p : Point Rat) (direction : Direction) (steps : Nat),
        IsGridPlace (direction.step^[steps] (snap p))) ∧
      (∀ g : Graph Rat, g.LandsOnGrid) ∧
      ∀ (g : Graph Rat) (edits : List (Edit Rat)), g.IsOnGrid →
        runsWith keepsToGrid g edits = true → (g.run edits).IsOnGrid := by
  refine ⟨fun cell hcell => isSnapping_snapTo hcell, fun p across down => ?_,
    fun p direction steps => ?_, landsOnGrid, fun g edits hg hkeeps => isOnGrid_run hkeeps hg⟩
  · exact isGridPlace_of_onGrid ((onGrid_snap p).offset across down)
  · exact isGridPlace_of_onGrid ((onGrid_snap p).iterate_step direction steps)

/-- Halves go away from zero on both sides. -/
example : snap (⟨30, -30⟩ : Point Rat) = ⟨40, -40⟩ := by decide +kernel

end Graph

end StepGraph
