import StepGraph.Geometry.Point

/-!
# Places for boxes

A node is drawn as a box with its position at the top left corner.  The functions of this module say
when two boxes overlap, put points on the grid, and look for a place where a new box is free.

There are three groups.

* Measures of the canvas, in whole units.
* The grid and the overlap of boxes.
* The search for a free place, `freePlace`, and the place of a node added without a drop point,
  `defaultPlace`.
-/

namespace StepGraph.Layout

/-! ## Measures -/

/-- The side of a grid cell. -/
def gridSize : Nat := 20

/-- The width of a box. -/
def nodeWidth : Nat := 280

/-- The height of a box. -/
def nodeHeight : Nat := 120

/-- The clearance kept around a box. -/
def nodeMargin : Nat := gridSize

/-- The distance between two tries for a free place. -/
def placementStep : Nat := 2 * gridSize

/-- The number of places that are tried. -/
def placementTries : Nat := 100

variable {α : Type} [Coordinate α]

/-- A whole number of units. -/
def units (n : Nat) : α := Coordinate.ofNat n

/-- Where the first node of a graph goes. -/
def firstPlace : Point α := ⟨units 250, units 100⟩

/-! ## The grid and the overlap of boxes -/

/-- The nearest point whose coordinates are multiples of a cell size; an exact half goes away from
zero.  Without a positive cell size the point stays. -/
def snapTo (cell : α) (p : Point α) : Point α :=
  if cell ≤ units 0 then p
  else ⟨Coordinate.round (p.x / cell) * cell, Coordinate.round (p.y / cell) * cell⟩

/-- The nearest point of the grid. -/
def snap (p : Point α) : Point α := snapTo (units gridSize) p

/-- Whether two boxes come closer to each other than a margin, along both axes. -/
def overlaps (a b : Point α) (margin : α) : Bool :=
  decide (a.x < b.x + units nodeWidth + margin) && decide (b.x < a.x + units nodeWidth + margin) &&
    decide (a.y < b.y + units nodeHeight + margin) && decide (b.y < a.y + units nodeHeight + margin)

/-! ## Free places -/

/-- Where a blocked place moves to. -/
inductive Direction where
  | down
  | diagonal
deriving DecidableEq

/-- A place moved by one step. -/
def Direction.step (d : Direction) (p : Point α) : Point α :=
  match d with
  | .down => p.offset (units 0) (units placementStep)
  | .diagonal => p.offset (units placementStep) (units placementStep)

/-- Whether a box at a place comes too close to a box that is there. -/
def isBlocked (existing : List (Point α)) (p : Point α) : Bool :=
  existing.any fun q => overlaps p q (units nodeMargin)

/-- Moves a place until it is free, a bounded number of times. -/
def moveUntilFree (existing : List (Point α)) (direction : Direction) : Nat → Point α → Point α
  | 0, p => p
  | tries + 1, p =>
    if isBlocked existing p then moveUntilFree existing direction tries (direction.step p) else p

/-- The first free place from a desired one on, or wherever the search gives up. -/
def freePlace (existing : List (Point α)) (direction : Direction) (desired : Point α) : Point α :=
  moveUntilFree existing direction placementTries desired

/-- Where a node goes that is added without a drop point: the first one to the middle of the view,
every other one to a free place from there on, centred and on the grid. -/
def defaultPlace (existing : List (Point α)) (viewCentre : Option (Point α)) : Point α :=
  let centre := viewCentre.getD firstPlace
  if existing.isEmpty then centre
  else
    freePlace existing .diagonal
      (snap (centre.offset (-units (nodeWidth / 2)) (-units (nodeHeight / 2))))

end StepGraph.Layout
