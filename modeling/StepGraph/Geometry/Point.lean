import StepGraph.Numeral.Binary

/-!
# Points of the canvas

`Coordinate` is what the layout needs of a number: arithmetic, a decidable order, the whole numbers
and rounding.  Floats are the coordinates of documents.  Rationals are coordinates too, so that laws
of the layout can be stated without rounding errors.
-/

namespace StepGraph

/-- A number type for coordinates. -/
class Coordinate (α : Type) extends Add α, Sub α, Mul α, Div α, Neg α, LT α, LE α where
  /-- A whole number as a coordinate. -/
  ofNat : Nat → α
  /-- The nearest whole number, an exact half going away from zero. -/
  round : α → α
  decidableLT (a b : α) : Decidable (a < b)
  decidableLE (a b : α) : Decidable (a ≤ b)

instance Coordinate.instDecidableLT {α : Type} [Coordinate α] (a b : α) : Decidable (a < b) :=
  Coordinate.decidableLT a b

instance Coordinate.instDecidableLE {α : Type} [Coordinate α] (a b : α) : Decidable (a ≤ b) :=
  Coordinate.decidableLE a b

instance : Coordinate Float where
  ofNat := Float.ofNat
  round := Numeral.roundHalfAway
  decidableLT a b := inferInstanceAs (Decidable (a < b))
  decidableLE a b := inferInstanceAs (Decidable (a ≤ b))

/-- The whole number nearest to a rational, an exact half going away from zero. -/
def roundRat (q : Rat) : Int := if 0 ≤ q then (q + 1 / 2).floor else (q - 1 / 2).ceil

instance : Coordinate Rat where
  ofNat n := n
  round q := roundRat q
  decidableLT a b := inferInstanceAs (Decidable (a < b))
  decidableLE a b := inferInstanceAs (Decidable (a ≤ b))

/-- A point of the canvas. -/
structure Point (α : Type) where
  x : α
  y : α
deriving DecidableEq, Repr

namespace Point

variable {α : Type} [Coordinate α]

/-- The origin. -/
def zero : Point α := ⟨Coordinate.ofNat 0, Coordinate.ofNat 0⟩

instance : Inhabited (Point α) := ⟨zero⟩

/-- The point moved by a distance along each axis. -/
def offset (p : Point α) (dx dy : α) : Point α := ⟨p.x + dx, p.y + dy⟩

end Point

end StepGraph
