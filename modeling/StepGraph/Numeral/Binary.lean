/-!
# The exact value of a float

A finite 64-bit float is a whole number times a power of two.  `Binary` is that decomposition, read
off the bit pattern, so that digits and rounding are computed with whole numbers only.

There are two groups.

* The decomposition.  `Binary.ofFloat?` splits a finite float into sign, mantissa and exponent.
* Rounding.  `roundHalfAway` is the nearest whole number, an exact half going away from zero.
-/

namespace StepGraph.Numeral

/-! ## The decomposition -/

/-- The number `mantissa * 2 ^ exponent`, negated when `negative`. -/
structure Binary where
  negative : Bool
  mantissa : Nat
  exponent : Int
deriving DecidableEq, Repr

/-- The least exponent of a float's decomposition. -/
def Binary.leastExponent : Int := -1074

/-- Fractions of 52 bits are below this; it is also the leading one of a mantissa. -/
def Binary.leadingOne : Nat := 0x10000000000000

/-- The bit of the sign. -/
def Binary.signBit : Nat := 0x8000000000000000

/-- The decomposition of a finite float: the sign is the top bit, the next eleven bits are the
biased exponent, and a nonzero biased exponent adds a leading one to the fraction.  Infinities and
not-a-number have none. -/
def Binary.ofFloat? (f : Float) : Option Binary :=
  let bits := f.toBits.toNat
  let biased : Nat := bits / leadingOne % 2048
  let fraction : Nat := bits % leadingOne
  if biased = 2047 then none
  else if biased = 0 then some ⟨decide (signBit ≤ bits), fraction, leastExponent⟩
  else some ⟨decide (signBit ≤ bits), leadingOne + fraction, (biased : Int) - 1075⟩

/-- A float is finite when it has a decomposition. -/
def isFinite (f : Float) : Bool := (Binary.ofFloat? f).isSome

/-! ## Rounding -/

/-- The whole number nearest to `mantissa / unit`, an exact half going up. -/
def roundHalfUp (mantissa unit : Nat) : Nat := (2 * mantissa + unit) / (2 * unit)

/-- The nearest whole number, an exact half going away from zero.  The sign is kept, also on zero,
and a float that is not finite is left as it is. -/
def roundHalfAway (f : Float) : Float :=
  match Binary.ofFloat? f with
  | none => f
  | some b =>
    if 0 ≤ b.exponent then f
    else
      let whole := Float.ofNat (roundHalfUp b.mantissa (Nat.pow 2 (-b.exponent).toNat))
      if b.negative then -whole else whole

end StepGraph.Numeral
