import StepGraph.Numeral.Binary

/-!
# The fewest digits that read back

Reading a decimal gives the float nearest to it, so a float owns the interval of reals around its
exact value that round to it.  `Decimal.shortest` finds the decimal of fewest digits in that
interval, and of those the one nearest to the exact value.  Two may be equally near; `Tie` says
which of them is taken.

There are two groups.

* The interval.  `Owned` is the interval of a float, scaled to whole numbers.
* The search.  `Owned.nearest?` tests the two neighbours of the value on one decimal grid, and
  `Decimal.shortest` takes the first grid, from coarse to fine, that has a hit.
-/

namespace StepGraph.Numeral

/-- The number `digits * 10 ^ exponent`. -/
structure Decimal where
  digits : Nat
  exponent : Int
deriving DecidableEq, Repr

namespace Decimal

/-- The same number without trailing zeros among the digits. -/
def trim (d : Decimal) : Decimal :=
  if h : d.digits ≠ 0 ∧ d.digits % 10 = 0 then trim ⟨d.digits / 10, d.exponent + 1⟩ else d
termination_by d.digits
decreasing_by exact Nat.div_lt_self (Nat.pos_of_ne_zero h.1) (by decide)

end Decimal

/-- Which of two whole numbers is taken for a value half way between them. -/
inductive Tie where
  /-- The even one. -/
  | toEven
  /-- The greater one. -/
  | up
deriving DecidableEq, Repr

/-- The number taken half way between a whole number and the next. -/
def Tie.choose (tie : Tie) (below : Nat) : Nat :=
  match tie with
  | .toEven => if below % 2 = 0 then below else below + 1
  | .up => below + 1

/-! ## The interval -/

/-- The interval of reals that round to a float: `low / unit` to `high / unit` around the exact
value `value / unit`, with the end points exactly when `closed`. -/
structure Owned where
  low : Nat
  value : Nat
  high : Nat
  unit : Nat
  closed : Bool
deriving DecidableEq, Repr

namespace Owned

/-- The interval of a positive float.  It reaches half way to each neighbour; below a power of two
the neighbour is nearer by half.  A tie goes to the even mantissa, so the ends belong to the
interval of an even one. -/
def ofBinary (b : Binary) : Owned :=
  let scale := Nat.pow 2 b.exponent.toNat
  let below := if b.mantissa = Binary.leadingOne ∧ Binary.leastExponent < b.exponent then 1 else 2
  { low := (4 * b.mantissa - below) * scale
    value := 4 * b.mantissa * scale
    high := (4 * b.mantissa + 2) * scale
    unit := 4 * Nat.pow 2 (-b.exponent).toNat
    closed := b.mantissa % 2 = 0 }

/-- The interval counted in grid steps of `10 ^ exponent`. -/
def onGrid (i : Owned) (exponent : Int) : Owned :=
  let finer := Nat.pow 10 (-exponent).toNat
  { i with
    low := i.low * finer
    value := i.value * finer
    high := i.high * finer
    unit := i.unit * Nat.pow 10 exponent.toNat }

/-- Whether the whole number `n` lies in the interval. -/
def contains (i : Owned) (n : Nat) : Bool :=
  if i.closed then i.low ≤ n * i.unit && n * i.unit ≤ i.high
  else i.low < n * i.unit && n * i.unit < i.high

/-- The whole number nearest to the value, if it or the other neighbour of the value lies in the
interval. -/
def nearest? (i : Owned) (tie : Tie) : Option Nat :=
  let below := i.value / i.unit
  let above := below + 1
  match i.contains below, i.contains above with
  | false, false => none
  | true, false => some below
  | false, true => some above
  | true, true =>
    match compare (2 * i.value) ((below + above) * i.unit) with
    | .lt => some below
    | .gt => some above
    | .eq => some (tie.choose below)

/-- The decimal exponent of the leading digit of the value. -/
def leadingExponent (i : Owned) : Int :=
  let estimate : Int := (Nat.toDigits 10 i.value).length - (Nat.toDigits 10 i.unit).length
  let reached : Bool :=
    if 0 ≤ estimate then i.unit * Nat.pow 10 estimate.toNat ≤ i.value
    else i.unit ≤ i.value * Nat.pow 10 (-estimate).toNat
  if reached then estimate else estimate - 1

end Owned

/-! ## The search -/

/-- A float never needs more digits than this to read back. -/
def Decimal.mostDigits : Nat := 17

/-- The decimal of fewest digits that rounds to the number, the nearest of those; without trailing
zeros.  The number must be positive. -/
def Decimal.shortest (b : Binary) (tie : Tie) : Decimal :=
  let owned := Owned.ofBinary b
  let leading := owned.leadingExponent
  let attempt (count : Nat) : Option Decimal :=
    let exponent := leading - count
    ((owned.onGrid exponent).nearest? tie).map fun digits => ⟨digits, exponent⟩
  ((List.range mostDigits).findSome? attempt).getD ⟨b.mantissa, b.exponent⟩ |>.trim

end StepGraph.Numeral
