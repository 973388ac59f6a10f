import StepGraph.Numeral.Binary

/-!
# Number literals

A number literal is an optional minus sign, a whole part without leading zeros, an optional fraction
and an optional exponent.  It denotes an integer when it has neither fraction nor exponent and fits
64 bits, and a float otherwise.

There are three groups.

* The grammar.  `Literal.scan?` takes a literal off the front of a text.
* The significand.  Digits are gathered into 64 bits; `gather` says which of them still fit.
* The value.  `Literal.number?` is the number a literal denotes.  A literal beyond every float
  denotes none.
-/

namespace StepGraph.Numeral

/-- A number of a document: an integer of at most 64 bits, or a float. -/
inductive Number where
  | int (value : Int)
  | float (value : Float)
deriving DecidableEq, Inhabited

/-- The float nearest to a number. -/
def Number.toFloat : Number → Float
  | .int value => Float.ofInt value
  | .float value => value

/-! ## The grammar -/

/-- The parts of a number literal; digits are kept as their values. -/
structure Literal where
  negative : Bool
  whole : List Nat
  fraction : Option (List Nat)
  exponent : Option Int
deriving DecidableEq

/-- The whole number written by a list of decimal digits. -/
def ofDigits (digits : List Nat) : Nat := digits.foldl (fun n d => 10 * n + d) 0

/-- The value of a decimal digit. -/
def digit? (c : Char) : Option Nat :=
  if '0' ≤ c ∧ c ≤ '9' then some (c.toNat - '0'.toNat) else none

/-- Takes the leading decimal digits off a text. -/
def scanDigits : List Char → List Nat × List Char
  | [] => ([], [])
  | c :: rest =>
    match digit? c with
    | none => ([], c :: rest)
    | some d => let (ds, rest') := scanDigits rest; (d :: ds, rest')

theorem scanDigits_length_le (cs : List Char) : (scanDigits cs).2.length ≤ cs.length := by
  induction cs with
  | nil => simp [scanDigits]
  | cons c rest ih =>
    rw [scanDigits]
    split
    · simp
    · simp only [List.length_cons]
      omega

/-- Takes at least one decimal digit off a text. -/
def scanDigits? (cs : List Char) : Option (List Nat × List Char) :=
  match scanDigits cs with
  | ([], _) => none
  | scanned => some scanned

theorem scanDigits?_length_lt {cs rest : List Char} {ds : List Nat}
    (h : scanDigits? cs = some (ds, rest)) : rest.length < cs.length := by
  cases cs with
  | nil => simp [scanDigits?, scanDigits] at h
  | cons c tail =>
    have := scanDigits_length_le tail
    cases hd : digit? c with
    | none => simp [scanDigits?, scanDigits, hd] at h
    | some d =>
      simp only [scanDigits?, scanDigits, hd, Option.some.injEq, Prod.mk.injEq] at h
      rw [← h.2, List.length_cons]
      omega

namespace Literal

/-- Takes the whole part: a lone zero, or digits that do not start with one. -/
def scanWhole? : List Char → Option (List Nat × List Char)
  | '0' :: rest => some ([0], rest)
  | cs => scanDigits? cs

/-- Takes a fraction if there is a point; the point needs a digit after it. -/
def scanFraction? : List Char → Option (Option (List Nat) × List Char)
  | '.' :: rest => (scanDigits? rest).map fun (ds, rest') => (some ds, rest')
  | cs => some (none, cs)

/-- Takes the digits of an exponent after its sign. -/
def scanExponentDigits? (negative : Bool) (cs : List Char) : Option (Option Int × List Char) :=
  (scanDigits? cs).map fun (ds, rest) =>
    (some (if negative then -(ofDigits ds : Int) else ofDigits ds), rest)

/-- Takes an exponent if there is its mark, with an optional sign. -/
def scanExponent? : List Char → Option (Option Int × List Char)
  | c :: rest =>
    if c = 'e' ∨ c = 'E' then
      match rest with
      | '+' :: rest' => scanExponentDigits? false rest'
      | '-' :: rest' => scanExponentDigits? true rest'
      | _ => scanExponentDigits? false rest
    else some (none, c :: rest)
  | [] => some (none, [])

/-- Takes a number literal off the front of a text. -/
def scan? (cs : List Char) : Option (Literal × List Char) := do
  let (negative, cs) := match cs with
    | '-' :: rest => (true, rest)
    | _ => (false, cs)
  let (whole, cs) ← scanWhole? cs
  let (fraction, cs) ← scanFraction? cs
  let (exponent, cs) ← scanExponent? cs
  some (⟨negative, whole, fraction, exponent⟩, cs)

theorem scanWhole?_length_lt {cs rest : List Char} {ds : List Nat}
    (h : scanWhole? cs = some (ds, rest)) : rest.length < cs.length := by
  rw [scanWhole?.eq_def] at h
  split at h
  · simp only [Option.some.injEq, Prod.mk.injEq] at h
    simp [← h.2]
  · exact scanDigits?_length_lt h

theorem scanFraction?_length_le {cs rest : List Char} {ds : Option (List Nat)}
    (h : scanFraction? cs = some (ds, rest)) : rest.length ≤ cs.length := by
  rw [scanFraction?.eq_def] at h
  split at h
  · obtain ⟨⟨ds', rest'⟩, hs, he⟩ := Option.map_eq_some_iff.1 h
    have := scanDigits?_length_lt hs
    simp only [Prod.mk.injEq] at he
    rw [← he.2, List.length_cons]
    omega
  · simp only [Option.some.injEq, Prod.mk.injEq] at h
    simp [h.2]

theorem scanExponentDigits?_length_lt {negative : Bool} {cs rest : List Char} {e : Option Int}
    (h : scanExponentDigits? negative cs = some (e, rest)) : rest.length < cs.length := by
  obtain ⟨⟨ds, rest'⟩, hs, he⟩ := Option.map_eq_some_iff.1 h
  simp only [Prod.mk.injEq] at he
  exact he.2 ▸ scanDigits?_length_lt hs

theorem scanExponent?_length_le {cs rest : List Char} {e : Option Int}
    (h : scanExponent? cs = some (e, rest)) : rest.length ≤ cs.length := by
  rw [scanExponent?.eq_def] at h
  split at h
  · split at h
    · split at h <;> have := scanExponentDigits?_length_lt h <;>
        simp_all only [List.length_cons] <;> omega
    · simp only [Option.some.injEq, Prod.mk.injEq] at h
      simp [← h.2]
  · simp only [Option.some.injEq, Prod.mk.injEq] at h
    simp [← h.2]

/-- A literal takes at least one character. -/
theorem scan?_length_lt {cs rest : List Char} {l : Literal}
    (h : scan? cs = some (l, rest)) : rest.length < cs.length := by
  simp only [scan?, Option.bind_eq_bind, Option.bind_eq_some_iff, Option.some.injEq,
    Prod.mk.injEq] at h
  obtain ⟨⟨whole, cs₁⟩, h₁, ⟨fraction, cs₂⟩, h₂, ⟨exponent, cs₃⟩, h₃, _, rfl⟩ := h
  have h₁ := scanWhole?_length_lt h₁
  have h₂ := scanFraction?_length_le h₂
  have h₃ := scanExponent?_length_le h₃
  split at h₁ <;> simp_all only [List.length_cons] <;> omega

/-! ## The significand -/

/-- The bound of the gathered significand, of 64 bits. -/
def significandBound : Nat := 0x10000000000000000

/-- The greatest significand that a negative integer may have. -/
def negativeBound : Nat := 0x8000000000000000

/-- Appends digits to a significand while it stays below the bound; returns it with the number of
digits that found no room. -/
def gather (significand : Nat) : List Nat → Nat × Nat
  | [] => (significand, 0)
  | d :: ds =>
    if 10 * significand + d < significandBound then gather (10 * significand + d) ds
    else (significand, (d :: ds).length)

/-! ## The value -/

/-- A float divided by a power of ten, in steps that each stay within the floats. -/
def divideByPowerOfTen (f : Float) (power : Nat) : Float :=
  if power ≤ 308 then f / Float.ofScientific 1 false power
  else if f == 0 then f
  else divideByPowerOfTen (f / Float.ofScientific 1 false 308) (power - 308)
termination_by power

/-- A significand times a power of ten.  A product beyond every float is none. -/
def scale? (significand : Nat) (exponent : Int) : Option Float :=
  let f := Float.ofNat significand
  if exponent < 0 then some (divideByPowerOfTen f exponent.natAbs)
  else if significand = 0 then some f
  else if 308 < exponent then none
  else
    let scaled := f * Float.ofScientific 1 false exponent.toNat
    if isFinite scaled then some scaled else none

/-- The number a literal denotes.  An integer literal that fits 64 bits is an integer, apart from
the negative zero, which only a float can hold.  A float is its gathered significand, scaled once by
the power of ten that the point, the exponent and the digits without room add up to. -/
def number? (l : Literal) : Option Number :=
  let (significand, beyond) := gather 0 l.whole
  match l.fraction, l.exponent with
  | none, none =>
    if beyond = 0 ∧ ¬ l.negative then some (.int significand)
    else if beyond = 0 ∧ 0 < significand ∧ significand ≤ negativeBound then
      some (.int (-significand))
    else float? significand beyond
  | fraction, exponent =>
    let digits := fraction.getD []
    let (significand, unused) := gather significand digits
    float? significand (beyond + exponent.getD 0 - (digits.length - unused : Nat))
where
  /-- The float of a significand and a power of ten, with the sign of the literal. -/
  float? (significand : Nat) (exponent : Int) : Option Number :=
    (scale? significand exponent).map fun f => .float (if l.negative then -f else f)

end Literal

end StepGraph.Numeral
