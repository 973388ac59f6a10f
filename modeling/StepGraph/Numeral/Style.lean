import StepGraph.Numeral.Shortest

/-!
# Texts of floats

A float is written with the fewest digits that read back.  `Style` holds the choices a format makes
around those digits: which numbers are written positionally, whether a whole number keeps a point,
and which of two equally near decimals is written.  `Style.json` is the style of the project's
documents, `Style.message` the style of numbers in messages.
-/

namespace StepGraph.Numeral

/-- The choices of a format for floats. -/
structure Style where
  /-- Whether a number whose leading digit has this decimal exponent is written without one. -/
  positional : Int → Bool
  /-- Whether a whole number ends in `.0`. -/
  keepsPoint : Bool
  /-- Which of two equally near decimals is written. -/
  tie : Tie

namespace Style

/-- Documents write leading exponents from -5 to 15 positionally, and always with a point.
A tie goes to the even last digit. -/
def json : Style := ⟨fun e => decide (-5 ≤ e ∧ e ≤ 15), true, .toEven⟩

/-- Messages write every number positionally, a whole one without a point.  A tie goes to the
greater magnitude. -/
def message : Style := ⟨fun _ => true, false, .up⟩

/-- Digits without an exponent: `point` of them stand before the point. -/
def positionalText (style : Style) (digits : List Char) (point : Int) : List Char :=
  if point ≤ 0 then
    '0' :: '.' :: (List.replicate (-point).toNat '0' ++ digits)
  else if point < digits.length then
    digits.take point.toNat ++ '.' :: digits.drop point.toNat
  else
    digits ++ List.replicate (point.toNat - digits.length) '0' ++
      (if style.keepsPoint then ['.', '0'] else [])

/-- Digits with an exponent: one digit before the point, no point after a lone digit, and the sign
of the exponent always written. -/
def scientificText (digits : List Char) (leading : Int) : List Char :=
  let significand :=
    match digits with
    | d :: rest@(_ :: _) => d :: '.' :: rest
    | _ => digits
  let sign := if leading < 0 then '-' else '+'
  significand ++ 'e' :: sign :: Nat.toDigits 10 leading.natAbs

/-- The text of the digits of a positive number. -/
def digitsText (style : Style) (d : Decimal) : List Char :=
  let digits := Nat.toDigits 10 d.digits
  let point := digits.length + d.exponent
  if style.positional (point - 1) then style.positionalText digits point
  else scientificText digits (point - 1)

/-- The text of a float.  The sign of zero is written; what is not finite is named. -/
def text (style : Style) (f : Float) : String :=
  match Binary.ofFloat? f with
  | none =>
    if f.isNaN then "NaN" else if f < 0 then "-inf" else "inf"
  | some b =>
    let body :=
      if b.mantissa = 0 then (if style.keepsPoint then ['0', '.', '0'] else ['0'])
      else style.digitsText (.shortest b style.tie)
    String.ofList (if b.negative then '-' :: body else body)

end Style

end StepGraph.Numeral
