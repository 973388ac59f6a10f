import StepGraph.Numeral.Literal

/-!
# Floats on the command line

A float may be given as decimal digits with a point anywhere among them and an exponent after them,
or by the names of what is not finite, in any case of letters.  A sign may stand in front.
`Argument.float?` gives the float nearest to the decimal.
-/

namespace StepGraph.Numeral.Argument

/-- The float nearest to `digits * 10 ^ exponent`.  A number beyond every float is infinite, and one
too small for any is zero. -/
def nearest (digits : Nat) (exponent : Int) : Float :=
  let leading := (Nat.toDigits 10 digits).length + exponent
  if digits = 0 ∨ leading < -400 then 0
  else if 400 < leading then 1 / 0
  else Float.ofScientific digits (exponent < 0) exponent.natAbs

/-- The names of what is not finite. -/
def named? (cs : List Char) : Option Float :=
  match String.ofList (cs.map Char.toLower) with
  | "inf" | "infinity" => some (1 / 0)
  | "nan" => some (0 / 0)
  | _ => none

/-- A decimal without a sign. -/
def unsigned? (cs : List Char) : Option Float := do
  let (whole, cs) := scanDigits cs
  let (fraction, cs) := match cs with
    | '.' :: rest => scanDigits rest
    | _ => ([], cs)
  if whole.isEmpty && fraction.isEmpty then none
  let (exponent, cs) ← Literal.scanExponent? cs
  if cs.isEmpty then
    some (nearest (ofDigits (whole ++ fraction)) (exponent.getD 0 - fraction.length))
  else none

/-- The float of an argument. -/
def float? (text : String) : Option Float :=
  let (negative, cs) := match text.toList with
    | '-' :: rest => (true, rest)
    | '+' :: rest => (false, rest)
    | cs => (false, cs)
  ((named? cs).orElse fun _ => unsigned? cs).map fun f => if negative then -f else f

end StepGraph.Numeral.Argument
