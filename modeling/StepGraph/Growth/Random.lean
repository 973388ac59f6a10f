import StepGraph.Growth.Basic

/-!
# Choices from a seed

A stream of pseudo-random words, made from a seed by a fixed step and a scrambling of its state, and
the choices drawn from it.  Any other stream would do as well: a grown graph is sound whatever the
choices are.
-/

namespace StepGraph.Growth

/-- A stream of pseudo-random words. -/
structure Stream where
  state : UInt64

namespace Stream

/-- Takes the next word. -/
def next (s : Stream) : UInt64 × Stream :=
  let state := s.state + 0x9e3779b97f4a7c15
  let a := (state ^^^ (state >>> 30)) * 0xbf58476d1ce4e5b9
  let b := (a ^^^ (a >>> 27)) * 0x94d049bb133111eb
  (b ^^^ (b >>> 31), ⟨state⟩)

/-- Takes a whole number below a bound. -/
def below (s : Stream) (bound : Nat) : Nat × Stream :=
  let (word, s) := s.next
  (word.toNat % bound, s)

/-- Tosses a coin that falls one way with a probability: never at zero, always at one. -/
def coin (s : Stream) (probability : Float) : Bool × Stream :=
  let (word, s) := s.next
  let drawn := Float.ofNat (word.toNat / 0x800) / Float.ofNat 0x20000000000000
  (decide (drawn < probability), s)

/-- A number as lower case hexadecimal digits, with leading zeros. -/
def hexText (digits n : Nat) : String :=
  let text := Nat.toDigits 16 n
  String.ofList (List.replicate (digits - text.length) '0' ++ text)

/-- Takes a random identity: five groups of hexadecimal digits, of which one digit tells that it is
random and two bits tell the layout. -/
def identity (s : Stream) : String × Stream :=
  let (high, s) := s.next
  let (low, s) := s.next
  let high := high.toNat
  let low := low.toNat
  ("-".intercalate
    [hexText 8 (high / 0x100000000), hexText 4 (high / 0x10000 % 0x10000),
      hexText 4 (0x4000 + high % 0x1000), hexText 4 (0x8000 + low / 0x1000000000000 % 0x4000),
      hexText 12 (low % 0x1000000000000)], s)

/-- Takes the choices for a step. -/
def choice (s : Stream) (branchRatio approvalRatio : Float) : Choice × Stream :=
  let (nodeId, s) := s.identity
  let (stepId, s) := s.identity
  let (edgeId, s) := s.identity
  let (branch, s) := s.coin branchRatio
  let (approval, s) := s.coin approvalRatio
  let (action, s) := s.below catalog.length
  let (threshold, s) := s.below 999
  let (output, s) := s.next
  ({ nodeId := "node-" ++ nodeId
     stepId := stepId
     edgeId := "edge-" ++ edgeId
     branch := branch
     approval := approval
     action := action
     threshold := threshold + 1
     output := output.toNat }, s)

/-- Takes the choices for a number of steps. -/
def choices (s : Stream) (branchRatio approvalRatio : Float) : Nat → List Choice
  | 0 => []
  | steps + 1 =>
    let (c, s) := s.choice branchRatio approvalRatio
    c :: s.choices branchRatio approvalRatio steps

end Stream

end StepGraph.Growth
