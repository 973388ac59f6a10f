import StepGraph.Numeral.Literal

/-!
# Handles

An edge leaves its source through a handle.  The path at index `i` of a branch node has the handle
`branch-i`, and an approval step has the handles `approve` and `reject`.  `Handle.branch` writes a
branch handle and `Handle.branchIndex?` reads one; a reader may meet a leading plus sign or leading
zeros, and an index of 64 bits at most.
-/

namespace StepGraph.Handle

/-- The handle taken when an approval step is approved. -/
def approve : String := "approve"

/-- The handle taken when an approval step is rejected. -/
def reject : String := "reject"

/-- Whether a handle is one of the two of an approval step. -/
def isApproval (handle : String) : Bool := handle == approve || handle == reject

/-- What every branch handle starts with. -/
def branchStart : List Char := ['b', 'r', 'a', 'n', 'c', 'h', '-']

/-- The handle of the branch path at an index. -/
def branch (index : Nat) : String := String.ofList (branchStart ++ Nat.toDigits 10 index)

/-- Indices have 64 bits, so they are below this. -/
def indexBound : Nat := 0x10000000000000000

/-- The index written by a text: decimal digits after an optional plus sign. -/
def indexOfText? (cs : List Char) : Option Nat :=
  let digits := match cs with
    | '+' :: rest => rest
    | _ => cs
  match Numeral.scanDigits? digits with
  | some (ds, []) => if Numeral.ofDigits ds < indexBound then some (Numeral.ofDigits ds) else none
  | _ => none

/-- The index of the branch path a handle belongs to, if it is a branch handle. -/
def branchIndex? (handle : String) : Option Nat :=
  (branchStart.isPrefixOf? handle.toList).bind indexOfText?

end StepGraph.Handle
