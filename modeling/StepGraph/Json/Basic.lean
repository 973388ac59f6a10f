import StepGraph.Json.Members
import StepGraph.Numeral.Literal

/-!
# Documents

`Json` is a document as it is written: the members of an object stand in the order of the text, and
a key may come twice.  A part of a text that is well formed and yet denotes no value, such as a
number beyond every float, is kept as `Json.unreadable`, so that a reader who ignores that part may
pass over it.
-/

namespace StepGraph

open Numeral (Number)

/-- A document as written. -/
inductive Json where
  | null
  | bool (value : Bool)
  | num (value : Number)
  | str (value : String)
  | arr (items : List Json)
  | obj (members : List (String × Json))
  /-- Well formed, but no value: a number beyond every float, a string with half a surrogate pair,
  or nesting beyond the limit. -/
  | unreadable
deriving Inhabited

namespace Json

/-! ## Equality -/

mutual

/-- Whether two documents are the same. -/
def same : Json → Json → Bool
  | .null, .null => true
  | .bool a, .bool b => a == b
  | .num a, .num b => decide (a = b)
  | .str a, .str b => a == b
  | .arr a, .arr b => sameItems a b
  | .obj a, .obj b => sameMembers a b
  | .unreadable, .unreadable => true
  | _, _ => false

/-- Whether two lists of items are the same. -/
def sameItems : List Json → List Json → Bool
  | [], [] => true
  | a :: as, b :: bs => same a b && sameItems as bs
  | _, _ => false

/-- Whether two lists of members are the same. -/
def sameMembers : List (String × Json) → List (String × Json) → Bool
  | [], [] => true
  | (k, a) :: as, (l, b) :: bs => k == l && same a b && sameMembers as bs
  | _, _ => false

end

mutual

theorem same_iff : ∀ a b : Json, same a b = true ↔ a = b
  | .null, b => by cases b <;> simp [same]
  | .bool _, b => by cases b <;> simp [same]
  | .num _, b => by cases b <;> simp [same]
  | .str _, b => by cases b <;> simp [same]
  | .arr as, b => by
    cases b with
    | arr bs => simp [same, sameItems_iff as bs]
    | _ => simp [same]
  | .obj as, b => by
    cases b with
    | obj bs => simp [same, sameMembers_iff as bs]
    | _ => simp [same]
  | .unreadable, b => by cases b <;> simp [same]

theorem sameItems_iff : ∀ as bs : List Json, sameItems as bs = true ↔ as = bs
  | [], bs => by cases bs <;> simp [sameItems]
  | a :: as, bs => by
    cases bs with
    | nil => simp [sameItems]
    | cons b bs => simp [sameItems, same_iff a b, sameItems_iff as bs]

theorem sameMembers_iff : ∀ as bs : List (String × Json), sameMembers as bs = true ↔ as = bs
  | [], bs => by cases bs <;> simp [sameMembers]
  | (k, a) :: as, bs => by
    cases bs with
    | nil => simp [sameMembers]
    | cons b bs =>
      obtain ⟨l, b⟩ := b
      simp [sameMembers, same_iff a b, sameMembers_iff as bs]

end

instance : DecidableEq Json := fun a b => decidable_of_iff _ (same_iff a b)

/-! ## Looking inside -/

/-- The value of the first member of an object that has the key. -/
def member? (key : String) : Json → Option Json
  | .obj members => lookupMember key members
  | _ => none

/-- The item of an array at an index. -/
def item? (index : Nat) : Json → Option Json
  | .arr items => items[index]?
  | _ => none

/-- The text of a string. -/
def string? : Json → Option String
  | .str value => some value
  | _ => none

/-- The name of a choice: a string, or the only key of an object when its value is null. -/
def choice? : Json → Option String
  | .str name => some name
  | .obj [(name, .null)] => some name
  | _ => none

/-- The truth value of a boolean. -/
def bool? : Json → Option Bool
  | .bool value => some value
  | _ => none

/-- The items of an array, each read in the same way. -/
def listOf? {α : Type} (read : Json → Option α) : Json → Option (List α)
  | .arr items => items.mapM read
  | _ => none

/-- The float nearest to a number. -/
def float? : Json → Option Float
  | .num value => some value.toFloat
  | _ => none

/-- A float as a document: one that is not finite has no number and is null. -/
def ofFloat (value : Float) : Json :=
  if Numeral.isFinite value then .num (.float value) else .null

/-- An optional text, null when absent. -/
def ofString? : Option String → Json
  | some value => .str value
  | none => .null

end Json

end StepGraph
