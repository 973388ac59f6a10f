import StepGraph.Json.Basic
import StepGraph.Json.Quoted
import StepGraph.Numeral.Style

/-!
# Writing documents

`Json.pretty` writes one item or member a line, indented by two spaces for each level, and
`Json.compact` writes no white space at all.  Both write strings with the same escapes and numbers
with the same digits.
-/

namespace StepGraph

namespace Json

/-! ## Scalars -/

/-- The text of a number; a float that is not finite is null. -/
def numberText : Numeral.Number → String
  | .int value => toString value
  | .float value => if Numeral.isFinite value then Numeral.Style.json.text value else "null"

/-- The text of a truth value. -/
def boolText (value : Bool) : String := if value then "true" else "false"

/-! ## Pretty text -/

/-- A new line at an indentation level. -/
def newLine (level : Nat) : String := String.ofList ('\n' :: List.replicate (2 * level) ' ')

mutual

/-- The text of a document at an indentation level. -/
def prettyAt (level : Nat) : Json → String
  | .null | .unreadable => "null"
  | .bool value => boolText value
  | .num value => numberText value
  | .str value => Quoted.text value
  | .arr [] => "[]"
  | .arr items =>
    "[" ++ ",".intercalate (prettyItems (level + 1) items) ++ newLine level ++ "]"
  | .obj [] => "\x7b\x7d"
  | .obj members =>
    "\x7b" ++ ",".intercalate (prettyMembers (level + 1) members) ++ newLine level ++ "\x7d"

/-- The lines of the items of an array. -/
def prettyItems (level : Nat) : List Json → List String
  | [] => []
  | j :: rest => (newLine level ++ prettyAt level j) :: prettyItems level rest

/-- The lines of the members of an object. -/
def prettyMembers (level : Nat) : List (String × Json) → List String
  | [] => []
  | (key, j) :: rest =>
    (newLine level ++ Quoted.text key ++ ": " ++ prettyAt level j) :: prettyMembers level rest

end

/-- The text of a document with one item or member a line. -/
def pretty (j : Json) : String := prettyAt 0 j

/-! ## Compact text -/

mutual

/-- The text of a document without white space. -/
def compact : Json → String
  | .null | .unreadable => "null"
  | .bool value => boolText value
  | .num value => numberText value
  | .str value => Quoted.text value
  | .arr items => "[" ++ ",".intercalate (compactItems items) ++ "]"
  | .obj members => "\x7b" ++ ",".intercalate (compactMembers members) ++ "\x7d"

/-- The texts of the items of an array. -/
def compactItems : List Json → List String
  | [] => []
  | j :: rest => compact j :: compactItems rest

/-- The texts of the members of an object. -/
def compactMembers : List (String × Json) → List String
  | [] => []
  | (key, j) :: rest => (Quoted.text key ++ ":" ++ compact j) :: compactMembers rest

end

end Json

end StepGraph
