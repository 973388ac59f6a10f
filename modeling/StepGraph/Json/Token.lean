import StepGraph.Json.Basic
import StepGraph.Json.Quoted

/-!
# Tokens of a document

`Token.ofText?` cuts a text into tokens.  White space is space, tab, line feed and carriage return;
what is neither white space nor a token makes the text unreadable.  `Token.scan?` takes one token
off the front of a text; it takes at least one character (`scan?_length_lt`), so cutting ends.
-/

namespace StepGraph

/-- A token of a document. -/
inductive Token where
  | openArr
  | closeArr
  | openObj
  | closeObj
  | colon
  | comma
  /-- A string; none when it denotes no text. -/
  | text (value : Option String)
  /-- A number or a literal name. -/
  | scalar (value : Json)

namespace Token

/-- White space between tokens. -/
def isSpace (c : Char) : Bool := c == ' ' || c == '\t' || c == '\n' || c == '\r'

/-- Takes a number; one that denotes none is unreadable. -/
def scanNumber? (cs : List Char) : Option (Token × List Char) :=
  (Numeral.Literal.scan? cs).map fun (literal, rest) =>
    (.scalar ((literal.number?.map Json.num).getD .unreadable), rest)

/-- Takes one token off the front of a text. -/
def scan? : List Char → Option (Token × List Char)
  | [] => none
  | '[' :: rest => some (.openArr, rest)
  | ']' :: rest => some (.closeArr, rest)
  | '{' :: rest => some (.openObj, rest)
  | '}' :: rest => some (.closeObj, rest)
  | ':' :: rest => some (.colon, rest)
  | ',' :: rest => some (.comma, rest)
  | '"' :: rest => (Quoted.scan? rest).map fun (value, rest') => (.text value, rest')
  | 'n' :: 'u' :: 'l' :: 'l' :: rest => some (.scalar .null, rest)
  | 't' :: 'r' :: 'u' :: 'e' :: rest => some (.scalar (.bool true), rest)
  | 'f' :: 'a' :: 'l' :: 's' :: 'e' :: rest => some (.scalar (.bool false), rest)
  | cs => scanNumber? cs

theorem scanNumber?_length_lt {cs rest : List Char} {token : Token}
    (h : scanNumber? cs = some (token, rest)) : rest.length < cs.length := by
  obtain ⟨⟨_, _⟩, hs, he⟩ := Option.map_eq_some_iff.1 h
  simp only [Prod.mk.injEq] at he
  exact he.2 ▸ Numeral.Literal.scan?_length_lt hs

/-- A token takes at least one character. -/
theorem scan?_length_lt {cs rest : List Char} {token : Token}
    (h : scan? cs = some (token, rest)) : rest.length < cs.length := by
  rw [scan?.eq_def] at h
  split at h
  case h_8 =>
    obtain ⟨⟨_, _⟩, hs, he⟩ := Option.map_eq_some_iff.1 h
    simp only [Prod.mk.injEq] at he
    have := Quoted.scan?_length_lt hs
    rw [← he.2, List.length_cons]
    omega
  case h_12 => exact scanNumber?_length_lt h
  case h_1 => simp at h
  all_goals
    simp only [Option.some.injEq, Prod.mk.injEq] at h
    simp only [← h.2, List.length_cons]
    omega

/-- The tokens of a text. -/
def ofText? : List Char → Option (List Token)
  | [] => some []
  | c :: cs =>
    if isSpace c then ofText? cs
    else
      match _h : scan? (c :: cs) with
      | none => none
      | some (token, rest) => (ofText? rest).map (token :: ·)
termination_by cs => cs.length
decreasing_by
  · simp
  · exact scan?_length_lt _h

end Token

end StepGraph
