/-!
# Quoted strings

A string of a document stands between quotes.  Quotes, backslashes and control characters in it are
escaped; other characters may be.

There are two groups.

* Writing.  `Quoted.text` escapes no more than it must.
* Reading.  `scanUnits?` takes the code points of a string with its escapes resolved one by one, and
  `joinSurrogates?` puts surrogate pairs together.  Half a pair denotes no text.
-/

namespace StepGraph.Quoted

/-! ## Writing -/

/-- The hexadecimal digit of a number below sixteen. -/
def hexDigit (n : Nat) : Char := (Nat.toDigits 16 n).headD '0'

/-- A character of a string: quote, backslash and control characters are escaped, all else stands as
it is. -/
def escape (c : Char) : List Char :=
  match c.toNat with
  | 0x22 => ['\\', '"']
  | 0x5c => ['\\', '\\']
  | 0x08 => ['\\', 'b']
  | 0x09 => ['\\', 't']
  | 0x0a => ['\\', 'n']
  | 0x0c => ['\\', 'f']
  | 0x0d => ['\\', 'r']
  | n => if n < 0x20 then ['\\', 'u', '0', '0', hexDigit (n / 16), hexDigit (n % 16)] else [c]

/-- A string between quotes. -/
def text (s : String) : String :=
  String.ofList ('"' :: (s.toList.flatMap escape ++ ['"']))

/-! ## Reading -/

/-- The value of a hexadecimal digit. -/
def hexDigit? (c : Char) : Option Nat :=
  if '0' ≤ c ∧ c ≤ '9' then some (c.toNat - '0'.toNat)
  else if 'a' ≤ c ∧ c ≤ 'f' then some (c.toNat - 'a'.toNat + 10)
  else if 'A' ≤ c ∧ c ≤ 'F' then some (c.toNat - 'A'.toNat + 10)
  else none

/-- The value of four hexadecimal digits. -/
def hexUnit? (a b c d : Char) : Option Nat := do
  some (((← hexDigit? a) * 16 + (← hexDigit? b)) * 256 + (← hexDigit? c) * 16 + (← hexDigit? d))

/-- The code point of a short escape. -/
def escaped? : Char → Option Nat
  | '"' => some 0x22
  | '\\' => some 0x5c
  | '/' => some 0x2f
  | 'b' => some 0x08
  | 'f' => some 0x0c
  | 'n' => some 0x0a
  | 'r' => some 0x0d
  | 't' => some 0x09
  | _ => none

/-- Takes the rest of a string after its opening quote: its code points, in which a surrogate stands
for an escape of that number, and the text after the closing quote.  Control characters must be
escaped. -/
def scanUnits? : List Char → Option (List Nat × List Char)
  | [] => none
  | '"' :: rest => some ([], rest)
  | '\\' :: 'u' :: a :: b :: c :: d :: rest => do
    let unit ← hexUnit? a b c d
    let (units, rest') ← scanUnits? rest
    some (unit :: units, rest')
  | '\\' :: c :: rest => do
    let unit ← escaped? c
    let (units, rest') ← scanUnits? rest
    some (unit :: units, rest')
  | c :: rest =>
    if c.toNat < 0x20 then none
    else (scanUnits? rest).map fun (units, rest') => (c.toNat :: units, rest')

theorem scanUnits?_length_lt {cs rest : List Char} {units : List Nat}
    (h : scanUnits? cs = some (units, rest)) : rest.length < cs.length := by
  fun_induction scanUnits? cs generalizing units rest with
  | case1 => simp at h
  | case2 tail => simp_all
  | case3 a b c d tail ih =>
    simp only [Option.bind_eq_bind, Option.bind_eq_some_iff, Option.some.injEq,
      Prod.mk.injEq] at h
    obtain ⟨_, _, ⟨_, _⟩, hs, _, rfl⟩ := h
    have := ih hs
    simp only [List.length_cons]
    omega
  | case4 c tail _ ih =>
    simp only [Option.bind_eq_bind, Option.bind_eq_some_iff, Option.some.injEq,
      Prod.mk.injEq] at h
    obtain ⟨_, _, ⟨_, _⟩, hs, _, rfl⟩ := h
    have := ih hs
    simp only [List.length_cons]
    omega
  | case5 => simp at h
  | case6 c tail _ _ _ _ ih =>
    obtain ⟨⟨_, _⟩, hs, he⟩ := Option.map_eq_some_iff.1 h
    simp only [Prod.mk.injEq] at he
    have := ih hs
    rw [← he.2, List.length_cons]
    omega

/-- The text of code points in which a surrogate pair stands for one character.  Half a pair denotes
no text. -/
def joinSurrogates? : List Nat → Option (List Char)
  | [] => some []
  | unit :: rest =>
    if 0xd800 ≤ unit ∧ unit < 0xdc00 then
      match rest with
      | low :: rest =>
        if 0xdc00 ≤ low ∧ low < 0xe000 then
          (joinSurrogates? rest).map
            (Char.ofNat (0x10000 + (unit - 0xd800) * 0x400 + (low - 0xdc00)) :: ·)
        else none
      | [] => none
    else if 0xdc00 ≤ unit ∧ unit < 0xe000 then none
    else (joinSurrogates? rest).map (Char.ofNat unit :: ·)

/-- Takes the rest of a string after its opening quote.  The text is none when the string is well
formed and denotes none. -/
def scan? (cs : List Char) : Option (Option String × List Char) :=
  (scanUnits? cs).map fun (units, rest) => ((joinSurrogates? units).map String.ofList, rest)

theorem scan?_length_lt {cs rest : List Char} {text : Option String}
    (h : scan? cs = some (text, rest)) : rest.length < cs.length := by
  obtain ⟨⟨_, _⟩, hs, he⟩ := Option.map_eq_some_iff.1 h
  simp only [Prod.mk.injEq] at he
  exact he.2 ▸ scanUnits?_length_lt hs

end StepGraph.Quoted
