import Mathlib.Data.List.Basic
import Mathlib.Data.Nat.Digits.Defs
import StepGraph.Graph.Handle

/-!
# Branch handles

The handle written for an index is read back as the index, as long as the index has 64 bits.  The
converse does not hold: a leading plus sign or leading zeros give other spellings of the same index.
`Handle.Spells` lists them, and a handle is read as an index exactly when it is one of them.

There are three groups.

* Digits.  `scanDigits?_eq_some_nil_iff` says which texts are scanned to their end, and
  `ofDigits_eq` what number their digits make.
* Spellings of a number.  `indexOfText?_eq_some_iff` says that those of 64 bits are read.
* Handles.  `branchIndex?_branch` says that what is written is read back, and `branchIndex?_lt` that
  what is read has 64 bits.  `branchIndex?_iff_spells` puts it all together.
-/

namespace StepGraph

/-! ## Digits -/

namespace Numeral

theorem digit?_of_isDigit {c : Char} (h : c.isDigit = true) :
    digit? c = some (c.toNat - '0'.toNat) := by
  have hbounds : '0' ≤ c ∧ c ≤ '9' := by
    simpa [Char.isDigit, Char.le_def] using h
  rw [digit?, if_pos hbounds]

/-- A text of digits is scanned to its end. -/
theorem scanDigits_of_forall_isDigit {cs : List Char} (h : ∀ c ∈ cs, c.isDigit = true) :
    scanDigits cs = (cs.map fun c => c.toNat - '0'.toNat, []) := by
  induction cs with
  | nil => rfl
  | cons c rest ih =>
    have hc : c.isDigit = true := h c List.mem_cons_self
    have hrest := ih fun d hd => h d (List.mem_cons_of_mem c hd)
    simp only [scanDigits, digit?_of_isDigit hc, hrest, List.map_cons]

theorem scanDigits?_of_forall_isDigit {cs : List Char} (h : ∀ c ∈ cs, c.isDigit = true)
    (hne : cs ≠ []) : scanDigits? cs = some (cs.map fun c => c.toNat - '0'.toNat, []) := by
  cases cs with
  | nil => exact absurd rfl hne
  | cons c rest => simp only [scanDigits?, scanDigits_of_forall_isDigit h, List.map_cons]

/-- What is scanned is a text of digits, and the rest is what comes after it. -/
theorem exists_scanDigits_eq (cs : List Char) :
    ∃ front, (∀ c ∈ front, c.isDigit = true) ∧ cs = front ++ (scanDigits cs).2 ∧
      (scanDigits cs).1 = front.map fun c => c.toNat - '0'.toNat := by
  induction cs with
  | nil => exact ⟨[], by simp, rfl, rfl⟩
  | cons c rest ih =>
    obtain ⟨front, hdigits, hrest, hvalues⟩ := ih
    rw [scanDigits]
    cases hc : digit? c with
    | none => exact ⟨[], by simp, rfl, rfl⟩
    | some d =>
      rw [digit?, Option.ite_none_right_eq_some, Option.some.injEq] at hc
      obtain ⟨hbounds, rfl⟩ := hc
      have hdigit : c.isDigit = true := by simpa [Char.isDigit, Char.le_def] using hbounds
      refine ⟨c :: front, List.forall_mem_cons.2 ⟨hdigit, hdigits⟩, ?_, ?_⟩
      · rw [List.cons_append]
        exact congrArg (c :: ·) hrest
      · rw [List.map_cons, ← hvalues]

/-- The texts that are scanned to their end are those of digits, of which there is at least one. -/
theorem scanDigits?_eq_some_nil_iff {cs : List Char} {ds : List Nat} :
    scanDigits? cs = some (ds, []) ↔
      cs ≠ [] ∧ (∀ c ∈ cs, c.isDigit = true) ∧ ds = cs.map fun c => c.toNat - '0'.toNat := by
  constructor
  · intro h
    have hlength := scanDigits?_length_lt h
    obtain ⟨front, hdigits, hcs, hvalues⟩ := exists_scanDigits_eq cs
    have hscan : scanDigits cs = (ds, []) := by
      rw [scanDigits?] at h
      split at h
      · cases h
      · rename_i hscan _
        exact Option.some.inj h
    rw [hscan, List.append_nil] at hcs
    rw [hscan] at hvalues
    subst hcs
    exact ⟨List.ne_nil_of_length_pos hlength, hdigits, hvalues⟩
  · rintro ⟨hne, hdigits, rfl⟩
    exact scanDigits?_of_forall_isDigit hdigits hne

/-- Digits make the number whose decimal expansion they are, the ones last. -/
theorem ofDigits_eq (ds : List Nat) : ofDigits ds = Nat.ofDigits 10 ds.reverse := by
  rw [Nat.ofDigits_eq_foldr, List.foldr_reverse, ofDigits]
  simp only [Nat.cast_id, Nat.add_comm]

/-- The digits written for a number are those of the number. -/
theorem ofDigits_toDigits (n : Nat) :
    ofDigits ((Nat.toDigits 10 n).map fun c => c.toNat - '0'.toNat) = n := by
  rw [ofDigits, List.foldl_map]
  show Nat.ofDigitChars 10 (Nat.toDigits 10 n) 0 = n
  exact Nat.ofDigitChars_ten_toDigits

end Numeral

/-! ## Spellings of a number -/

namespace Handle

/-- The number that digit characters stand for, the ones last. -/
def decimalValue (digits : List Char) : Nat :=
  Nat.ofDigits 10 (digits.map fun c => c.toNat - '0'.toNat).reverse

/-- The spellings of a number: an optional plus sign and then digits, of which there is at least
one. -/
def IsSpelling (cs : List Char) (n : Nat) : Prop :=
  ∃ sign digits : List Char, (sign = [] ∨ sign = ['+']) ∧ digits ≠ [] ∧
    (∀ c ∈ digits, c.isDigit = true) ∧ cs = sign ++ digits ∧ decimalValue digits = n

/-- What is written for a number is one of its spellings. -/
theorem isSpelling_toDigits (n : Nat) : IsSpelling (Nat.toDigits 10 n) n := by
  refine ⟨[], Nat.toDigits 10 n, Or.inl rfl, Nat.toDigits_ne_nil, fun c hc => ?_, rfl, ?_⟩
  · exact Nat.isDigit_of_mem_toDigits (by decide) (by decide) hc
  · rw [decimalValue, ← Numeral.ofDigits_eq, Numeral.ofDigits_toDigits]

/-- A spelling of a number is read as the number if that has 64 bits, and is not read otherwise. -/
theorem indexOfText?_of_isSpelling {cs : List Char} {n : Nat} (h : IsSpelling cs n) :
    indexOfText? cs = if n < indexBound then some n else none := by
  obtain ⟨sign, digits, hsign, hne, hdigits, rfl, rfl⟩ := h
  have hscan := Numeral.scanDigits?_of_forall_isDigit hdigits hne
  rw [decimalValue, ← Numeral.ofDigits_eq]
  unfold indexOfText?
  rcases hsign with rfl | rfl
  · rw [List.nil_append]
    split
    · -- A plus sign is no digit.
      exact absurd (hdigits '+' List.mem_cons_self) (by decide)
    · simp only [hscan]
  · simp only [List.singleton_append, hscan]

/-- What is read as a number is a spelling of it, and of no more than 64 bits. -/
theorem indexOfText?_eq_some_iff {cs : List Char} {i : Nat} :
    indexOfText? cs = some i ↔ IsSpelling cs i ∧ i < indexBound := by
  constructor
  · intro h
    unfold indexOfText? at h
    extract_lets digits at h
    split at h
    · rename_i ds hscan
      obtain ⟨hne, hdigits, rfl⟩ := Numeral.scanDigits?_eq_some_nil_iff.1 hscan
      rw [Option.ite_none_right_eq_some, Option.some.injEq, Numeral.ofDigits_eq] at h
      obtain ⟨hlt, hvalue⟩ := h
      refine ⟨?_, by rwa [← hvalue]⟩
      have hsign : cs = '+' :: digits ∨ cs = digits := by
        unfold digits
        split
        · exact Or.inl rfl
        · exact Or.inr rfl
      rcases hsign with hsign | hsign
      · exact ⟨['+'], digits, Or.inr rfl, hne, hdigits, hsign, hvalue⟩
      · exact ⟨[], digits, Or.inl rfl, hne, hdigits, hsign, hvalue⟩
    · cases h
  · rintro ⟨hspelling, hlt⟩
    rw [indexOfText?_of_isSpelling hspelling, if_pos hlt]

/-! ## Handles -/

/-- The handles of a number: `branch-` and a spelling of the number. -/
def Spells (handle : String) (n : Nat) : Prop :=
  ∃ cs : List Char, handle = "branch-" ++ String.ofList cs ∧ IsSpelling cs n

theorem toList_branch_append (cs : List Char) :
    ("branch-" ++ String.ofList cs).toList = branchStart ++ cs := by
  rw [String.toList_append, String.toList_ofList (l := cs)]
  rfl

/-- A handle is read by what follows `branch-`. -/
theorem branchIndex?_append (cs : List Char) :
    branchIndex? ("branch-" ++ String.ofList cs) = indexOfText? cs := by
  rw [branchIndex?, toList_branch_append, List.isPrefixOf?_eq_some_iff_append_eq.2 rfl,
    Option.bind_some]

/-- What is read as an index starts with `branch-`. -/
theorem exists_eq_append_of_branchIndex? {handle : String} {i : Nat}
    (h : branchIndex? handle = some i) :
    ∃ cs : List Char, handle = "branch-" ++ String.ofList cs := by
  obtain ⟨cs, hprefix, -⟩ := Option.bind_eq_some_iff.1 h
  refine ⟨cs, String.toList_inj.1 ?_⟩
  rw [toList_branch_append]
  exact (List.isPrefixOf?_eq_some_iff_append_eq.1 hprefix).symm

theorem branchIndex?_eq_some_iff_spells {handle : String} {i : Nat} :
    branchIndex? handle = some i ↔ Spells handle i ∧ i < indexBound := by
  constructor
  · intro h
    obtain ⟨cs, rfl⟩ := exists_eq_append_of_branchIndex? h
    rw [branchIndex?_append, indexOfText?_eq_some_iff] at h
    exact ⟨⟨cs, rfl, h.1⟩, h.2⟩
  · rintro ⟨⟨cs, rfl, hspelling⟩, hlt⟩
    rw [branchIndex?_append, indexOfText?_eq_some_iff]
    exact ⟨hspelling, hlt⟩

theorem spells_branch (i : Nat) : Spells (branch i) i := by
  refine ⟨Nat.toDigits 10 i, String.toList_inj.1 ?_, isSpelling_toDigits i⟩
  rw [branch, toList_branch_append, String.toList_ofList]

/-- The handle written for an index is read back. -/
theorem branchIndex?_branch {i : Nat} (h : i < indexBound) : branchIndex? (branch i) = some i :=
  branchIndex?_eq_some_iff_spells.2 ⟨spells_branch i, h⟩

/-- Paths have different handles, whatever the size of their indices. -/
theorem branch_injective : Function.Injective branch := by
  intro i j h
  have hdigits : Nat.toDigits 10 i = Nat.toDigits 10 j :=
    List.append_cancel_left (String.ofList_injective h)
  have hdecoded := congrArg (fun cs : List Char =>
    Numeral.ofDigits (cs.map fun c => c.toNat - '0'.toNat)) hdigits
  simpa only [Numeral.ofDigits_toDigits] using hdecoded

/-- An index that is read has 64 bits. -/
theorem branchIndex?_lt {handle : String} {i : Nat} (h : branchIndex? handle = some i) :
    i < indexBound := (branchIndex?_eq_some_iff_spells.1 h).2

/-- A handle is read as an index exactly when it is `branch-`, an optional plus sign and decimal
digits whose number is the index and has 64 bits.  So the handle written for an index is read back,
handles of different indices are different, and no other handle is read. -/
theorem branchIndex?_iff_spells :
    (∀ (handle : String) (i : Nat), i < 2 ^ 64 →
        (branchIndex? handle = some i ↔ Spells handle i)) ∧
      (∀ (handle : String) (n : Nat), Spells handle n → 2 ^ 64 ≤ n →
        branchIndex? handle = none) ∧
      (∀ i < 2 ^ 64, branchIndex? (branch i) = some i) ∧ Function.Injective branch ∧
      branchIndex? approve = none ∧ branchIndex? reject = none ∧
      ∀ handle : String, ¬"branch-".toList <+: handle.toList → branchIndex? handle = none := by
  have hbound : indexBound = 2 ^ 64 := by decide
  refine ⟨fun handle i hi => ?_, fun handle n hspells hn => ?_, fun i hi => ?_, branch_injective,
    by decide, by decide, fun handle hprefix => ?_⟩
  · rw [branchIndex?_eq_some_iff_spells, hbound, and_iff_left hi]
  · obtain ⟨cs, rfl, hspelling⟩ := hspells
    rw [branchIndex?_append, indexOfText?_of_isSpelling hspelling, hbound, if_neg (not_lt.2 hn)]
  · exact branchIndex?_branch (hbound ▸ hi)
  · rw [Option.eq_none_iff_forall_ne_some]
    intro i h
    obtain ⟨cs, rfl⟩ := exists_eq_append_of_branchIndex? h
    exact hprefix (String.toList_append ▸ List.prefix_append _ _)

/-- A plus sign and leading zeros are passed over; a second sign is not, and neither is a minus. -/
example : branchIndex? "branch-+007" = some 7 ∧ branchIndex? "branch-++7" = none ∧
    branchIndex? "branch--7" = none ∧ branchIndex? "branch-18446744073709551616" = none := by
  decide

end Handle

end StepGraph
