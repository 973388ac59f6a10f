import StepGraph.Json.Record
import StepGraph.Proofs.List

/-!
# Records in their documents

A document that names the fields of a record in the order of their declaration, some of them left
out, is taken apart into these fields.  Members with other keys may follow.

There are two groups.

* Look-up of a member in a list that is put together from parts.
* Records.  `exists_ofJson?_eq_some` takes a document apart, and the lemmas after it read the
  fields.
-/

namespace StepGraph

variable {β : Type}

/-! ## Look-up -/

@[simp] theorem lookupMember_nil (key : String) :
    lookupMember key ([] : List (String × β)) = none := rfl

theorem lookupMember_cons (key k : String) (value : β) (members : List (String × β)) :
    lookupMember key ((k, value) :: members) =
      if k = key then some value else lookupMember key members := by
  unfold lookupMember
  rw [List.find?_cons]
  by_cases h : k = key
  · simp [h]
  · simp [h, beq_eq_false_iff_ne.2 h]

theorem lookupMember_append (key : String) (members others : List (String × β)) :
    lookupMember key (members ++ others) =
      (lookupMember key members).or (lookupMember key others) := by
  unfold lookupMember
  rw [List.find?_append]
  cases members.find? (·.1 == key) <;> rfl

/-! ## Records -/

/-- The items of an array are read back when each of them is. -/
theorem Json.listOf?_map {read : Json → Option β} {write : β → Json} {items : List β}
    (hread : ∀ b ∈ items, read (write b) = some b) :
    Json.listOf? read (.arr (items.map write)) = some items := by
  rw [listOf?, mapM_eq_some_iff, List.forall₂_map_left_iff, List.forall₂_same]
  exact hread

namespace Record

/-- Members with the keys of fields, each once, are the fields of a record, and members with other
keys do not matter. -/
theorem ofMembers?_append {keys : List String} (hkeys : keys.Nodup)
    {members others : List (String × Json)} (hmembers : (members.map (·.1)).Sublist keys)
    (hothers : ∀ m ∈ others, m.1 ∉ keys) :
    ofMembers? keys (members ++ others) = some ⟨members, false⟩ := by
  have hknown : (members ++ others).filter (fun m => keys.contains m.1) = members := by
    rw [List.filter_append, List.filter_eq_self.2, List.filter_eq_nil_iff.2, List.append_nil]
    · simpa using hothers
    · intro m hm
      simpa using hmembers.subset (List.mem_map_of_mem hm)
  rw [ofMembers?, hknown]
  exact if_pos (hkeys.sublist hmembers)

/-- A document that names some of the fields in their order. -/
theorem exists_ofJson?_eq_some {j : Json} {members : List (String × Json)}
    (hj : j = .obj members) {keys : List String} (hkeys : keys.Nodup)
    (hmembers : (members.map (·.1)).Sublist keys) :
    ∃ r, ofJson? keys j = some r ∧ ∀ key, r.get? key = lookupMember key members := by
  have h := ofMembers?_append hkeys hmembers (List.forall_mem_nil _)
  rw [List.append_nil] at h
  subst hj
  exact ⟨⟨members, false⟩, h, fun _ => rfl⟩

variable {r : Record} {key : String} {read : Json → Option β}

/-- An optional field is read as present when the document gives something other than null. -/
theorem optional_cases {value : Option β} (h : r.optional key read = some value) :
    value = none ∧ (r.get? key = none ∨ r.get? key = some .null) ∨
      ∃ j b, r.get? key = some j ∧ j ≠ .null ∧ read j = some b ∧ value = some b := by
  unfold optional at h
  split at h
  · rename_i hget
    exact Or.inl ⟨(Option.some.inj h).symm, Or.inl hget⟩
  · rename_i hget
    exact Or.inl ⟨(Option.some.inj h).symm, Or.inr hget⟩
  · rename_i j hnull hget
    obtain ⟨b, hb, rfl⟩ := Option.map_eq_some_iff.1 h
    exact Or.inr ⟨j, b, hget, fun h => hnull h, hb, rfl⟩

/-- A part that is left out when it is absent is read back. -/
theorem optional_of_map {write : β → Json} {value : Option β} (h : r.get? key = value.map write)
    (hread : ∀ b, value = some b → write b ≠ .null ∧ read (write b) = some b) :
    r.optional key read = some value := by
  cases value with
  | none => simp [optional, h]
  | some b =>
    obtain ⟨hnull, hb⟩ := hread b rfl
    rw [optional, h, Option.map_some]
    split <;> simp_all

/-- A text that is left out when it is absent is read back. -/
theorem optional_str {text : Option String} (h : r.get? key = text.map .str) :
    r.optional key Json.string? = some text := by
  rw [optional, h]
  cases text <;> rfl

/-- A text that is null when it is absent is read back. -/
theorem optional_ofString? {text : Option String} (h : r.get? key = some (.ofString? text)) :
    r.optional key Json.string? = some text := by
  rw [optional, h]
  cases text <;> rfl

/-- A text that is null when it is absent is read back, also where it may not be left out. -/
theorem nullable_ofString? {text : Option String} (h : r.get? key = some (.ofString? text)) :
    r.nullable key Json.string? = some text := by
  rw [nullable, h, Option.isNone_some, Bool.and_false]
  exact optional_ofString? h

/-- A list of which every item is read back is read back. -/
theorem list_of_map {write : β → Json} {items : List β}
    (h : r.get? key = some (.arr (items.map write)))
    (hread : ∀ b ∈ items, read (write b) = some b) : r.list key read = some items := by
  simp only [list, withDefault, h]
  exact Json.listOf?_map hread

/-- A list that must be there is read back. -/
theorem required_of_map {write : β → Json} {items : List β}
    (h : r.get? key = some (.arr (items.map write)))
    (hread : ∀ b ∈ items, read (write b) = some b) :
    r.required key (Json.listOf? read) = some items := by
  rw [required, h]
  exact Json.listOf?_map hread

end Record

end StepGraph
