/-!
# Members in order

A free-form object keeps its members in strictly ascending order of their keys, each key once.
`insertMember` puts a member in its place and replaces the one that has its key, and `sortMembers`
does so for a whole list, so that the last member of a key wins.

There are three groups.

* The order.  `Ascending` is strictly ascending order of keys.
* Insertion.  `ascending_insertMember` keeps the order, and `lookupMember_insertMember` says what
  a look-up finds afterwards.
* Sorting.  `ascending_sortMembers` gives the order, and `sortMembers_eq_self` says that members in
  order are left alone.
-/

namespace StepGraph

variable {α β : Type}

/-! ## The order -/

/-- Keys in strictly ascending order. -/
def Ascending (members : List (String × α)) : Prop :=
  (members.map (·.1)).Pairwise (· < ·)

instance (members : List (String × α)) : Decidable (Ascending members) :=
  inferInstanceAs (Decidable (List.Pairwise _ _))

@[simp] theorem ascending_nil : Ascending ([] : List (String × α)) := by simp [Ascending]

@[simp] theorem ascending_cons {m : String × α} {members : List (String × α)} :
    Ascending (m :: members) ↔ (∀ n ∈ members, m.1 < n.1) ∧ Ascending members := by
  simp [Ascending]

/-- The order looks at keys only. -/
theorem ascending_map_values {f : α → β} {members : List (String × α)} :
    Ascending (members.map fun m => (m.1, f m.2)) ↔ Ascending members := by
  simp [Ascending, Function.comp_def]

/-! ## Insertion -/

/-- Puts a member in its place, instead of the one that has its key. -/
def insertMember (key : String) (value : α) : List (String × α) → List (String × α)
  | [] => [(key, value)]
  | (k, v) :: rest =>
    if key < k then (key, value) :: (k, v) :: rest
    else if key = k then (key, value) :: rest
    else (k, v) :: insertMember key value rest

/-- What an insertion leaves: the new member and old ones. -/
theorem mem_insertMember {key : String} {value : α} {members : List (String × α)}
    {m : String × α} (h : m ∈ insertMember key value members) :
    m = (key, value) ∨ m ∈ members := by
  induction members with
  | nil => simpa [insertMember] using h
  | cons n rest ih =>
    obtain ⟨k, v⟩ := n
    rw [insertMember] at h
    split at h
    · simpa using h
    · split at h
      · rcases List.mem_cons.1 h with h | h
        · exact Or.inl h
        · exact Or.inr (List.mem_cons_of_mem _ h)
      · rcases List.mem_cons.1 h with h | h
        · exact Or.inr (h ▸ List.mem_cons_self)
        · exact (ih h).imp_right (List.mem_cons_of_mem _)

theorem ascending_insertMember {key : String} {value : α} {members : List (String × α)}
    (h : Ascending members) : Ascending (insertMember key value members) := by
  induction members with
  | nil => simp [insertMember]
  | cons n rest ih =>
    obtain ⟨k, v⟩ := n
    rw [ascending_cons] at h
    rw [insertMember]
    split
    · rename_i hlt
      rw [ascending_cons, ascending_cons]
      refine ⟨fun m hm => ?_, h⟩
      rcases List.mem_cons.1 hm with rfl | hm
      · exact hlt
      · exact Std.lt_trans hlt (h.1 m hm)
    · split
      · rename_i heq
        subst heq
        exact ascending_cons.2 h
      · rename_i hlt hne
        refine ascending_cons.2 ⟨fun m hm => ?_, ih h.2⟩
        rcases mem_insertMember hm with rfl | hm
        · exact Std.lt_of_le_of_ne (Std.not_lt.1 hlt) (Ne.symm hne)
        · exact h.1 m hm

/-- A member whose key is beyond all others goes to the end. -/
theorem insertMember_of_forall_lt {key : String} {value : α} {members : List (String × α)}
    (h : ∀ m ∈ members, m.1 < key) :
    insertMember key value members = members ++ [(key, value)] := by
  induction members with
  | nil => simp [insertMember]
  | cons n rest ih =>
    obtain ⟨k, v⟩ := n
    have hk : k < key := h (k, v) List.mem_cons_self
    rw [insertMember, if_neg (Std.not_lt.2 (Std.le_of_lt hk)), if_neg (Std.ne_of_lt hk).symm,
      ih fun m hm => h m (List.mem_cons_of_mem _ hm), List.cons_append]

/-- The value of a key, if it is there. -/
def lookupMember (key : String) (members : List (String × α)) : Option α :=
  (members.find? (·.1 == key)).map (·.2)

/-- After an insertion the key has the new value, and other keys keep theirs. -/
theorem lookupMember_insertMember {key other : String} {value : α} {members : List (String × α)} :
    lookupMember other (insertMember key value members) =
      if key = other then some value else lookupMember other members := by
  induction members with
  | nil => by_cases h : key = other <;> simp [insertMember, lookupMember, h]
  | cons n rest ih =>
    obtain ⟨k, v⟩ := n
    simp only [lookupMember] at ih
    rw [insertMember]
    split
    · by_cases h : key = other <;> simp [lookupMember, h]
    · split
      · rename_i heq
        subst heq
        by_cases h : key = other <;> simp [lookupMember, h]
      · rename_i hne
        by_cases hk : k = other
        · subst hk
          simp [lookupMember, hne]
        · simp [lookupMember, hk, ih]

/-! ## Sorting -/

/-- Members in ascending order; of several with one key the last is kept. -/
def sortMembers (members : List (String × α)) : List (String × α) :=
  members.foldl (fun sorted m => insertMember m.1 m.2 sorted) []

theorem ascending_sortMembers (members : List (String × α)) : Ascending (sortMembers members) := by
  suffices ∀ sorted : List (String × α), Ascending sorted →
      Ascending (members.foldl (fun sorted m => insertMember m.1 m.2 sorted) sorted) from
    this [] ascending_nil
  induction members with
  | nil => exact fun _ h => h
  | cons m rest ih => exact fun _ h => ih _ (ascending_insertMember h)

/-- Every sorted member is one of the given. -/
theorem mem_of_mem_sortMembers {members : List (String × α)} {m : String × α}
    (h : m ∈ sortMembers members) : m ∈ members := by
  suffices ∀ sorted : List (String × α),
      m ∈ members.foldl (fun sorted m => insertMember m.1 m.2 sorted) sorted →
        m ∈ sorted ∨ m ∈ members by
    simpa using this [] h
  clear h
  induction members with
  | nil => exact fun _ h => Or.inl h
  | cons n rest ih =>
    intro sorted h
    rcases ih _ h with h | h
    · rcases mem_insertMember h with rfl | h
      · exact Or.inr List.mem_cons_self
      · exact Or.inl h
    · exact Or.inr (List.mem_cons_of_mem _ h)

/-- Members in order are left alone. -/
theorem sortMembers_eq_self {members : List (String × α)} (h : Ascending members) :
    sortMembers members = members := by
  suffices ∀ sorted : List (String × α), Ascending (sorted ++ members) →
      members.foldl (fun sorted m => insertMember m.1 m.2 sorted) sorted = sorted ++ members from
    this [] h
  clear h
  induction members with
  | nil => simp
  | cons m rest ih =>
    intro sorted hs
    have hlt : ∀ n ∈ sorted, n.1 < m.1 := by
      intro n hn
      simp only [Ascending, List.map_append, List.pairwise_append] at hs
      exact hs.2.2 n.1 (List.mem_map_of_mem hn) m.1 (by simp)
    rw [List.foldl_cons, insertMember_of_forall_lt hlt, ih _ (by simpa using hs)]
    simp

end StepGraph
