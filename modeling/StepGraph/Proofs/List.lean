import Mathlib.Data.List.Forall2
import Mathlib.Data.List.Nodup

/-!
# Facts about lists

Facts about the list operations that the library uses and that the library of lists leaves open.
-/

namespace StepGraph

variable {β : Type}

/-- What is left without duplicates has none. -/
theorem nodup_eraseDups [DecidableEq β] (values : List β) : values.eraseDups.Nodup := by
  induction hlength : values.length using Nat.strongRecOn generalizing values with
  | ind length ih =>
    cases values with
    | nil => simp
    | cons b rest =>
      have hle : (rest.filter fun c => !c == b).length ≤ rest.length := List.length_filter_le _ _
      rw [List.length_cons] at hlength
      rw [List.eraseDups_cons, List.nodup_cons]
      refine ⟨?_, ih _ (by omega) _ rfl⟩
      simp

/-- One item at most is related in order to no other. -/
theorem pairwise_of_length_le_one {values : List β} (h : values.length ≤ 1) (r : β → β → Prop) :
    values.Pairwise r := by
  match values with
  | [] => exact .nil
  | [b] => exact List.pairwise_singleton r b
  | _ :: _ :: _ => simp at h

/-- A change of an item that a function does not see leaves its list as it is. -/
theorem map_modify_of_forall_eq {γ : Type} {f : β → β} {value : β → γ}
    (h : ∀ b, value (f b) = value b) (items : List β) (i : Nat) :
    (items.modify i f).map value = items.map value := by
  refine List.ext_getElem? fun j => ?_
  rw [List.getElem?_map, List.getElem?_map, List.getElem?_modify]
  cases items[j]? with
  | none => rfl
  | some b => by_cases hj : i = j <;> simp [hj, h]

/-- An item is the only one with its key where keys are distinct. -/
theorem filter_eq_singleton {γ : Type} [DecidableEq γ] {key : β → γ} {items : List β}
    (hdistinct : (items.map key).Nodup) {b : β} (hb : b ∈ items) :
    items.filter (key · == key b) = [b] := by
  induction items with
  | nil => cases hb
  | cons first rest ih =>
    rw [List.map_cons, List.nodup_cons] at hdistinct
    rcases List.mem_cons.1 hb with rfl | hb
    · rw [List.filter_cons_of_pos (by simp), List.filter_eq_nil_iff.2]
      intro c hc heq
      exact hdistinct.1 (beq_iff_eq.1 heq ▸ List.mem_map_of_mem hc)
    · rw [List.filter_cons_of_neg, ih hdistinct.2 hb]
      intro heq
      exact hdistinct.1 (beq_iff_eq.1 heq ▸ List.mem_map_of_mem hb)

/-- Where keys are distinct, the first item of a key is the only one. -/
theorem eraseP_eq_filter {γ : Type} [DecidableEq γ] {key : β → γ} {items : List β}
    (hdistinct : (items.map key).Nodup) (k : γ) :
    items.eraseP (key · == k) = items.filter (key · != k) := by
  induction items with
  | nil => rfl
  | cons b rest ih =>
    obtain ⟨hb, hrest⟩ := List.nodup_cons.1 hdistinct
    by_cases hkey : key b = k
    · have hothers : ∀ c ∈ rest, (key c != k) = true := by
        intro c hc
        rw [bne_iff_ne]
        intro hsame
        exact hb (hkey.trans hsame.symm ▸ List.mem_map_of_mem hc)
      rw [List.eraseP_cons_of_pos (by simpa using hkey),
        List.filter_cons_of_neg (by simpa using hkey), List.filter_eq_self.2 hothers]
    · rw [List.eraseP_cons_of_neg (by simpa using hkey),
        List.filter_cons_of_pos (by simpa using hkey), ih hrest]

/-- Items are read together when each of them is read. -/
theorem mapM_eq_some_iff {γ : Type} {read : β → Option γ} {items : List β} {values : List γ} :
    items.mapM read = some values ↔ List.Forall₂ (fun b c => read b = some c) items values := by
  induction items generalizing values with
  | nil => simp [eq_comm]
  | cons b rest ih =>
    simp only [List.mapM_cons, Option.bind_eq_bind, Option.bind_eq_some_iff, Option.pure_def,
      Option.some.injEq, List.forall₂_cons_left_iff, ih]
    constructor
    · rintro ⟨c, hc, cs, hcs, rfl⟩
      exact ⟨c, cs, hc, hcs, rfl⟩
    · rintro ⟨c, cs, hc, hcs, rfl⟩
      exact ⟨c, hc, cs, hcs, rfl⟩

/-- Of two lists that are related in order, one has an item with a property when the other has. -/
theorem exists_mem_iff_of_forall₂ {γ : Type} {r : β → γ → Prop} {items : List β} {values : List γ}
    (h : List.Forall₂ r items values) {p : β → Prop} {q : γ → Prop}
    (hpq : ∀ b c, r b c → (p b ↔ q c)) : (∃ b ∈ items, p b) ↔ ∃ c ∈ values, q c := by
  induction h with
  | nil => simp
  | cons hr _ ih => rw [List.exists_mem_cons_iff, List.exists_mem_cons_iff, ih, hpq _ _ hr]

/-- What is the same for items that are related makes the same list of related lists. -/
theorem map_eq_of_forall₂ {γ δ : Type} {r : β → γ → Prop} {items : List β} {values : List γ}
    (h : List.Forall₂ r items values) {f : β → δ} {f' : γ → δ} (hf : ∀ b c, r b c → f b = f' c) :
    items.map f = values.map f' := by
  induction h with
  | nil => rfl
  | cons hr _ ih => rw [List.map_cons, List.map_cons, hf _ _ hr, ih]

/-- Of two lists that are related in order, the first items with a property are related. -/
theorem rel_find?_of_forall₂ {γ : Type} {r : β → γ → Prop} {items : List β} {values : List γ}
    (h : List.Forall₂ r items values) {p : β → Bool} {q : γ → Bool}
    (hpq : ∀ b c, r b c → p b = q c) : Option.Rel r (items.find? p) (values.find? q) := by
  induction h with
  | nil => exact .none
  | @cons b c _ _ hr _ ih =>
    rw [List.find?_cons, List.find?_cons, hpq b c hr]
    cases q c with
    | true => exact .some hr
    | false => exact ih

/-- Where one item at most has a property, a search finds the same in every order. -/
theorem find?_eq_of_perm {items items' : List β} (h : items.Perm items') {p : β → Bool}
    (hone : items.Pairwise fun a b => p a = true → p b = false) :
    items.find? p = items'.find? p := by
  have hnone : (items.filter p).Pairwise fun _ _ => False := by
    refine List.pairwise_filter.2 (hone.imp fun hab ha hb => ?_)
    rw [hab ha] at hb
    cases hb
  have hnone' : (items'.filter p).Pairwise fun _ _ => False :=
    ((h.filter p).pairwise_iff id).1 hnone
  have hsame : items.filter p = items'.filter p :=
    (h.filter p).eq_of_pairwise (fun _ _ _ _ hle => hle.elim) hnone hnone'
  rw [← List.head?_filter, hsame, List.head?_filter]

/-- Lists that agree for each key, whatever is between, are permutations of each other. -/
theorem perm_of_filter_key_eq {γ δ : Type} [DecidableEq γ] [DecidableEq δ] {key : β → γ}
    {value : β → δ} {items items' : List β}
    (h : ∀ k, (items.filter (key · == k)).map value = (items'.filter (key · == k)).map value) :
    (items.map fun b => (key b, value b)).Perm (items'.map fun b => (key b, value b)) := by
  have hcount : ∀ (items : List β) (k : γ) (v : δ),
      (items.map fun b => (key b, value b)).count (k, v) =
        ((items.filter (key · == k)).map value).count v := by
    intro items k v
    rw [List.count_eq_countP, List.count_eq_countP, List.countP_map, List.countP_map,
      List.countP_filter]
    refine List.countP_congr fun b _ => ?_
    simp [and_comm]
  exact List.perm_iff_count.2 fun (k, v) => by rw [hcount, hcount, h]

/-- A value that is read with others is read from one of the items. -/
theorem exists_mem_of_mapM_eq_some {γ : Type} {read : β → Option γ} {items : List β}
    {values : List γ} (h : items.mapM read = some values) {c : γ} (hc : c ∈ values) :
    ∃ b ∈ items, read b = some c := by
  rw [mapM_eq_some_iff] at h
  induction h with
  | nil => cases hc
  | cons hread _ ih =>
    rcases List.mem_cons.1 hc with rfl | hc
    · exact ⟨_, List.mem_cons_self, hread⟩
    · obtain ⟨b, hb, hread⟩ := ih hc
      exact ⟨b, List.mem_cons_of_mem _ hb, hread⟩

/-- Lists of parts are read one part after the other, where each list is. -/
theorem mapM_flatMap_of_mapM {γ δ ε : Type} {read : β → Option γ} {inner : δ → Option ε}
    {given : β → List δ} {parts : γ → List ε}
    (hparts : ∀ b c, read b = some c → (given b).mapM inner = some (parts c)) {items : List β}
    {values : List γ} (h : items.mapM read = some values) :
    (items.flatMap given).mapM inner = some (values.flatMap parts) := by
  rw [mapM_eq_some_iff] at h
  induction h with
  | nil => rfl
  | cons hread _ ih =>
    rw [mapM_eq_some_iff] at ih
    rw [List.flatMap_cons, List.flatMap_cons, mapM_eq_some_iff]
    exact List.rel_append (mapM_eq_some_iff.1 (hparts _ _ hread)) ih

/-- Items that are collected key by key are all there, where each key comes once and none is
missing. -/
theorem flatMap_filter_key_perm {γ : Type} [DecidableEq γ] {key : β → γ} {keys : List γ}
    (hkeys : keys.Nodup) {items : List β} (hitems : ∀ b ∈ items, key b ∈ keys) :
    (keys.flatMap fun k => items.filter (key · == k)).Perm items := by
  induction keys generalizing items with
  | nil =>
    have hnil : items = [] := List.eq_nil_iff_forall_not_mem.2 fun b hb => by cases hitems b hb
    simp [hnil]
  | cons first rest ih =>
    obtain ⟨hfirst, hrest⟩ := List.nodup_cons.1 hkeys
    have hothers : ∀ b ∈ items.filter (fun b => !(key b == first)), key b ∈ rest := by
      intro b hb
      obtain ⟨hmem, hne⟩ := List.mem_filter.1 hb
      exact (List.mem_cons.1 (hitems b hmem)).resolve_left (by simpa using hne)
    have hsame : ∀ k ∈ rest, items.filter (key · == k) =
        (items.filter (fun b => !(key b == first))).filter (key · == k) := by
      intro k hk
      rw [List.filter_filter]
      refine List.filter_congr fun b _ => ?_
      by_cases hb : key b = k
      · have hne : k ≠ first := fun heq => hfirst (heq ▸ hk)
        simp [hb, hne]
      · simp [hb]
    rw [List.flatMap_cons, List.flatMap_congr hsame]
    exact ((ih hrest hothers).append_left _).trans (List.filter_append_perm _ items)

end StepGraph
