import StepGraph.Json.Basic

/-!
# Free-form values

A graph carries values it does not interpret.  They are kept in one form: no unreadable part, and
every object in strictly ascending order of keys.  `Value` is a document in that form, so two values
are equal exactly when they hold the same data, and `Fields` is a free-form object at the top.

There are three groups.

* The form.  `Json.IsCanonical` says what it is and `Json.canonical?` brings a document into it;
  `canonical?_isCanonical` and `canonical?_eq_some_self` say that it does, and does no more.
* `Value`, with the constructors that keep the form.
* `Fields`, with look-up and insertion.
-/

namespace StepGraph

namespace Json

/-! ## The form -/

mutual

/-- No unreadable part, and every object in strictly ascending order of keys. -/
def IsCanonical : Json → Prop
  | .null | .bool _ | .num _ | .str _ => True
  | .arr items => AreCanonical items
  | .obj members => Ascending members ∧ HaveCanonical members
  | .unreadable => False

/-- Every item is canonical. -/
def AreCanonical : List Json → Prop
  | [] => True
  | j :: rest => IsCanonical j ∧ AreCanonical rest

/-- Every member's value is canonical. -/
def HaveCanonical : List (String × Json) → Prop
  | [] => True
  | (_, j) :: rest => IsCanonical j ∧ HaveCanonical rest

end

theorem areCanonical_iff {items : List Json} : AreCanonical items ↔ ∀ j ∈ items, IsCanonical j := by
  induction items with
  | nil => simp [AreCanonical]
  | cons j rest ih => simp [AreCanonical, ih]

theorem haveCanonical_iff {members : List (String × Json)} :
    HaveCanonical members ↔ ∀ m ∈ members, IsCanonical m.2 := by
  induction members with
  | nil => simp [HaveCanonical]
  | cons m rest ih => simp [HaveCanonical, ih]

mutual

/-- The canonical form of a document; of several members with one key the last is kept.  A document
with an unreadable part has none. -/
def canonical? : Json → Option Json
  | .null => some .null
  | .bool value => some (.bool value)
  | .num value => some (.num value)
  | .str value => some (.str value)
  | .arr items => (canonicalItems? items).map .arr
  | .obj members => (canonicalMembers? members).map fun ms => .obj (sortMembers ms)
  | .unreadable => none

/-- The canonical forms of the items of an array. -/
def canonicalItems? : List Json → Option (List Json)
  | [] => some []
  | j :: rest => do some ((← canonical? j) :: (← canonicalItems? rest))

/-- The members of an object with their values in canonical form. -/
def canonicalMembers? : List (String × Json) → Option (List (String × Json))
  | [] => some []
  | (key, j) :: rest => do some ((key, ← canonical? j) :: (← canonicalMembers? rest))

end

mutual

theorem canonical?_isCanonical : ∀ {j k : Json}, j.canonical? = some k → k.IsCanonical
  | .null, _, h | .bool _, _, h | .num _, _, h | .str _, _, h => by
    simp only [canonical?, Option.some.injEq] at h
    subst h
    simp [IsCanonical]
  | .arr items, _, h => by
    obtain ⟨items', h', rfl⟩ := Option.map_eq_some_iff.1 (by simpa only [canonical?] using h)
    exact canonicalItems?_areCanonical h'
  | .obj members, _, h => by
    obtain ⟨members', h', rfl⟩ := Option.map_eq_some_iff.1 (by simpa only [canonical?] using h)
    have := haveCanonical_iff.1 (canonicalMembers?_haveCanonical h')
    exact ⟨ascending_sortMembers _,
      haveCanonical_iff.2 fun m hm => this m (mem_of_mem_sortMembers hm)⟩
  | .unreadable, _, h => by simp [canonical?] at h

theorem canonicalItems?_areCanonical :
    ∀ {js ks : List Json}, canonicalItems? js = some ks → AreCanonical ks
  | [], _, h => by
    simp only [canonicalItems?, Option.some.injEq] at h
    subst h
    simp [AreCanonical]
  | j :: rest, _, h => by
    simp only [canonicalItems?, Option.bind_eq_bind, Option.bind_eq_some_iff,
      Option.some.injEq] at h
    obtain ⟨k, hk, ks, hks, rfl⟩ := h
    exact ⟨canonical?_isCanonical hk, canonicalItems?_areCanonical hks⟩

theorem canonicalMembers?_haveCanonical :
    ∀ {js ks : List (String × Json)}, canonicalMembers? js = some ks → HaveCanonical ks
  | [], _, h => by
    simp only [canonicalMembers?, Option.some.injEq] at h
    subst h
    simp [HaveCanonical]
  | (key, j) :: rest, _, h => by
    simp only [canonicalMembers?, Option.bind_eq_bind, Option.bind_eq_some_iff,
      Option.some.injEq] at h
    obtain ⟨k, hk, ks, hks, rfl⟩ := h
    exact ⟨canonical?_isCanonical hk, canonicalMembers?_haveCanonical hks⟩

end

mutual

/-- A canonical document is its own canonical form. -/
theorem canonical?_eq_some_self : ∀ {j : Json}, j.IsCanonical → j.canonical? = some j
  | .null, _ | .bool _, _ | .num _, _ | .str _, _ => by simp [canonical?]
  | .arr items, h => by
    simp only [canonical?, canonicalItems?_eq_some_self h, Option.map_some]
  | .obj members, h => by
    simp only [canonical?, canonicalMembers?_eq_some_self h.2, Option.map_some,
      sortMembers_eq_self h.1]
  | .unreadable, h => h.elim

theorem canonicalItems?_eq_some_self :
    ∀ {js : List Json}, AreCanonical js → canonicalItems? js = some js
  | [], _ => by simp [canonicalItems?]
  | j :: rest, h => by
    simp [canonicalItems?, canonical?_eq_some_self h.1, canonicalItems?_eq_some_self h.2]

theorem canonicalMembers?_eq_some_self :
    ∀ {js : List (String × Json)}, HaveCanonical js → canonicalMembers? js = some js
  | [], _ => by simp [canonicalMembers?]
  | (key, j) :: rest, h => by
    simp [canonicalMembers?, canonical?_eq_some_self h.1, canonicalMembers?_eq_some_self h.2]

end

end Json

/-! ## Values -/

/-- A free-form value: a document in canonical form. -/
structure Value where
  json : Json
  isCanonical : json.IsCanonical

namespace Value

@[ext] theorem ext {v w : Value} (h : v.json = w.json) : v = w := by
  cases v
  cases w
  simp_all

instance : DecidableEq Value := fun v w =>
  decidable_of_iff (v.json = w.json) ⟨Value.ext, fun h => h ▸ rfl⟩

/-- The value of a document, if no part of it is unreadable. -/
def ofJson? (j : Json) : Option Value :=
  match h : j.canonical? with
  | some k => some ⟨k, Json.canonical?_isCanonical h⟩
  | none => none

/-- Reading a value back gives the value. -/
@[simp] theorem ofJson?_json (v : Value) : ofJson? v.json = some v := by
  have hv := Json.canonical?_eq_some_self v.isCanonical
  rw [ofJson?]
  split
  · rename_i k hk
    exact congrArg some (Value.ext (Option.some.inj (hk.symm.trans hv)))
  · rename_i hk
    rw [hv] at hk
    exact absurd hk (by simp)

/-- The null value. -/
def null : Value := ⟨.null, trivial⟩

/-- A text. -/
def str (s : String) : Value := ⟨.str s, trivial⟩

/-- An integer. -/
def int (n : Int) : Value := ⟨.num (.int n), trivial⟩

/-- An optional text, null when absent. -/
def ofString? : Option String → Value
  | some s => str s
  | none => null

/-- A list of values. -/
def arr (values : List Value) : Value where
  json := .arr (values.map (·.json))
  isCanonical := by
    rw [Json.IsCanonical, Json.areCanonical_iff]
    intro j hj
    obtain ⟨v, _, rfl⟩ := List.mem_map.1 hj
    exact v.isCanonical

end Value

/-! ## Fields -/

/-- A free-form object: values under keys in strictly ascending order. -/
structure Fields where
  members : List (String × Value)
  ascending : Ascending members

namespace Fields

@[ext] theorem ext {f g : Fields} (h : f.members = g.members) : f = g := by
  cases f
  cases g
  simp_all

instance : DecidableEq Fields := fun f g =>
  decidable_of_iff (f.members = g.members) ⟨Fields.ext, fun h => h ▸ rfl⟩

/-- No fields. -/
def empty : Fields := ⟨[], ascending_nil⟩

instance : Inhabited Fields := ⟨empty⟩

/-- Whether there are no fields. -/
def isEmpty (f : Fields) : Bool := f.members.isEmpty

/-- The value under a key. -/
def get? (f : Fields) (key : String) : Option Value := lookupMember key f.members

/-- Whether there is a value under a key. -/
def contains (f : Fields) (key : String) : Bool := (f.get? key).isSome

/-- Puts a value under a key, instead of the one there. -/
def insert (f : Fields) (key : String) (value : Value) : Fields :=
  ⟨insertMember key value f.members, ascending_insertMember f.ascending⟩

@[simp] theorem get?_insert (f : Fields) (key other : String) (value : Value) :
    (f.insert key value).get? other = if key = other then some value else f.get? other :=
  lookupMember_insertMember

/-- The fields of a list; of several values under one key the last is kept. -/
def ofList (members : List (String × Value)) : Fields :=
  ⟨sortMembers members, ascending_sortMembers members⟩

/-- The last value given for a key is the one kept. -/
@[simp] theorem get?_ofList (members : List (String × Value)) (key : String) :
    (ofList members).get? key = members.reverse.lookup key := by
  suffices ∀ sorted : List (String × Value),
      lookupMember key (members.foldl (fun sorted m => insertMember m.1 m.2 sorted) sorted) =
        (members.reverse.lookup key).or (lookupMember key sorted) by
    simpa [get?, ofList, sortMembers, lookupMember] using this []
  induction members with
  | nil => simp
  | cons m rest ih =>
    obtain ⟨k, value⟩ := m
    intro sorted
    rw [List.foldl_cons, ih, lookupMember_insertMember, List.reverse_cons, List.lookup_append]
    by_cases h : k = key
    · subst h
      cases rest.reverse.lookup k <;> simp
    · have hne : (key == k) = false := by simpa using Ne.symm h
      simp [List.lookup_cons, h, hne]

/-- The members as a document has them. -/
def jsonMembers (f : Fields) : List (String × Json) := f.members.map fun m => (m.1, m.2.json)

/-- Reads each member's value. -/
def valuesOf? (members : List (String × Json)) : Option (List (String × Value)) :=
  members.mapM fun m => (Value.ofJson? m.2).map fun v => (m.1, v)

/-- The fields of the members of an object; of several members with one key the last is kept. -/
def ofMembers? (members : List (String × Json)) : Option Fields :=
  (valuesOf? members).map ofList

/-- The fields of an object. -/
def ofJson? : Json → Option Fields
  | .obj members => ofMembers? members
  | _ => none

/-- Reading fields back gives the fields. -/
@[simp] theorem ofMembers?_jsonMembers (f : Fields) : ofMembers? f.jsonMembers = some f := by
  have hvalues : ∀ members : List (String × Value),
      valuesOf? (members.map fun m => (m.1, m.2.json)) = some members := by
    intro members
    induction members with
    | nil => rfl
    | cons m rest ih =>
      simp only [valuesOf?] at ih
      simp [valuesOf?, ih]
  rw [ofMembers?, jsonMembers, hvalues]
  exact congrArg some (Fields.ext (sortMembers_eq_self f.ascending))

end Fields

namespace Value

/-- An object of values. -/
def obj (f : Fields) : Value where
  json := .obj f.jsonMembers
  isCanonical := by
    refine ⟨ascending_map_values.2 f.ascending, Json.haveCanonical_iff.2 fun m hm => ?_⟩
    obtain ⟨v, _, rfl⟩ := List.mem_map.1 hm
    exact v.2.isCanonical

/-! What the document of a value holds. -/

@[simp] theorem member?_obj (f : Fields) (key : String) :
    (obj f).json.member? key = (f.get? key).map (·.json) := by
  simp [obj, Json.member?, Fields.jsonMembers, lookupMember, Fields.get?, List.find?_map,
    Function.comp_def]

@[simp] theorem item?_arr (values : List Value) (index : Nat) :
    (arr values).json.item? index = values[index]?.map (·.json) := by
  simp [arr, Json.item?]

@[simp] theorem json_ofString? (text : Option String) :
    (ofString? text).json = Json.ofString? text := by
  cases text <;> rfl

end Value

/-- An optional text is read back. -/
@[simp] theorem Json.string?_ofString? (text : Option String) :
    (Json.ofString? text).string? = text := by
  cases text <;> rfl

/-- The fields of an object are the ones it was made of. -/
@[simp] theorem Fields.ofJson?_obj (f : Fields) : Fields.ofJson? (Value.obj f).json = some f :=
  Fields.ofMembers?_jsonMembers f

end StepGraph
