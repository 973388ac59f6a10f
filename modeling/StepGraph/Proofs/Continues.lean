import Mathlib.Data.List.Forall2

/-!
# Lists that go on

A list goes on when some of its items are dropped, the others are changed where they stand, and new
ones are put at its end.  `Continues` says so with three properties: what an item may become, which
items may be dropped, and which may be added.  The items that are carried over stay in their order,
before all that are new.

There are three groups.

* `Carried`, without new items.
* `Continues`.  `Continues.trans` puts two stretches together.
* What is made of lists that go on: their images, and their items with a property.
-/

namespace StepGraph

variable {β γ : Type}

/-! ## Items that are carried over -/

/-- A list of which some items are dropped and the others changed where they stand. -/
inductive Carried (keeps : β → β → Prop) (drops : β → Prop) : List β → List β → Prop
  | nil : Carried keeps drops [] []
  | keep {old new : β} {olds news : List β} (hkeeps : keeps old new)
    (h : Carried keeps drops olds news) : Carried keeps drops (old :: olds) (new :: news)
  | drop {old : β} {olds news : List β} (hdrops : drops old)
    (h : Carried keeps drops olds news) : Carried keeps drops (old :: olds) news

namespace Carried

variable {keeps keeps' keeps'' : β → β → Prop} {drops drops' drops'' : β → Prop}
  {olds mids news : List β}

theorem of_forall₂ (h : List.Forall₂ keeps olds news) : Carried keeps drops olds news := by
  induction h with
  | nil => exact .nil
  | cons hkeeps _ ih => exact .keep hkeeps ih

/-- The items with a property are changed, and those without it dropped. -/
theorem filter_map {p : β → Bool} {f : β → β} (hkeeps : ∀ b ∈ olds, p b = true → keeps b (f b))
    (hdrops : ∀ b ∈ olds, p b = false → drops b) :
    Carried keeps drops olds ((olds.filter p).map f) := by
  induction olds with
  | nil => exact .nil
  | cons b rest ih =>
    have ih := ih (fun c hc => hkeeps c (List.mem_cons_of_mem b hc))
      fun c hc => hdrops c (List.mem_cons_of_mem b hc)
    cases hb : p b with
    | true =>
      rw [List.filter_cons_of_pos hb, List.map_cons]
      exact .keep (hkeeps b List.mem_cons_self hb) ih
    | false =>
      rw [List.filter_cons_of_neg (by simp [hb])]
      exact .drop (hdrops b List.mem_cons_self hb) ih

/-- The first item with a property is dropped. -/
theorem eraseP {p : β → Bool} (hkeeps : ∀ b, keeps b b) (hdrops : ∀ b, p b = true → drops b)
    (olds : List β) : Carried keeps drops olds (olds.eraseP p) := by
  induction olds with
  | nil => exact .nil
  | cons b rest ih =>
    cases hb : p b with
    | true =>
      rw [List.eraseP_cons_of_pos hb]
      exact .drop (hdrops b hb) (of_forall₂ (List.forall₂_same.2 fun c _ => hkeeps c))
    | false =>
      rw [List.eraseP_cons_of_neg (by simp [hb])]
      exact .keep (hkeeps b) ih

/-- What is carried over twice is carried over. -/
theorem trans (h : Carried keeps drops olds mids) (h' : Carried keeps' drops' mids news)
    (hkeeps : ∀ a b c, keeps a b → keeps' b c → keeps'' a c) (hdrops : ∀ a, drops a → drops'' a)
    (hlater : ∀ a b, keeps a b → drops' b → drops'' a) : Carried keeps'' drops'' olds news := by
  induction h generalizing news with
  | nil =>
    cases h'
    exact .nil
  | drop hdrop _ ih => exact .drop (hdrops _ hdrop) (ih h')
  | keep hkeep _ ih =>
    cases h' with
    | keep hkeep' h' => exact .keep (hkeeps _ _ _ hkeep hkeep') (ih h')
    | drop hdrop h' => exact .drop (hlater _ _ hkeep hdrop) (ih h')

/-- The parts of a list are carried over one after the other. -/
theorem exists_of_append {front back : List β} (h : Carried keeps drops (front ++ back) news) :
    ∃ news₁ news₂, news = news₁ ++ news₂ ∧ Carried keeps drops front news₁ ∧
      Carried keeps drops back news₂ := by
  induction front generalizing news with
  | nil => exact ⟨[], news, rfl, .nil, h⟩
  | cons b rest ih =>
    cases h with
    | @keep _ new _ _ hkeep h =>
      obtain ⟨news₁, news₂, rfl, h₁, h₂⟩ := ih h
      exact ⟨new :: news₁, news₂, rfl, .keep hkeep h₁, h₂⟩
    | drop hdrop h =>
      obtain ⟨news₁, news₂, rfl, h₁, h₂⟩ := ih h
      exact ⟨news₁, news₂, rfl, .drop hdrop h₁, h₂⟩

/-- What is carried over was there before. -/
theorem exists_of_mem (h : Carried keeps drops olds news) {new : β} (hnew : new ∈ news) :
    ∃ old ∈ olds, keeps old new := by
  induction h with
  | nil => cases hnew
  | @keep old _ _ _ hkeep _ ih =>
    cases List.mem_cons.1 hnew with
    | inl heq => exact ⟨old, List.mem_cons_self, heq ▸ hkeep⟩
    | inr hmem =>
      obtain ⟨old', hold, hkeep⟩ := ih hmem
      exact ⟨old', List.mem_cons_of_mem _ hold, hkeep⟩
  | drop _ _ ih =>
    obtain ⟨old', hold, hkeep⟩ := ih hnew
    exact ⟨old', List.mem_cons_of_mem _ hold, hkeep⟩

/-- Images are carried over with the items they are images of. -/
theorem map {keeps' : γ → γ → Prop} {drops' : γ → Prop} {f f' : β → γ}
    (h : Carried keeps drops olds news) (hkeeps : ∀ a b, keeps a b → keeps' (f a) (f' b))
    (hdrops : ∀ a ∈ olds, drops a → drops' (f a)) :
    Carried keeps' drops' (olds.map f) (news.map f') := by
  induction h with
  | nil => exact .nil
  | keep hkeep _ ih =>
    exact .keep (hkeeps _ _ hkeep) (ih fun a ha => hdrops a (List.mem_cons_of_mem _ ha))
  | drop hdrop _ ih =>
    exact .drop (hdrops _ List.mem_cons_self hdrop)
      (ih fun a ha => hdrops a (List.mem_cons_of_mem _ ha))

/-- Of what is carried over, the items with a property. -/
theorem filter {p : β → Bool} (h : Carried keeps drops olds news) (hdrops : ∀ a, drops a → drops' a)
    (hlater : ∀ a b, keeps a b → p b = false → drops' a) :
    Carried keeps drops' olds (news.filter p) := by
  induction h with
  | nil => exact .nil
  | drop hdrop _ ih => exact .drop (hdrops _ hdrop) ih
  | @keep _ new _ _ hkeep _ ih =>
    cases hp : p new with
    | true =>
      rw [List.filter_cons_of_pos hp]
      exact .keep hkeep ih
    | false =>
      rw [List.filter_cons_of_neg (by simp [hp])]
      exact .drop (hlater _ _ hkeep hp) ih

end Carried

/-! ## Lists that go on -/

/-- A list that goes on: of its items some are dropped and the others changed where they stand, and
new ones come after them. -/
def Continues (keeps : β → β → Prop) (drops adds : β → Prop) (olds news : List β) : Prop :=
  ∃ carried added, news = carried ++ added ∧ Carried keeps drops olds carried ∧
    ∀ b ∈ added, adds b

namespace Continues

variable {keeps keeps' keeps'' : β → β → Prop} {drops drops' drops'' adds adds' adds'' : β → Prop}
  {olds mids news : List β}

theorem of_carried (h : Carried keeps drops olds news) : Continues keeps drops adds olds news :=
  ⟨news, [], (List.append_nil news).symm, h, by simp⟩

theorem append_singleton (h : Carried keeps drops olds news) {b : β} (hb : adds b) :
    Continues keeps drops adds olds (news ++ [b]) :=
  ⟨news, [b], rfl, h, by simpa using hb⟩

/-- Two stretches, one after the other.  What the second one drops of what the first one added was
never there, and what it keeps of that is still new. -/
theorem trans (h : Continues keeps drops adds olds mids)
    (h' : Continues keeps' drops' adds' mids news)
    (hkeeps : ∀ a b c, keeps a b → keeps' b c → keeps'' a c) (hdrops : ∀ a, drops a → drops'' a)
    (hlater : ∀ a b, keeps a b → drops' b → drops'' a)
    (hadds : ∀ b c, adds b → keeps' b c → adds'' c) (hadds' : ∀ b, adds' b → adds'' b) :
    Continues keeps'' drops'' adds'' olds news := by
  obtain ⟨carried, added, rfl, hcarried, hadded⟩ := h
  obtain ⟨carried', added', rfl, hcarried', hadded'⟩ := h'
  obtain ⟨front, back, rfl, hfront, hback⟩ := hcarried'.exists_of_append
  refine ⟨front, back ++ added', List.append_assoc _ _ _,
    hcarried.trans hfront hkeeps hdrops hlater, fun c hc => ?_⟩
  cases List.mem_append.1 hc with
  | inl hc =>
    obtain ⟨b, hb, hkeep⟩ := hback.exists_of_mem hc
    exact hadds b c (hadded b hb) hkeep
  | inr hc => exact hadds' c (hadded' c hc)

/-! ## Images, and items with a property -/

theorem map {keeps' : γ → γ → Prop} {drops' adds' : γ → Prop} {f f' : β → γ}
    (h : Continues keeps drops adds olds news) (hkeeps : ∀ a b, keeps a b → keeps' (f a) (f' b))
    (hdrops : ∀ a ∈ olds, drops a → drops' (f a)) (hadds : ∀ b, adds b → adds' (f' b)) :
    Continues keeps' drops' adds' (olds.map f) (news.map f') := by
  obtain ⟨carried, added, rfl, hcarried, hadded⟩ := h
  refine ⟨carried.map f', added.map f', List.map_append, hcarried.map hkeeps hdrops,
    fun c hc => ?_⟩
  obtain ⟨b, hb, rfl⟩ := List.mem_map.1 hc
  exact hadds b (hadded b hb)

theorem filter {p : β → Bool} (h : Continues keeps drops adds olds news)
    (hdrops : ∀ a, drops a → drops' a) (hlater : ∀ a b, keeps a b → p b = false → drops' a) :
    Continues keeps drops' adds olds (news.filter p) := by
  obtain ⟨carried, added, rfl, hcarried, hadded⟩ := h
  refine ⟨carried.filter p, added.filter p, List.filter_append _ _,
    hcarried.filter hdrops hlater, fun b hb => ?_⟩
  exact hadded b (List.mem_filter.1 hb).1

end Continues

end StepGraph
