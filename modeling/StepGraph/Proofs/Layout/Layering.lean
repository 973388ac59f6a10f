import Mathlib.Data.List.Perm.Subperm
import Mathlib.Data.Nat.Find
import StepGraph.Layout.Layering
import StepGraph.Proofs.List

/-!
# Layers are depths

The layers below a given one are the slots at each distance from it, so a sweep places every slot it
can reach at its distance from where the sweep began.  No way leads from a placed slot to one that a
sweep leaves over, and this is what makes the next sweep independent of the ones before it.

There are four groups.

* Ways and distances, and the layers of slots.
* One sweep.  `IsSweep` says what `layersFrom` does locally, and `IsSweep.isAt_iff` follows.
* The sweeps below the first.  `IsBelow` says what `layersBelow` does; the seed of a slot is the
  least slot left over that leads to it.
* All layers.  `isLayered_of_leads_lt` puts the first sweep and the others together.
-/

namespace StepGraph.Layering

/-! ## Ways, distances and layers -/

section Walks

/-- A way of a number of steps. -/
inductive Walk {β : Type} (step : β → β → Prop) (start : β) : Nat → β → Prop
  | refl : Walk step start 0 start
  | tail {n : Nat} {a b : β} (way : Walk step start n a) (h : step a b) : Walk step start (n + 1) b

/-- Whether some source leads to a slot in a number of steps. -/
def Reaches (step : Nat → Nat → Prop) (isSource : Nat → Prop) (n slot : Nat) : Prop :=
  ∃ source, isSource source ∧ Walk step source n slot

/-- The least number of steps in which a source leads to a slot. -/
def IsDistance (step : Nat → Nat → Prop) (isSource : Nat → Prop) (n slot : Nat) : Prop :=
  Reaches step isSource n slot ∧ ∀ m < n, ¬Reaches step isSource m slot

/-- Of the slots left over, the least that leads to a slot. -/
def IsSeedOf (step : Nat → Nat → Prop) (isLeft : Nat → Prop) (seed slot : Nat) : Prop :=
  isLeft seed ∧ (∃ n, Walk step seed n slot) ∧
    ∀ other, isLeft other → (∃ n, Walk step other n slot) → seed ≤ other

theorem IsSeedOf.unique {step : Nat → Nat → Prop} {isLeft : Nat → Prop} {seed other slot : Nat}
    (h : IsSeedOf step isLeft seed slot) (h' : IsSeedOf step isLeft other slot) : seed = other :=
  Nat.le_antisymm (h.2.2 other h'.1 h'.2.1) (h'.2.2 seed h.1 h.2.1)

/-- A slot that is left over has a seed: it leads to itself. -/
theorem exists_isSeedOf (step : Nat → Nat → Prop) {isLeft : Nat → Prop} {slot : Nat}
    (h : isLeft slot) : ∃ seed, IsSeedOf step isLeft seed slot := by
  classical
  have hsome : ∃ seed, isLeft seed ∧ ∃ n, Walk step seed n slot := ⟨slot, h, 0, .refl⟩
  exact ⟨Nat.find hsome, (Nat.find_spec hsome).1, (Nat.find_spec hsome).2,
    fun other hother hway => Nat.find_min' hsome ⟨hother, hway⟩⟩

/-- Only slots that lead to a slot matter for its seed. -/
theorem IsSeedOf.congr {step : Nat → Nat → Prop} {p q : Nat → Prop} {seed slot : Nat}
    (h : ∀ other, (∃ n, Walk step other n slot) → (p other ↔ q other))
    (hseed : IsSeedOf step p seed slot) : IsSeedOf step q seed slot := by
  obtain ⟨hleft, hway, hleast⟩ := hseed
  exact ⟨(h seed hway).1 hleft, hway,
    fun other hother hway' => hleast other ((h other hway').2 hother) hway'⟩

/-- Whether nothing outside leads into a list of slots. -/
def IsClosedBack (step : Nat → Nat → Prop) (slots : List Nat) : Prop :=
  ∀ a b, step a b → b ∈ slots → a ∈ slots

/-- A way into slots that nothing outside leads into begins there. -/
theorem Walk.start_mem {step : Nat → Nat → Prop} {slots : List Nat}
    (hback : IsClosedBack step slots) {start n slot : Nat} (way : Walk step start n slot)
    (h : slot ∈ slots) : start ∈ slots := by
  induction way with
  | refl => exact h
  | tail _ hstep ih => exact ih (hback _ _ hstep h)

end Walks

/-- Whether a slot is in the layer at a depth. -/
def IsAt (layers : List (List Nat)) (depth slot : Nat) : Prop :=
  ∃ layer, layers[depth]? = some layer ∧ slot ∈ layer

section Depths

variable {layers others : List (List Nat)} {layer : List Nat} {depth depth' slot : Nat}

@[simp] theorem isAt_cons_zero : IsAt (layer :: layers) 0 slot ↔ slot ∈ layer := by
  simp [IsAt]

@[simp] theorem isAt_cons_succ :
    IsAt (layer :: layers) (depth + 1) slot ↔ IsAt layers depth slot := by
  simp [IsAt]

theorem not_isAt_nil : ¬IsAt [] depth slot := by
  simp [IsAt]

theorem IsAt.lt_length (h : IsAt layers depth slot) : depth < layers.length := by
  obtain ⟨layer, hlayer, -⟩ := h
  exact (List.getElem?_eq_some_iff.1 hlayer).1

theorem mem_flatten_iff : slot ∈ layers.flatten ↔ ∃ depth, IsAt layers depth slot := by
  rw [List.mem_flatten]
  constructor
  · rintro ⟨layer, hlayer, hslot⟩
    obtain ⟨depth, hdepth⟩ := List.mem_iff_getElem?.1 hlayer
    exact ⟨depth, layer, hdepth, hslot⟩
  · rintro ⟨depth, layer, hdepth, hslot⟩
    exact ⟨layer, List.mem_of_getElem? hdepth, hslot⟩

/-- Of layers put one list after the other, the second list begins where the first ends. -/
theorem isAt_append : IsAt (layers ++ others) depth slot ↔
    IsAt layers depth slot ∨ ∃ below, depth = layers.length + below ∧ IsAt others below slot := by
  unfold IsAt
  constructor
  · rintro ⟨layer, hlayer, hslot⟩
    by_cases hlt : depth < layers.length
    · rw [List.getElem?_append_left hlt] at hlayer
      exact Or.inl ⟨layer, hlayer, hslot⟩
    · rw [List.getElem?_append_right (Nat.le_of_not_lt hlt)] at hlayer
      exact Or.inr ⟨_, (Nat.add_sub_of_le (Nat.le_of_not_lt hlt)).symm, layer, hlayer, hslot⟩
  · rintro (⟨layer, hlayer, hslot⟩ | ⟨below, rfl, layer, hlayer, hslot⟩)
    · have hlt := (List.getElem?_eq_some_iff.1 hlayer).1
      exact ⟨layer, by rw [List.getElem?_append_left hlt, hlayer], hslot⟩
    · exact ⟨layer, by rw [List.getElem?_append_right (by omega)]; simpa using hlayer, hslot⟩

theorem IsAt.append_left (h : IsAt layers depth slot) (others : List (List Nat)) :
    IsAt (layers ++ others) depth slot := isAt_append.2 (Or.inl h)

theorem IsAt.append_right (layers : List (List Nat)) (h : IsAt others depth slot) :
    IsAt (layers ++ others) (layers.length + depth) slot := isAt_append.2 (Or.inr ⟨depth, rfl, h⟩)

/-- A slot is in one layer only. -/
theorem IsAt.unique (hnodup : layers.flatten.Nodup) (h : IsAt layers depth slot)
    (h' : IsAt layers depth' slot) : depth = depth' := by
  induction layers generalizing depth depth' with
  | nil => exact absurd h not_isAt_nil
  | cons layer layers ih =>
    rw [List.flatten_cons, List.nodup_append'] at hnodup
    cases depth <;> cases depth'
    · rfl
    · rw [isAt_cons_zero] at h
      exact absurd (mem_flatten_iff.2 ⟨_, isAt_cons_succ.1 h'⟩) (hnodup.2.2 h)
    · rw [isAt_cons_zero] at h'
      exact absurd (mem_flatten_iff.2 ⟨_, isAt_cons_succ.1 h⟩) (hnodup.2.2 h')
    · rw [ih hnodup.2.1 (isAt_cons_succ.1 h) (isAt_cons_succ.1 h')]

end Depths

/-! ## One sweep -/

/-- A slot leads to another. -/
def Leads (successors : Nat → List Nat) (a b : Nat) : Prop := b ∈ successors a

section Sweeps

variable {successors : Nat → List Nat} {unplaced layer left : List Nat} {layers : List (List Nat)}

theorem mem_nextLayer_iff {slot : Nat} : slot ∈ nextLayer successors unplaced layer ↔
    (∃ a ∈ layer, slot ∈ successors a) ∧ slot ∈ unplaced := by
  simp [nextLayer]

theorem mem_without_iff {slot : Nat} :
    slot ∈ without unplaced layer ↔ slot ∈ unplaced ∧ slot ∉ layer := by
  simp [without]

/-- The next layer and what it leaves are the slots that had no place. -/
theorem nextLayer_append_without_perm (successors : Nat → List Nat) (layer : List Nat)
    (hnodup : unplaced.Nodup) :
    (nextLayer successors unplaced layer ++
      without unplaced (nextLayer successors unplaced layer)).Perm unplaced := by
  have hdisjoint : (nextLayer successors unplaced layer).Disjoint
      (without unplaced (nextLayer successors unplaced layer)) := by
    intro slot hnext hwithout
    simp [mem_without_iff, hnext] at hwithout
  have hboth : (nextLayer successors unplaced layer ++
      without unplaced (nextLayer successors unplaced layer)).Nodup :=
    List.nodup_append'.2 ⟨nodup_eraseDups _, hnodup.filter _, hdisjoint⟩
  refine (List.perm_ext_iff_of_nodup hboth hnodup).2 fun slot => ?_
  rw [List.mem_append, mem_without_iff]
  constructor
  · rintro (hnext | hwithout)
    · exact (mem_nextLayer_iff.1 hnext).2
    · exact hwithout.1
  · intro h
    by_cases hnext : slot ∈ nextLayer successors unplaced layer
    · exact Or.inl hnext
    · exact Or.inr ⟨h, hnext⟩

/-- What a sweep does: `layers` are the layers from `layer` on, and `left` is left over. -/
structure IsSweep (successors : Nat → List Nat) (unplaced layer : List Nat)
    (layers : List (List Nat)) (left : List Nat) : Prop where
  first : ∀ slot, IsAt layers 0 slot ↔ slot ∈ layer
  perm : (layers.flatten ++ left).Perm (layer ++ unplaced)
  left_sublist : left.Sublist unplaced
  /-- Only the given layer may be empty. -/
  nonempty : ∀ depth, layers[depth + 1]? ≠ some []
  /-- Every slot below was met in the layer above it. -/
  met : ∀ depth slot, IsAt layers (depth + 1) slot →
    ∃ a, IsAt layers depth a ∧ Leads successors a slot
  /-- What a slot leads to has a place, one layer below at most. -/
  closed : ∀ depth a b, IsAt layers depth a → Leads successors a b → b ∈ unplaced →
    ∃ depth' ≤ depth + 1, IsAt layers depth' b

/-- A sweep ends where nothing is left to meet. -/
theorem isSweep_singleton (hnext : nextLayer successors unplaced layer = []) :
    IsSweep successors unplaced layer [layer] unplaced where
  first _ := isAt_cons_zero
  perm := by simp
  left_sublist := List.Sublist.refl _
  nonempty := by simp
  met _ _ h := absurd (isAt_cons_succ.1 h) not_isAt_nil
  closed depth a b ha hb hunplaced := by
    cases depth with
    | zero =>
      have hmem : b ∈ nextLayer successors unplaced layer :=
        mem_nextLayer_iff.2 ⟨⟨a, isAt_cons_zero.1 ha, hb⟩, hunplaced⟩
      rw [hnext] at hmem
      cases hmem
    | succ depth => exact absurd (isAt_cons_succ.1 ha) not_isAt_nil

/-- A sweep goes on from its next layer. -/
theorem IsSweep.cons {next : List Nat} (hnodup : unplaced.Nodup)
    (hnext : nextLayer successors unplaced layer = next) (hne : next ≠ [])
    (h : IsSweep successors (without unplaced next) next layers left) :
    IsSweep successors unplaced layer (layer :: layers) left where
  first _ := isAt_cons_zero
  perm := by
    have hperm := nextLayer_append_without_perm successors layer hnodup
    rw [hnext] at hperm
    rw [List.flatten_cons, List.append_assoc]
    exact (h.perm.trans hperm).append_left layer
  left_sublist := h.left_sublist.trans List.filter_sublist
  nonempty depth := by
    cases depth with
    | zero =>
      obtain ⟨slot, hslot⟩ := List.exists_mem_of_ne_nil _ hne
      obtain ⟨top, htop, hslot⟩ := (h.first slot).2 hslot
      intro hempty
      cases hempty.symm.trans htop
      cases hslot
    | succ depth => exact h.nonempty depth
  met depth b hb := by
    rw [isAt_cons_succ] at hb
    cases depth with
    | zero =>
      rw [h.first, ← hnext] at hb
      obtain ⟨a, ha, hlead⟩ := (mem_nextLayer_iff.1 hb).1
      exact ⟨a, isAt_cons_zero.2 ha, hlead⟩
    | succ depth =>
      obtain ⟨a, ha, hlead⟩ := h.met depth b hb
      exact ⟨a, isAt_cons_succ.2 ha, hlead⟩
  closed depth a b ha hlead hb := by
    by_cases hmem : b ∈ next
    · exact ⟨1, by omega, isAt_cons_succ.2 ((h.first b).2 hmem)⟩
    · cases depth with
      | zero =>
        rw [← hnext] at hmem
        exact absurd (mem_nextLayer_iff.2 ⟨⟨a, isAt_cons_zero.1 ha, hlead⟩, hb⟩) hmem
      | succ depth =>
        obtain ⟨depth', hle, hb⟩ := h.closed depth a b (isAt_cons_succ.1 ha) hlead
          (mem_without_iff.2 ⟨hb, hmem⟩)
        exact ⟨depth' + 1, by omega, isAt_cons_succ.2 hb⟩

/-- A sweep places what it meets. -/
theorem isSweep_layersFrom (successors : Nat → List Nat) {unplaced : List Nat} (layer : List Nat)
    (hnodup : unplaced.Nodup) :
    IsSweep successors unplaced layer (layersFrom successors unplaced layer).1
      (layersFrom successors unplaced layer).2 := by
  fun_induction layersFrom successors unplaced layer with
  | case1 unplaced layer hnext => exact isSweep_singleton hnext
  | case2 unplaced layer slot rest hnext below left hbelow ih =>
    have hsweep := ih (hnodup.filter _)
    simp only [hbelow] at hsweep
    exact hsweep.cons hnodup hnext (List.cons_ne_nil _ _)

namespace IsSweep

variable (h : IsSweep successors unplaced layer layers left)

include h

/-- A slot of a sweep is reached in as many steps as its depth. -/
theorem reaches_of_isAt {depth slot : Nat} (hslot : IsAt layers depth slot) :
    Reaches (Leads successors) (· ∈ layer) depth slot := by
  induction depth generalizing slot with
  | zero => exact ⟨slot, (h.first slot).1 hslot, .refl⟩
  | succ depth ih =>
    obtain ⟨a, ha, hlead⟩ := h.met depth slot hslot
    obtain ⟨source, hsource, way⟩ := ih ha
    exact ⟨source, hsource, way.tail hlead⟩

/-- A slot that a sweep meets has a place, one layer below at most. -/
theorem exists_isAt_of_leads {depth a b : Nat} (ha : IsAt layers depth a)
    (hlead : Leads successors a b) (hb : b ∈ layer ++ unplaced) :
    ∃ depth' ≤ depth + 1, IsAt layers depth' b := by
  rcases List.mem_append.1 hb with hb | hb
  · exact ⟨0, Nat.zero_le _, (h.first b).2 hb⟩
  · exact h.closed depth a b ha hlead hb

/-- A slot has a place or is left over. -/
theorem exists_isAt_or_mem_left {slot : Nat} (hslot : slot ∈ layer ++ unplaced) :
    (∃ depth, IsAt layers depth slot) ∨ slot ∈ left := by
  rw [← mem_flatten_iff, ← List.mem_append]
  exact h.perm.mem_iff.2 hslot

/-- A sweep that begins somewhere has no empty layer. -/
theorem nil_not_mem (hlayer : layer ≠ []) : [] ∉ layers := by
  intro hempty
  obtain ⟨depth, hdepth⟩ := List.mem_iff_getElem?.1 hempty
  cases depth with
  | zero =>
    obtain ⟨slot, hslot⟩ := List.exists_mem_of_ne_nil _ hlayer
    obtain ⟨top, htop, hslot⟩ := (h.first slot).2 hslot
    cases hdepth.symm.trans htop
    cases hslot
  | succ depth => exact h.nonempty depth hdepth

variable (hback : IsClosedBack (Leads successors) (layer ++ unplaced))

include hback

/-- A slot that is reached is at that depth or above. -/
theorem exists_isAt_of_walk {source n slot : Nat} (hsource : source ∈ layer)
    (way : Walk (Leads successors) source n slot) (hslot : slot ∈ layer ++ unplaced) :
    ∃ depth ≤ n, IsAt layers depth slot := by
  induction way with
  | refl => exact ⟨0, Nat.le_refl _, (h.first _).2 hsource⟩
  | @tail n a b way hlead ih =>
    obtain ⟨depth, hle, ha⟩ := ih (hback _ _ hlead hslot)
    obtain ⟨depth', hle', hb⟩ := h.exists_isAt_of_leads ha hlead hslot
    exact ⟨depth', by omega, hb⟩

/-- No slot that is left over is led to from a slot of the sweep. -/
theorem isClosedBack_left (hnodup : (layer ++ unplaced).Nodup) :
    IsClosedBack (Leads successors) left := by
  intro a b hlead hb
  have hall := h.perm.nodup_iff.2 hnodup
  have ha : a ∈ layer ++ unplaced :=
    hback a b hlead (List.mem_append_right _ (h.left_sublist.subset hb))
  rcases h.exists_isAt_or_mem_left ha with ⟨depth, ha⟩ | ha
  · obtain ⟨depth', -, hplaced⟩ := h.closed depth a b ha hlead (h.left_sublist.subset hb)
    exact absurd hb (List.disjoint_of_nodup_append hall (mem_flatten_iff.2 ⟨depth', hplaced⟩))
  · exact ha

/-- A sweep places a slot at its distance from where the sweep began. -/
theorem isAt_iff (hnodup : (layer ++ unplaced).Nodup) {depth slot : Nat}
    (hslot : slot ∈ layer ++ unplaced) :
    IsAt layers depth slot ↔ IsDistance (Leads successors) (· ∈ layer) depth slot := by
  have hlayers : layers.flatten.Nodup :=
    (List.nodup_append'.1 (h.perm.nodup_iff.2 hnodup)).1
  constructor
  · intro hat
    refine ⟨h.reaches_of_isAt hat, ?_⟩
    rintro n hlt ⟨source, hsource, way⟩
    obtain ⟨depth', hle, hat'⟩ := h.exists_isAt_of_walk hback hsource way hslot
    have hsame := hat.unique hlayers hat'
    omega
  · rintro ⟨⟨source, hsource, way⟩, hleast⟩
    obtain ⟨depth', hle, hat⟩ := h.exists_isAt_of_walk hback hsource way hslot
    have hge : ¬depth' < depth := fun hlt => hleast depth' hlt (h.reaches_of_isAt hat)
    obtain rfl : depth' = depth := by omega
    exact hat

end IsSweep

/-! ## The sweeps below the first -/

/-- What the sweeps below the first do with the slots they have to place. -/
structure IsBelow (successors : Nat → List Nat) (unplaced : List Nat) (layers : List (List Nat)) :
    Prop where
  perm : layers.flatten.Perm unplaced
  nonempty : [] ∉ layers
  closed : ∀ depth a b, IsAt layers depth a → Leads successors a b → b ∈ unplaced →
    ∃ depth' ≤ depth + 1, IsAt layers depth' b
  /-- A slot is as far below its seed as it is away from it. -/
  seeded : ∀ seed slot, slot ∈ unplaced →
    IsSeedOf (Leads successors) (· ∈ unplaced) seed slot →
      ∃ depth n, IsAt layers depth seed ∧ IsAt layers (depth + n) slot ∧
        IsDistance (Leads successors) (· = seed) n slot
  /-- The slots of an earlier seed are above those of a later one. -/
  ordered : ∀ seed slot seed' slot' depth depth',
    IsSeedOf (Leads successors) (· ∈ unplaced) seed slot →
      IsSeedOf (Leads successors) (· ∈ unplaced) seed' slot' → seed < seed' →
        IsAt layers depth slot → IsAt layers depth' slot' → depth < depth'

theorem IsBelow.exists_isAt_iff (h : IsBelow successors unplaced layers) {slot : Nat} :
    (∃ depth, IsAt layers depth slot) ↔ slot ∈ unplaced :=
  mem_flatten_iff.symm.trans h.perm.mem_iff

section Seed

variable {seed : Nat} (h : IsSweep successors unplaced [seed] layers left)
  (hsorted : (seed :: unplaced).Pairwise (· < ·))
  (hback : IsClosedBack (Leads successors) (seed :: unplaced))

include h hsorted hback

/-- What a sweep places has the slot where the sweep began for its seed. -/
theorem IsSweep.isSeedOf_of_isAt {depth slot : Nat} (hslot : IsAt layers depth slot) :
    IsSeedOf (Leads successors) (· ∈ seed :: unplaced) seed slot := by
  obtain ⟨source, hsource, way⟩ := h.reaches_of_isAt hslot
  cases List.mem_singleton.1 hsource
  refine ⟨List.mem_cons_self, ⟨depth, way⟩, fun other hother _ => ?_⟩
  rcases List.mem_cons.1 hother with rfl | hother
  · exact Nat.le_refl _
  · exact Nat.le_of_lt ((List.pairwise_cons.1 hsorted).1 other hother)

/-- The seed of a slot that a sweep leaves over is left over too. -/
theorem IsSweep.isSeedOf_left_iff {other slot : Nat} (hslot : slot ∈ left) :
    IsSeedOf (Leads successors) (· ∈ seed :: unplaced) other slot ↔
      IsSeedOf (Leads successors) (· ∈ left) other slot := by
  have hnodup : (seed :: unplaced).Nodup := hsorted.imp Nat.ne_of_lt
  have hsame : ∀ start, (∃ n, Walk (Leads successors) start n slot) →
      (start ∈ seed :: unplaced ↔ start ∈ left) := by
    rintro start ⟨n, way⟩
    have hstart : start ∈ left := way.start_mem (h.isClosedBack_left hback hnodup) hslot
    exact iff_of_true (List.mem_cons_of_mem _ (h.left_sublist.subset hstart)) hstart
  exact ⟨.congr hsame, .congr fun start hway => (hsame start hway).symm⟩

variable {below : List (List Nat)} (hbelow : IsBelow successors left below)

include hbelow

omit hsorted hback in
/-- With a sweep above the others, nothing leads down by more than one layer. -/
theorem IsSweep.closed_append {depth a b : Nat} (ha : IsAt (layers ++ below) depth a)
    (hlead : Leads successors a b) (hb : b ∈ seed :: unplaced) :
    ∃ depth' ≤ depth + 1, IsAt (layers ++ below) depth' b := by
  rcases isAt_append.1 ha with hsweep | ⟨down, rfl, hdown⟩
  · obtain ⟨depth', hle, hb⟩ := h.exists_isAt_of_leads hsweep hlead hb
    exact ⟨depth', hle, hb.append_left below⟩
  · rcases h.exists_isAt_or_mem_left hb with ⟨depth', hb⟩ | hb
    · have hlt := hb.lt_length
      exact ⟨depth', by omega, hb.append_left below⟩
    · obtain ⟨depth', hle, hb⟩ := hbelow.closed down a b hdown hlead hb
      exact ⟨layers.length + depth', by omega, hb.append_right layers⟩

/-- With a sweep above the others, a slot is as far below its seed as it is away from it. -/
theorem IsSweep.seeded_append {other slot : Nat} (hslot : slot ∈ seed :: unplaced)
    (hother : IsSeedOf (Leads successors) (· ∈ seed :: unplaced) other slot) :
    ∃ depth n, IsAt (layers ++ below) depth other ∧ IsAt (layers ++ below) (depth + n) slot ∧
      IsDistance (Leads successors) (· = other) n slot := by
  have hnodup : (seed :: unplaced).Nodup := hsorted.imp Nat.ne_of_lt
  rcases h.exists_isAt_or_mem_left hslot with ⟨depth, hat⟩ | hleft
  · obtain rfl : seed = other := (h.isSeedOf_of_isAt hsorted hback hat).unique hother
    have hseed : IsAt layers 0 seed := (h.first seed).2 (List.mem_singleton_self seed)
    have hdistance := (h.isAt_iff hback hnodup hslot).1 hat
    simp only [List.mem_singleton] at hdistance
    rw [← Nat.zero_add depth] at hat
    exact ⟨0, depth, hseed.append_left below, hat.append_left below, hdistance⟩
  · obtain ⟨depth, n, hother, hat, hdistance⟩ := hbelow.seeded other slot hleft
      ((h.isSeedOf_left_iff hsorted hback hleft).1 hother)
    refine ⟨layers.length + depth, n, hother.append_right layers, ?_, hdistance⟩
    rw [Nat.add_assoc]
    exact hat.append_right layers

/-- With a sweep above the others, the slots of an earlier seed are above those of a later one. -/
theorem IsSweep.ordered_append {one slot two slot' depth depth' : Nat}
    (hone : IsSeedOf (Leads successors) (· ∈ seed :: unplaced) one slot)
    (htwo : IsSeedOf (Leads successors) (· ∈ seed :: unplaced) two slot') (hlt : one < two)
    (hslot : IsAt (layers ++ below) depth slot) (hslot' : IsAt (layers ++ below) depth' slot') :
    depth < depth' := by
  rcases isAt_append.1 hslot' with hat' | ⟨down', rfl, hat'⟩
  · -- The later seed is that of the sweep, which is the least of all.
    have hsame := (h.isSeedOf_of_isAt hsorted hback hat').unique htwo
    rcases List.mem_cons.1 hone.1 with hleast | hone
    · omega
    · have hless := (List.pairwise_cons.1 hsorted).1 one hone
      omega
  · rcases isAt_append.1 hslot with hat | ⟨down, rfl, hat⟩
    · have hless := hat.lt_length
      omega
    · have hone := (h.isSeedOf_left_iff hsorted hback (hbelow.exists_isAt_iff.1 ⟨down, hat⟩)).1 hone
      have htwo :=
        (h.isSeedOf_left_iff hsorted hback (hbelow.exists_isAt_iff.1 ⟨down', hat'⟩)).1 htwo
      have hless := hbelow.ordered one slot two slot' down down' hone htwo hlt hat hat'
      omega

/-- A sweep above the others. -/
theorem IsSweep.isBelow_append : IsBelow successors (seed :: unplaced) (layers ++ below) where
  perm := by
    rw [List.flatten_append]
    exact (hbelow.perm.append_left _).trans h.perm
  nonempty := by
    rw [List.mem_append, not_or]
    exact ⟨h.nil_not_mem (List.cons_ne_nil _ _), hbelow.nonempty⟩
  closed _ _ _ := h.closed_append hbelow
  seeded _ _ := h.seeded_append hsorted hback hbelow
  ordered _ _ _ _ _ _ := h.ordered_append hsorted hback hbelow

end Seed

theorem isBelow_layersBelow {unplaced : List Nat} (hsorted : unplaced.Pairwise (· < ·))
    (hback : IsClosedBack (Leads successors) unplaced) :
    IsBelow successors unplaced (layersBelow successors unplaced) := by
  fun_induction layersBelow successors unplaced with
  | case1 =>
    exact {
      perm := List.Perm.refl _
      nonempty := List.not_mem_nil
      closed := fun _ _ _ h => absurd h not_isAt_nil
      seeded := fun _ _ h => absurd h List.not_mem_nil
      ordered := fun _ _ _ _ _ _ _ _ _ h => absurd h not_isAt_nil }
  | case2 seed unplaced p ih =>
    have hnodup : (seed :: unplaced).Nodup := hsorted.imp Nat.ne_of_lt
    have hsweep : IsSweep successors unplaced [seed] p.1 p.2 :=
      isSweep_layersFrom successors [seed] hnodup.of_cons
    have hbelow := ih (hsorted.of_cons.sublist hsweep.left_sublist)
      (hsweep.isClosedBack_left hback hnodup)
    exact hsweep.isBelow_append hsorted hback hbelow

end Sweeps

/-! ## All layers -/

/-- Whether no root leads to a slot. -/
def IsLeft (step : Nat → Nat → Prop) (count : Nat) (isRoot : Nat → Prop) (slot : Nat) : Prop :=
  slot < count ∧ ∀ n, ¬Reaches step isRoot n slot

/-- Layers as they should be: depths below the roots first, then one sweep after the other. -/
structure IsLayered (step : Nat → Nat → Prop) (count : Nat) (isRoot : Nat → Prop)
    (layers : List (List Nat)) : Prop where
  /-- Every slot is in one layer, once. -/
  perm : layers.flatten.Perm (List.range count)
  nonempty : [] ∉ layers
  roots : ∀ slot, isRoot slot → IsAt layers 0 slot
  /-- A slot to which a root leads is as deep as it is away from the roots. -/
  reached : ∀ slot < count, ∀ n, IsDistance step isRoot n slot → IsAt layers n slot
  /-- The other slots are deeper than all these. -/
  below : ∀ slot other depth depth', IsLeft step count isRoot slot →
    ¬IsLeft step count isRoot other → IsAt layers depth slot → IsAt layers depth' other →
      depth' < depth
  /-- Each of them is as far below its seed as it is away from it. -/
  seeded : ∀ slot, IsLeft step count isRoot slot →
    ∃ seed depth n, IsSeedOf step (IsLeft step count isRoot) seed slot ∧
      IsAt layers depth seed ∧ IsAt layers (depth + n) slot ∧ IsDistance step (· = seed) n slot
  /-- The slots of an earlier seed are above those of a later one. -/
  ordered : ∀ seed slot seed' slot' depth depth',
    IsLeft step count isRoot slot → IsSeedOf step (IsLeft step count isRoot) seed slot →
      IsLeft step count isRoot slot' → IsSeedOf step (IsLeft step count isRoot) seed' slot' →
        seed < seed' → IsAt layers depth slot → IsAt layers depth' slot' → depth < depth'
  /-- Nothing leads down by more than one layer. -/
  steps : ∀ a b depth depth', step a b → IsAt layers depth a → IsAt layers depth' b →
    depth' ≤ depth + 1

/-- What the first sweep does, which begins at all roots. -/
structure IsFirst (successors : Nat → List Nat) (count : Nat) (isRoot : Nat → Prop)
    (first : List (List Nat)) (left : List Nat) : Prop where
  root_lt : ∀ slot, isRoot slot → slot < count
  perm : (first.flatten ++ left).Perm (List.range count)
  nonempty : [] ∉ first
  left_sublist : left.Sublist (List.range count)
  back : IsClosedBack (Leads successors) left
  isAt_iff : ∀ slot < count, ∀ n,
    IsAt first n slot ↔ IsDistance (Leads successors) isRoot n slot
  closed : ∀ depth a b, IsAt first depth a → Leads successors a b →
    ∃ depth' ≤ depth + 1, IsAt first depth' b

section All

variable {successors : Nat → List Nat} {count : Nat} {left : List Nat}

section Begin

variable {roots others : List Nat} (hcount : ∀ a b, Leads successors a b → a < count ∧ b < count)
  (hperm : (roots ++ others).Perm (List.range count)) (hsublist : others.Sublist (List.range count))

include hcount hperm hsublist

/-- A sweep from the roots is the first. -/
theorem isFirst_layersFrom (hroots : roots ≠ []) :
    IsFirst successors count (· ∈ roots) (layersFrom successors others roots).1
      (layersFrom successors others roots).2 := by
  have hnodup : (roots ++ others).Nodup := hperm.nodup_iff.2 List.nodup_range
  have hmem : ∀ slot, slot ∈ roots ++ others ↔ slot < count := fun slot =>
    hperm.mem_iff.trans List.mem_range
  have hback : IsClosedBack (Leads successors) (roots ++ others) := fun a b hlead _ =>
    (hmem a).2 (hcount a b hlead).1
  have hsweep := isSweep_layersFrom successors roots (List.nodup_append'.1 hnodup).2.1
  exact {
    root_lt := fun slot hslot => (hmem slot).1 (List.mem_append_left _ hslot)
    perm := hsweep.perm.trans hperm
    nonempty := hsweep.nil_not_mem hroots
    left_sublist := hsweep.left_sublist.trans hsublist
    back := hsweep.isClosedBack_left hback hnodup
    isAt_iff := fun slot hslot n => hsweep.isAt_iff hback hnodup ((hmem slot).2 hslot)
    closed := fun _ a b ha hlead =>
      hsweep.exists_isAt_of_leads ha hlead ((hmem b).2 (hcount a b hlead).2) }

/-- Without roots there is no first sweep. -/
theorem isFirst_nil (hroots : roots = []) : IsFirst successors count (· ∈ roots) [] others := by
  subst hroots
  exact {
    root_lt := fun _ h => absurd h List.not_mem_nil
    perm := hperm
    nonempty := List.not_mem_nil
    left_sublist := hsublist
    back := fun a b hlead _ => hperm.mem_iff.2 (List.mem_range.2 (hcount a b hlead).1)
    isAt_iff := fun _ _ _ => iff_of_false not_isAt_nil fun h => by
      obtain ⟨⟨source, hsource, -⟩, -⟩ := h
      cases hsource
    closed := fun _ _ _ h => absurd h not_isAt_nil }

end Begin

/-- All layers are those of the first sweep and of the sweeps below it. -/
theorem exists_isFirst (hcount : ∀ a b, Leads successors a b → a < count ∧ b < count)
    (isRoot : Nat → Bool) :
    ∃ first left, layers successors count isRoot = first ++ layersBelow successors left ∧
      IsFirst successors count (fun slot => slot < count ∧ isRoot slot = true) first left := by
  have hperm := List.filter_append_perm isRoot (List.range count)
  have hsublist : ((List.range count).filter (!isRoot ·)).Sublist (List.range count) :=
    List.filter_sublist
  have hsource : (· ∈ (List.range count).filter isRoot) =
      fun slot => slot < count ∧ isRoot slot = true := by
    funext slot
    simp
  rw [← hsource, layers, List.partition_eq_filter_filter]
  by_cases hroots : (List.range count).filter isRoot = []
  · exact ⟨[], _, if_pos (List.isEmpty_iff.2 hroots), isFirst_nil hcount hperm hsublist hroots⟩
  · exact ⟨_, _, if_neg (by rwa [List.isEmpty_iff]),
      isFirst_layersFrom hcount hperm hsublist hroots⟩

variable {isRoot : Nat → Prop} {first : List (List Nat)}

section First

variable (h : IsFirst successors count isRoot first left)

include h

theorem IsFirst.isAt_zero {slot : Nat} (hslot : isRoot slot) : IsAt first 0 slot :=
  (h.isAt_iff slot (h.root_lt slot hslot) 0).2
    ⟨⟨slot, hslot, .refl⟩, fun n hlt => absurd hlt (Nat.not_lt_zero n)⟩

/-- The first sweep leaves the slots that no root leads to. -/
theorem IsFirst.mem_left_iff {slot : Nat} :
    slot ∈ left ↔ IsLeft (Leads successors) count isRoot slot := by
  have hnodup : (first.flatten ++ left).Nodup := h.perm.nodup_iff.2 List.nodup_range
  constructor
  · intro hslot
    refine ⟨List.mem_range.1 (h.left_sublist.subset hslot), ?_⟩
    rintro n ⟨source, hsource, way⟩
    exact List.disjoint_of_nodup_append hnodup
      (mem_flatten_iff.2 ⟨0, h.isAt_zero hsource⟩) (way.start_mem h.back hslot)
  · rintro ⟨hlt, hnone⟩
    rcases List.mem_append.1 (h.perm.mem_iff.2 (List.mem_range.2 hlt)) with hslot | hslot
    · obtain ⟨depth, hat⟩ := mem_flatten_iff.1 hslot
      exact absurd ((h.isAt_iff slot hlt depth).1 hat).1 (hnone depth)
    · exact hslot

/-- The first sweep places no slot that no root leads to. -/
theorem IsFirst.not_isAt {depth slot : Nat}
    (hslot : IsLeft (Leads successors) count isRoot slot) : ¬IsAt first depth slot := fun hat =>
  hslot.2 depth ((h.isAt_iff slot hslot.1 depth).1 hat).1

/-- Seeds among the slots that are left over are seeds among those that no root leads to. -/
theorem IsFirst.isSeedOf_iff {seed slot : Nat} :
    IsSeedOf (Leads successors) (IsLeft (Leads successors) count isRoot) seed slot ↔
      IsSeedOf (Leads successors) (· ∈ left) seed slot :=
  ⟨.congr fun _ _ => h.mem_left_iff.symm, .congr fun _ _ => h.mem_left_iff⟩

variable {below : List (List Nat)} (hbelow : IsBelow successors left below)

include hbelow

theorem IsFirst.exists_isAt_iff {slot : Nat} :
    (∃ depth, IsAt below depth slot) ↔ IsLeft (Leads successors) count isRoot slot :=
  hbelow.exists_isAt_iff.trans h.mem_left_iff

theorem IsFirst.flatten_append_perm : (first ++ below).flatten.Perm (List.range count) := by
  rw [List.flatten_append]
  exact (hbelow.perm.append_left _).trans h.perm

theorem IsFirst.below_append {slot other depth depth' : Nat}
    (hslot : IsLeft (Leads successors) count isRoot slot)
    (hother : ¬IsLeft (Leads successors) count isRoot other)
    (hat : IsAt (first ++ below) depth slot) (hat' : IsAt (first ++ below) depth' other) :
    depth' < depth := by
  rcases isAt_append.1 hat with habove | ⟨down, rfl, -⟩
  · exact absurd habove (h.not_isAt hslot)
  · rcases isAt_append.1 hat' with habove | ⟨down', -, hdown⟩
    · have hlt := habove.lt_length
      omega
    · exact absurd ((h.exists_isAt_iff hbelow).1 ⟨down', hdown⟩) hother

theorem IsFirst.seeded_append {slot : Nat}
    (hslot : IsLeft (Leads successors) count isRoot slot) :
    ∃ seed depth n, IsSeedOf (Leads successors) (IsLeft (Leads successors) count isRoot) seed slot ∧
      IsAt (first ++ below) depth seed ∧ IsAt (first ++ below) (depth + n) slot ∧
        IsDistance (Leads successors) (· = seed) n slot := by
  obtain ⟨seed, hseed⟩ := exists_isSeedOf (Leads successors) hslot
  obtain ⟨down, n, hat, hat', hdistance⟩ :=
    hbelow.seeded seed slot (h.mem_left_iff.2 hslot) ((h.isSeedOf_iff).1 hseed)
  refine ⟨seed, first.length + down, n, hseed, hat.append_right first, ?_, hdistance⟩
  rw [Nat.add_assoc]
  exact hat'.append_right first

theorem IsFirst.ordered_append {seed slot seed' slot' depth depth' : Nat}
    (hslot : IsLeft (Leads successors) count isRoot slot)
    (hseed : IsSeedOf (Leads successors) (IsLeft (Leads successors) count isRoot) seed slot)
    (hslot' : IsLeft (Leads successors) count isRoot slot')
    (hseed' : IsSeedOf (Leads successors) (IsLeft (Leads successors) count isRoot) seed' slot')
    (hlt : seed < seed') (hat : IsAt (first ++ below) depth slot)
    (hat' : IsAt (first ++ below) depth' slot') : depth < depth' := by
  rw [h.isSeedOf_iff] at hseed hseed'
  rcases isAt_append.1 hat with habove | ⟨down, rfl, hdown⟩
  · exact absurd habove (h.not_isAt hslot)
  · rcases isAt_append.1 hat' with habove | ⟨down', rfl, hdown'⟩
    · exact absurd habove (h.not_isAt hslot')
    · have hless := hbelow.ordered seed slot seed' slot' down down' hseed hseed' hlt hdown hdown'
      omega

theorem IsFirst.steps_append {a b depth depth' : Nat} (hlead : Leads successors a b)
    (ha : IsAt (first ++ below) depth a) (hb : IsAt (first ++ below) depth' b) :
    depth' ≤ depth + 1 := by
  have hnodup := (h.flatten_append_perm hbelow).nodup_iff.2 List.nodup_range
  suffices ∃ least ≤ depth + 1, IsAt (first ++ below) least b by
    obtain ⟨least, hle, hat⟩ := this
    exact hb.unique hnodup hat ▸ hle
  rcases isAt_append.1 ha with habove | ⟨down, rfl, hdown⟩
  · obtain ⟨least, hle, hat⟩ := h.closed depth a b habove hlead
    exact ⟨least, hle, hat.append_left below⟩
  · rcases isAt_append.1 hb with habove | ⟨down', rfl, hdown'⟩
    · have hlt := habove.lt_length
      exact ⟨depth', by omega, hb⟩
    · obtain ⟨least, hle, hat⟩ :=
        hbelow.closed down a b hdown hlead (hbelow.exists_isAt_iff.1 ⟨down', hdown'⟩)
      exact ⟨first.length + least, by omega, hat.append_right first⟩

theorem IsFirst.isLayered : IsLayered (Leads successors) count isRoot (first ++ below) where
  perm := h.flatten_append_perm hbelow
  nonempty := by
    rw [List.mem_append, not_or]
    exact ⟨h.nonempty, hbelow.nonempty⟩
  roots _ hslot := (h.isAt_zero hslot).append_left below
  reached slot hlt n hdistance := ((h.isAt_iff slot hlt n).2 hdistance).append_left below
  below _ _ _ _ := h.below_append hbelow
  seeded _ := h.seeded_append hbelow
  ordered _ _ _ _ _ _ := h.ordered_append hbelow
  steps _ _ _ _ := h.steps_append hbelow

end First

/-- The layers are depths below the roots, and then below the seeds. -/
theorem isLayered_of_leads_lt (hcount : ∀ a b, Leads successors a b → a < count ∧ b < count)
    (isRoot : Nat → Bool) :
    IsLayered (Leads successors) count (fun slot => slot < count ∧ isRoot slot = true)
      (layers successors count isRoot) := by
  obtain ⟨first, left, hlayers, hfirst⟩ := exists_isFirst hcount isRoot
  rw [hlayers]
  have hsorted : left.Pairwise (· < ·) := List.pairwise_lt_range.sublist hfirst.left_sublist
  exact hfirst.isLayered (isBelow_layersBelow hsorted hfirst.back)

end All

end StepGraph.Layering
