/-!
# Layers

The slots of a list are put into layers along a successor function.  The first layer is given; each
layer after it holds the successors of the layer before that have no place yet, in the order in
which they are met.  Where layers run out, the first slot without a place starts anew below them.

`layersFrom` makes the layers below a given one, and `layers` goes on until every slot has its
place.  `length_layersFrom_le` bounds what is left over, which is why going on ends.
-/

namespace StepGraph.Layering

/-- The successors of a layer that have no place yet, each once, in the order they are met. -/
def nextLayer (successors : Nat → List Nat) (unplaced layer : List Nat) : List Nat :=
  ((layer.flatMap successors).filter fun slot => unplaced.contains slot).eraseDups

/-- The slots that a layer does not place. -/
def without (unplaced layer : List Nat) : List Nat :=
  unplaced.filter fun slot => !layer.contains slot

theorem mem_of_mem_nextLayer {successors : Nat → List Nat} {unplaced layer : List Nat} {slot : Nat}
    (h : slot ∈ nextLayer successors unplaced layer) : slot ∈ unplaced := by
  simp only [nextLayer, List.mem_eraseDups, List.mem_filter] at h
  simpa using h.2

/-- A layer places at least one slot. -/
theorem length_without_lt {successors : Nat → List Nat} {unplaced layer : List Nat} {slot : Nat}
    {rest : List Nat} (h : nextLayer successors unplaced layer = slot :: rest) :
    (without unplaced (slot :: rest)).length < unplaced.length := by
  have hmem : slot ∈ unplaced := mem_of_mem_nextLayer (h ▸ List.mem_cons_self)
  exact List.length_filter_lt_length_iff_exists.2 ⟨slot, hmem, by simp⟩

/-- The layers from a given one on, and the slots they leave without a place. -/
def layersFrom (successors : Nat → List Nat) (unplaced layer : List Nat) :
    List (List Nat) × List Nat :=
  match _h : nextLayer successors unplaced layer with
  | [] => ([layer], unplaced)
  | slot :: rest =>
    let (below, left) := layersFrom successors (without unplaced (slot :: rest)) (slot :: rest)
    (layer :: below, left)
termination_by unplaced.length
decreasing_by exact length_without_lt _h

/-- Layers leave no more slots than there were. -/
theorem length_layersFrom_le (successors : Nat → List Nat) (unplaced layer : List Nat) :
    (layersFrom successors unplaced layer).2.length ≤ unplaced.length := by
  fun_induction layersFrom successors unplaced layer with
  | case1 => simp
  | case2 unplaced layer slot rest h below left hsub ih =>
    have hlt := length_without_lt h
    simp only [hsub] at ih
    simp only
    omega

/-- The layers of slots that nothing above leads to: the first of them starts anew, and so on. -/
def layersBelow (successors : Nat → List Nat) : List Nat → List (List Nat)
  | [] => []
  | seed :: unplaced =>
    let p := layersFrom successors unplaced [seed]
    p.1 ++ layersBelow successors p.2
termination_by unplaced => unplaced.length
decreasing_by
  have := length_layersFrom_le successors unplaced [seed]
  simp only [List.length_cons]
  omega

/-- The layers of the slots below a count, from the given roots on. -/
def layers (successors : Nat → List Nat) (count : Nat) (isRoot : Nat → Bool) : List (List Nat) :=
  let (roots, others) := (List.range count).partition isRoot
  if roots.isEmpty then layersBelow successors others
  else
    let p := layersFrom successors others roots
    p.1 ++ layersBelow successors p.2

end StepGraph.Layering
