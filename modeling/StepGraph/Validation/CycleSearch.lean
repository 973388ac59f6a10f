/-!
# Searching for a cycle

A depth-first search over the vertices of a directed graph, given by the list of successors of each
vertex.  It follows successors in order and stops at the first one that lies on the path being
followed; the vertex it was followed from closes a cycle.

`CycleSearch.follow` goes on from a path until a cycle closes or the path is used up, and
`CycleSearch.run` starts one path after another at the vertices that no earlier path has reached.
Each vertex is expanded once, since only a fresh vertex is, and then it is fresh no more.

A path costs one unit of work for each of its frames and pending successors.  Expanding a fresh
vertex adds to the path what the vertex held in reserve (`freshWork_erase`), and every other step
uses up a unit, so the two together bound the search.
-/

namespace StepGraph.CycleSearch

variable {V : Type} [DecidableEq V]

/-- A vertex on the path, with the successors that are still to be followed. -/
structure Frame (V : Type) where
  vertex : V
  pending : List V

/-- How far a search has come. -/
structure Progress (V : Type) where
  /-- The vertices that have not been expanded. -/
  fresh : List V
  /-- The vertices that have been expanded, the latest first. -/
  expanded : List V
  /-- The vertex with a successor on its own path, once there is one. -/
  found : Option V

/-- The work left on a path: one unit for each frame and each pending successor. -/
def pathWork : List (Frame V) → Nat
  | [] => 0
  | frame :: outer => frame.pending.length + 1 + pathWork outer

/-- The work that fresh vertices may still make: that of the frame of each. -/
def freshWork (successors : V → List V) : List V → Nat
  | [] => 0
  | v :: rest => (successors v).length + 1 + freshWork successors rest

/-- The work of a fresh vertex is that of its frame. -/
theorem freshWork_erase (successors : V → List V) {fresh : List V} {w : V} (h : w ∈ fresh) :
    freshWork successors (fresh.erase w) + ((successors w).length + 1) =
      freshWork successors fresh := by
  induction fresh with
  | nil => simp at h
  | cons v rest ih =>
    by_cases hv : v = w
    · subst hv
      simp [freshWork]
      omega
    · have hw : w ∈ rest := by simpa [Ne.symm hv] using h
      have := ih hw
      simp only [List.erase_cons, beq_iff_eq, hv, if_false, freshWork]
      omega

/-- Goes on from a path, the innermost vertex first. -/
def follow (successors : V → List V) (fresh expanded : List V) : List (Frame V) → Progress V
  | [] => ⟨fresh, expanded, none⟩
  | ⟨_, []⟩ :: outer => follow successors fresh expanded outer
  | ⟨v, w :: ws⟩ :: outer =>
    if w = v ∨ w ∈ outer.map (·.vertex) then ⟨fresh, expanded, some v⟩
    else if w ∈ fresh then
      follow successors (fresh.erase w) (w :: expanded) (⟨w, successors w⟩ :: ⟨v, ws⟩ :: outer)
    else follow successors fresh expanded (⟨v, ws⟩ :: outer)
termination_by path => freshWork successors fresh + pathWork path
decreasing_by
  · simp [pathWork]
  · have := freshWork_erase successors ‹w ∈ fresh›
    simp only [pathWork, List.length_cons]
    omega
  · simp [pathWork]

/-- Starts at a vertex, unless an earlier path has reached it or a cycle is already found. -/
def visit (successors : V → List V) (p : Progress V) (root : V) : Progress V :=
  if p.found.isNone ∧ root ∈ p.fresh then
    follow successors (p.fresh.erase root) (root :: p.expanded) [⟨root, successors root⟩]
  else p

/-- Starts at the vertices in turn. -/
def run (successors : V → List V) (vertices : List V) : Progress V :=
  vertices.foldl (visit successors) ⟨vertices.eraseDups, [], none⟩

/-- The vertex whose successor closes the first cycle found. -/
def find? (successors : V → List V) (vertices : List V) : Option V :=
  (run successors vertices).found

end StepGraph.CycleSearch
