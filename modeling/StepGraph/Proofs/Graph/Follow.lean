import Mathlib.Logic.Relation
import Mathlib.Order.WellFoundedSet
import StepGraph.Graph.Index

/-!
# Following edges

An edge that resolves leads from one node id to another.  `Graph.Follows` is this relation on ids,
and a graph has a cycle when following edges leads from an id back to itself.

* `wellFounded_follows`: without a cycle, going back along edges comes to an end.
* `exists_forall_target_ne`: so some node has no edge into it, if there are nodes at all.
* `hasCycle_iff_reflTransGen`: one more edge closes a cycle exactly when its source could be reached
  from its target.
* `mem_startCandidates`: such nodes are what the look-up tables call start candidates.
-/

namespace StepGraph

open Relation (TransGen ReflTransGen)

variable {α : Type}

namespace Graph

/-! ## Nodes and resolved edges -/

theorem hasNode_iff {g : Graph α} {id : String} :
    g.hasNode id = true ↔ ∃ node ∈ g.nodes, node.id = id := by
  simp [hasNode]

theorem mem_resolvedEdges {g : Graph α} {edge : Edge} :
    edge ∈ g.resolvedEdges ↔
      edge ∈ g.edges ∧ g.hasNode edge.source = true ∧ g.hasNode edge.target = true := by
  simp [resolvedEdges, resolves]

/-- An edge that resolves leads from one id to the other. -/
def Follows (g : Graph α) (a b : String) : Prop :=
  ∃ edge ∈ g.resolvedEdges, edge.source = a ∧ edge.target = b

/-- Edges lead from some id back to it. -/
def HasCycle (g : Graph α) : Prop := ∃ id, TransGen g.Follows id id

theorem Follows.hasNode_left {g : Graph α} {a b : String} (h : g.Follows a b) :
    g.hasNode a = true := by
  obtain ⟨edge, hedge, rfl, _⟩ := h
  exact (mem_resolvedEdges.1 hedge).2.1

theorem Follows.hasNode_right {g : Graph α} {a b : String} (h : g.Follows a b) :
    g.hasNode b = true := by
  obtain ⟨edge, hedge, _, rfl⟩ := h
  exact (mem_resolvedEdges.1 hedge).2.2

/-- A cycle goes through nodes. -/
theorem hasNode_of_transGen {g : Graph α} {a b : String} (h : TransGen g.Follows a b) :
    g.hasNode a = true := by
  obtain ⟨_, hstep, _⟩ := TransGen.head'_iff.1 h
  exact hstep.hasNode_left

/-! ## Going back -/

/-- Without a cycle, going back along edges comes to an end. -/
theorem wellFounded_follows {g : Graph α} (h : ¬g.HasCycle) : WellFounded g.Follows := by
  have hirrefl : Std.Irrefl (TransGen g.Follows) := ⟨fun id hid => h ⟨id, hid⟩⟩
  have hstrict : IsStrictOrder String (TransGen g.Follows) := {}
  have hfinite : {id | id ∈ g.nodes.map (·.id)}.Finite := List.finite_toSet _
  have hwf := Set.wellFoundedOn_iff.1 (hfinite.wellFoundedOn (r := TransGen g.Follows))
  refine Subrelation.wf (fun {a b} hab => ⟨TransGen.single hab, ?_, ?_⟩) hwf
  · simpa [hasNode] using hab.hasNode_left
  · simpa [hasNode] using hab.hasNode_right

/-- Without a cycle, some node has no edge into it. -/
theorem exists_forall_target_ne {g : Graph α} (h : ¬g.HasCycle) (hnodes : g.nodes ≠ []) :
    ∃ node ∈ g.nodes, ∀ edge ∈ g.resolvedEdges, edge.target ≠ node.id := by
  obtain ⟨first, hfirst⟩ := List.exists_mem_of_ne_nil _ hnodes
  obtain ⟨id, hid, hmin⟩ := (wellFounded_follows h).has_min {id | g.hasNode id = true}
    ⟨first.id, hasNode_iff.2 ⟨first, hfirst, rfl⟩⟩
  obtain ⟨node, hnode, rfl⟩ := hasNode_iff.1 hid
  refine ⟨node, hnode, fun edge hedge htarget => ?_⟩
  exact hmin edge.source (mem_resolvedEdges.1 hedge).2.1 ⟨edge, hedge, rfl, htarget⟩

end Graph

/-! ## One more edge -/

/-- Where one step is added, a way is an old one, or leads to the source of the new step and on from
its target. -/
theorem transGen_or_through {β : Type} {r s : β → β → Prop} {source target : β}
    (h : ∀ a b, s a b → r a b ∨ a = source ∧ b = target) {a b : β} (hway : TransGen s a b) :
    TransGen r a b ∨ ReflTransGen r a source ∧ ReflTransGen r target b := by
  induction hway with
  | single hstep =>
    rcases h _ _ hstep with hold | ⟨rfl, rfl⟩
    · exact Or.inl (.single hold)
    · exact Or.inr ⟨.refl, .refl⟩
  | tail _ hstep ih =>
    rcases h _ _ hstep with hold | ⟨rfl, rfl⟩
    · rcases ih with hway | ⟨hto, hfrom⟩
      · exact Or.inl (hway.tail hold)
      · exact Or.inr ⟨hto, hfrom.tail hold⟩
    · rcases ih with hway | ⟨hto, _⟩
      · exact Or.inr ⟨hway.to_reflTransGen, .refl⟩
      · exact Or.inr ⟨hto, .refl⟩

namespace Graph

/-- Fewer edges close no cycle. -/
theorem HasCycle.mono {g g' : Graph α} (h : ∀ a b, g.Follows a b → g'.Follows a b)
    (hg : g.HasCycle) : g'.HasCycle := by
  obtain ⟨id, hcycle⟩ := hg
  exact ⟨id, TransGen.mono h _ _ hcycle⟩

/-- One more edge closes a cycle exactly when its source could be reached from its target. -/
theorem hasCycle_iff_reflTransGen {g g' : Graph α} {source target : String} (hg : ¬g.HasCycle)
    (h : ∀ a b, g'.Follows a b ↔ g.Follows a b ∨ a = source ∧ b = target) :
    g'.HasCycle ↔ ReflTransGen g.Follows target source := by
  constructor
  · rintro ⟨id, hcycle⟩
    rcases transGen_or_through (fun a b => (h a b).1) hcycle with hold | ⟨hto, hfrom⟩
    · exact absurd ⟨id, hold⟩ hg
    · exact hfrom.trans hto
  · intro hback
    have hnew : g'.Follows source target := (h source target).2 (Or.inr ⟨rfl, rfl⟩)
    have hback' : ReflTransGen g'.Follows target source :=
      ReflTransGen.mono (fun a b hab => (h a b).2 (Or.inl hab)) _ _ hback
    exact ⟨source, TransGen.head' hnew hback'⟩

end Graph

/-! ## In the look-up tables -/

namespace Index

/-- The start candidates are the nodes without an edge into them. -/
theorem mem_startCandidates {g : Graph α} {node : Node α} :
    node ∈ g.index.startCandidates ↔
      node ∈ g.nodes ∧ ∀ edge ∈ g.resolvedEdges, edge.target ≠ node.id := by
  simp [startCandidates, List.countP_eq_zero]

end Index

end StepGraph
