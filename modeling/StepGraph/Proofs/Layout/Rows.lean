import StepGraph.Editing.Basic
import StepGraph.Proofs.Graph.Alike
import StepGraph.Proofs.Layout.Layers

/-!
# Places in rows

Arranging a graph gives every node a place, and nothing but the layers decides which: no node keeps
the place it had.  The layers are made of slots and of edges between ids, so graphs with the same
flow are arranged in the same way.

* `positions_arrange` says that every node has the place of its slot.
* `SameFlow.layers_eq` and `SameFlow.positions_arrange_eq` are about graphs with the same flow.
-/

namespace StepGraph

open Layout

variable {α : Type} [Coordinate α]

/-- A slot in a layer has a place. -/
theorem Layout.isSome_layerPlace? {layers : List (List Nat)} {slot : Nat}
    (h : slot ∈ layers.flatten) : (layerPlace? layers slot : Option (Point α)).isSome = true := by
  obtain ⟨layer, hlayer, hslot⟩ := List.mem_flatten.1 h
  obtain ⟨depth, hdepth⟩ := List.getElem?_of_mem hlayer
  rw [layerPlace?, List.findSome?_isSome_iff]
  exact ⟨(layer, depth), List.mk_mem_zipIdx_iff_getElem?.2 hdepth, by simpa using hslot⟩

namespace Graph

variable {g g' : Graph α}

/-- Every node has the place of its slot. -/
theorem positions_arrange (g : Graph α) :
    g.arrange.positions.map some =
      (List.range g.nodes.length).map fun slot => layerPlace? g.layers slot := by
  have hslots : List.range g.nodes.length = g.nodes.zipIdx.map (·.2) := by
    rw [List.zipIdx_map_snd, List.range_eq_range']
  rw [positions, arrange, hslots, List.map_map, List.map_map, List.map_map]
  refine List.map_congr_left fun (node, slot) hmem => ?_
  have hslot : slot ∈ g.layers.flatten := by
    rw [g.flatten_layers_perm.mem_iff, List.mem_range]
    exact (List.getElem?_eq_some_iff.1 (List.mk_mem_zipIdx_iff_getElem?.1 hmem)).1
  obtain ⟨place, hplace⟩ := Option.isSome_iff_exists.1 (isSome_layerPlace? (α := α) hslot)
  simp [hplace]

omit [Coordinate α] in
/-- Graphs with the same flow have the same layers. -/
theorem SameFlow.layers_eq (h : g.SameFlow g') : g.layers = g'.layers := by
  have htargets : targetSlots g.index = targetSlots g'.index := by
    funext id
    have hways : ∀ g : Graph α, targetSlots g.index id =
        ((g.index.outgoing id).map (·.way)).filterMap fun way => g.index.slot? way.1 := by
      intro g
      rw [List.filterMap_map]
      rfl
    rw [hways, hways, h.index.ways]
    simp only [h.index.slot?]
  have htable : (g.nodes.map fun node => targetSlots g.index node.id) =
      g'.nodes.map fun node => targetSlots g'.index node.id :=
    map_eq_of_forall₂ h.nodes fun _ _ halike => by rw [htargets, halike.id]
  have hroots : (g.nodes.map fun node => g.index.incomingCount node.id == 0) =
      g'.nodes.map fun node => g'.index.incomingCount node.id == 0 :=
    map_eq_of_forall₂ h.nodes fun _ _ halike => by rw [h.index.incomingCount, halike.id]
  simp only [layers, htable, hroots, h.nodes.length_eq]

theorem SameFlow.positions_arrange_eq (h : g.SameFlow g') :
    g.arrange.positions = g'.arrange.positions := by
  have hsome : g.arrange.positions.map some = g'.arrange.positions.map some := by
    rw [positions_arrange, positions_arrange, h.layers_eq, h.nodes.length_eq]
  exact List.map_injective_iff.2 (Option.some_injective _) hsome

end Graph

end StepGraph
