import Mathlib.Algebra.BigOperators.Group.List.Basic
import Mathlib.Tactic.Ring
import StepGraph.Proofs.Layout.Grid
import StepGraph.Proofs.Layout.Rows
import StepGraph.Proofs.Validation.Alike

/-!
# Arranged graphs

Arranging a graph puts every node into a row: the row of its layer, at its place in the layer.  Rows
and the boxes of a row have more distance than the largest margin a test for overlaps is made with,
rows are centred, and all places are on the grid.

There are three groups.

* Places of a row, with exact coordinates.
* Slots and places.  `exists_rowPlace_of_layerPlace?` says where a slot is put, and
  `map_layerPlace?` where the slots of a layer are.
* The arranged graph, `isArranged_arrange`.
-/

namespace StepGraph

namespace Layout

open Layering (IsAt)

/-! ## Places of a row -/

theorem rowPlace_rat (depth width column : Nat) :
    (rowPlace depth width column : Point Rat) =
      ⟨400 - ((width - 1 : Nat) : Rat) * 180 + column * 360, 100 + depth * 200⟩ := by
  have hhalf : (width - 1) * columnSpacing / 2 = (width - 1) * 180 := by
    simp only [columnSpacing, nodeWidth, gridSize]
    omega
  have hx : (rowPlace depth width column : Point Rat).x =
      400 - ((width - 1) * 180 : Nat) + (column * 360 : Nat) := by
    rw [rowPlace, hhalf]
    rfl
  have hy : (rowPlace depth width column : Point Rat).y = (100 + depth * 200 : Nat) := rfl
  push_cast at hx hy
  rw [← hx, ← hy]

/-- Every place of a row is on the grid. -/
theorem onGrid_rowPlace (depth width column : Nat) :
    OnGrid (units gridSize) (rowPlace depth width column) := by
  rw [rowPlace_rat, units_rat, gridSize]
  refine ⟨⟨20 - ((width - 1 : Nat) : Int) * 9 + column * 18, ?_⟩, 5 + depth * 10, ?_⟩ <;>
    push_cast <;> ring

/-- Boxes of one row at different columns, and boxes of different rows, keep a distance of 80. -/
theorem overlaps_rowPlace {depth depth' width width' column column' : Nat}
    (h : depth = depth' → width = width' ∧ column ≠ column') {margin : Rat} (hmargin : margin ≤ 80) :
    overlaps (rowPlace depth width column) (rowPlace depth' width' column') margin = false := by
  rw [Bool.eq_false_iff, Ne, overlaps_rat, rowPlace_rat, rowPlace_rat]
  rintro ⟨⟨hx, hx'⟩, hy, hy'⟩
  dsimp only at hx hx' hy hy'
  by_cases hdepth : depth = depth'
  · obtain ⟨rfl, hcolumn⟩ := h hdepth
    rcases Nat.lt_or_gt_of_ne hcolumn with hlt | hlt
    · have hlt : (column : Rat) + 1 ≤ column' := by exact_mod_cast hlt
      linarith
    · have hlt : (column' : Rat) + 1 ≤ column := by exact_mod_cast hlt
      linarith
  · rcases Nat.lt_or_gt_of_ne hdepth with hlt | hlt
    · have hlt : (depth : Rat) + 1 ≤ depth' := by exact_mod_cast hlt
      linarith
    · have hlt : (depth' : Rat) + 1 ≤ depth := by exact_mod_cast hlt
      linarith

/-- Places in equal steps, added up. -/
theorem sum_map_range_add_mul (start step : Rat) (count : Nat) :
    ((List.range count).map fun n : Nat => start + n * step).sum =
      count * start + count * (count - 1) / 2 * step := by
  induction count with
  | zero => simp
  | succ count ih =>
    rw [List.sum_range_succ, ih]
    push_cast
    ring

/-- The places of a row are on both sides of its centre alike. -/
theorem sum_x_rowPlace (depth width : Nat) :
    (((List.range width).map fun column => (rowPlace depth width column : Point Rat)).map
      (·.x)).sum = width * 400 := by
  have hx : ∀ column : Nat, (rowPlace depth width column : Point Rat).x =
      (400 - ((width - 1 : Nat) : Rat) * 180) + column * 360 := by
    intro column
    rw [rowPlace_rat]
  rw [List.map_map]
  simp only [Function.comp_def, hx, sum_map_range_add_mul]
  cases width with
  | zero => simp
  | succ width =>
    push_cast [Nat.add_sub_cancel]
    ring

/-! ## Slots and places -/

section Places

variable {α : Type} [Coordinate α] {layers : List (List Nat)}

/-- A slot that has a place is in a layer, and has the place of its column. -/
theorem exists_rowPlace_of_layerPlace? {slot : Nat} {place : Point α}
    (h : layerPlace? layers slot = some place) :
    ∃ depth layer column, layers[depth]? = some layer ∧ layer[column]? = some slot ∧
      place = rowPlace depth layer.length column := by
  obtain ⟨⟨layer, depth⟩, hmem, hplace⟩ := List.exists_of_findSome?_eq_some h
  obtain ⟨column, hcolumn, rfl⟩ := Option.map_eq_some_iff.1 hplace
  obtain ⟨hlt, hslot, -⟩ := List.idxOf?_eq_some_iff.1 hcolumn
  exact ⟨depth, layer, column, List.mk_mem_zipIdx_iff_getElem?.1 hmem,
    List.getElem?_eq_some_iff.2 ⟨hlt, hslot⟩, rfl⟩

/-- Where every slot is in one layer, once, the slots of a layer have the places of its row. -/
theorem map_layerPlace? (hnodup : layers.flatten.Nodup) {depth : Nat} {layer : List Nat}
    (hlayer : layers[depth]? = some layer) :
    layer.map (layerPlace? layers) =
      ((List.range layer.length).map fun column =>
        (rowPlace depth layer.length column : Point α)).map some := by
  refine List.ext_getElem (by simp) fun column hcolumn _ => ?_
  rw [List.length_map] at hcolumn
  rw [List.getElem_map, List.getElem_map, List.getElem_map, List.getElem_range]
  have hslot : layer[column] ∈ layers.flatten :=
    List.mem_flatten.2 ⟨layer, List.mem_of_getElem? hlayer, List.getElem_mem hcolumn⟩
  obtain ⟨place, hplace⟩ := Option.isSome_iff_exists.1 (isSome_layerPlace? (α := α) hslot)
  obtain ⟨depth', layer', column', hlayer', hslot', rfl⟩ := exists_rowPlace_of_layerPlace? hplace
  obtain rfl : depth' = depth := IsAt.unique hnodup ⟨layer', hlayer', List.mem_of_getElem? hslot'⟩
    ⟨layer, hlayer, List.getElem_mem hcolumn⟩
  obtain rfl : layer' = layer := Option.some.inj (hlayer'.symm.trans hlayer)
  obtain ⟨hlt, hsame⟩ := List.getElem?_eq_some_iff.1 hslot'
  have hlayerNodup := (List.nodup_flatten.1 hnodup).1 _ (List.mem_of_getElem? hlayer)
  obtain rfl : column' = column := (hlayerNodup.getElem_inj_iff).1 hsame
  rw [hplace]

end Places

end Layout

/-! ## The arranged graph -/

/-- A node that is the same but for its place. -/
def Node.IsMoved {α : Type} (node moved : Node α) : Prop :=
  moved = { node with position := moved.position }

/-- Nodes that are the same but for their places are the same where the places are. -/
theorem eq_of_forall₂_isMoved {α : Type} {nodes moved : List (Node α)}
    (h : List.Forall₂ Node.IsMoved nodes moved)
    (hplaces : nodes.map (·.position) = moved.map (·.position)) : nodes = moved := by
  induction h with
  | nil => rfl
  | @cons node other _ _ hmoved _ ih =>
    rw [List.map_cons, List.map_cons, List.cons.injEq] at hplaces
    rw [ih hplaces.2, show node = other by rw [hmoved, ← hplaces.1]]

namespace Graph

open Layout

section Places

variable {α : Type} [Coordinate α]

/-- Arranging changes nothing but places. -/
theorem forall₂_isMoved_arrange (g : Graph α) :
    List.Forall₂ Node.IsMoved g.nodes g.arrange.nodes := by
  have hmoved : List.Forall₂ Node.IsMoved (g.nodes.zipIdx.map (·.1)) g.arrange.nodes := by
    rw [arrange, List.forall₂_map_left_iff, List.forall₂_map_right_iff, List.forall₂_same]
    exact fun _ _ => rfl
  rwa [List.zipIdx_map_fst] at hmoved

/-- A node of an arranged graph has the place of its slot. -/
theorem getElem?_positions_arrange (g : Graph α) {slot : Nat} (h : slot < g.nodes.length) :
    g.arrange.positions[slot]? = layerPlace? g.layers slot := by
  have hsome := congrArg (·[slot]?) g.positions_arrange
  simp only [List.getElem?_map, List.getElem?_range h, Option.map_some] at hsome
  obtain ⟨place, hplace, heq⟩ := Option.map_eq_some_iff.1 hsome
  rw [hplace, heq]

/-- What has been arranged stays as it is. -/
theorem arrange_arrange (g : Graph α) : g.arrange.arrange = g.arrange := by
  have hplaces : g.arrange.positions = g.arrange.arrange.positions :=
    g.sameFlow_arrange.1.positions_arrange_eq
  have hnodes := eq_of_forall₂_isMoved (forall₂_isMoved_arrange g.arrange) hplaces
  exact congrArg (Graph.mk · g.edges) hnodes.symm

end Places

/-- What arranging makes of a graph: nothing but places is new, no two boxes come closer to each
other than 80 along both axes, all places are on the grid, every layer is a centred row, and
there is nothing left to arrange. -/
structure IsArranged (g arranged : Graph Rat) : Prop where
  edges : arranged.edges = g.edges
  nodes : List.Forall₂ Node.IsMoved g.nodes arranged.nodes
  clear : arranged.nodes.Pairwise fun a b => ∀ margin ≤ 80,
    overlaps a.position b.position margin = false ∧ overlaps b.position a.position margin = false
  onGrid : ∀ node ∈ arranged.nodes,
    OnGrid (units gridSize) node.position ∧ snap node.position = node.position
  /-- Every slot is in one layer, once. -/
  layered : g.layers.flatten.Perm (List.range g.nodes.length)
  centred : ∀ layer ∈ g.layers, ∃ places : List (Point Rat),
    layer.map (arranged.positions[·]?) = places.map some ∧
      (places.map (·.x)).sum / places.length = 400
  again : arranged.arrange = arranged

variable {g : Graph Rat}

/-- The node of a slot is at a place of the row of its layer. -/
theorem exists_rowPlace_of_mem_arrange {slot : Nat} {node : Node Rat}
    (h : g.arrange.nodes[slot]? = some node) :
    ∃ depth layer column, g.layers[depth]? = some layer ∧ layer[column]? = some slot ∧
      node.position = rowPlace depth layer.length column := by
  have hslot : slot < g.nodes.length := by
    rw [(forall₂_isMoved_arrange g).length_eq]
    exact (List.getElem?_eq_some_iff.1 h).1
  have hplace := g.getElem?_positions_arrange hslot
  rw [positions, List.getElem?_map, h, Option.map_some] at hplace
  exact exists_rowPlace_of_layerPlace? hplace.symm

/-- Two nodes are in different rows, or at different columns of one. -/
theorem overlaps_arrange {slot slot' : Nat} {a b : Node Rat} (hne : slot ≠ slot')
    (ha : g.arrange.nodes[slot]? = some a) (hb : g.arrange.nodes[slot']? = some b) {margin : Rat}
    (hmargin : margin ≤ 80) : overlaps a.position b.position margin = false := by
  obtain ⟨depth, layer, column, hlayer, hslot, hplace⟩ := exists_rowPlace_of_mem_arrange ha
  obtain ⟨depth', layer', column', hlayer', hslot', hplace'⟩ := exists_rowPlace_of_mem_arrange hb
  rw [hplace, hplace']
  refine overlaps_rowPlace (fun hdepth => ?_) hmargin
  subst hdepth
  obtain rfl : layer = layer' := Option.some.inj (hlayer.symm.trans hlayer')
  refine ⟨rfl, fun hcolumn => hne ?_⟩
  subst hcolumn
  exact Option.some.inj (hslot.symm.trans hslot')

/-- The nodes of a layer are on both sides of the centre alike. -/
theorem exists_places_of_mem_layers {layer : List Nat} (h : layer ∈ g.layers) :
    ∃ places : List (Point Rat), layer.map (g.arrange.positions[·]?) = places.map some ∧
      (places.map (·.x)).sum / places.length = 400 := by
  obtain ⟨depth, hdepth⟩ := List.mem_iff_getElem?.1 h
  have hperm := g.flatten_layers_perm
  have hplaces : layer.map (g.arrange.positions[·]?) = layer.map (layerPlace? g.layers) := by
    refine List.map_congr_left fun slot hslot => g.getElem?_positions_arrange ?_
    exact List.mem_range.1 (hperm.mem_iff.1 (List.mem_flatten.2 ⟨layer, h, hslot⟩))
  refine ⟨_, hplaces.trans (map_layerPlace? (hperm.nodup_iff.2 List.nodup_range) hdepth), ?_⟩
  have hne : layer ≠ [] := fun hnil => g.nil_not_mem_layers (hnil ▸ h)
  have hlength : (layer.length : Rat) ≠ 0 := by simpa using hne
  rw [sum_x_rowPlace, List.length_map, List.length_range, mul_div_cancel_left₀ _ hlength]

/-- Every graph is arranged so, cyclic ones and those with ids that come twice among them. -/
theorem isArranged_arrange (g : Graph Rat) : g.IsArranged g.arrange where
  edges := rfl
  nodes := g.forall₂_isMoved_arrange
  clear := by
    rw [List.pairwise_iff_getElem]
    intro i j hi hj hlt margin hmargin
    have ha := List.getElem?_eq_getElem hi
    have hb := List.getElem?_eq_getElem hj
    exact ⟨overlaps_arrange hlt.ne ha hb hmargin, overlaps_arrange hlt.ne' hb ha hmargin⟩
  onGrid := by
    intro node hnode
    obtain ⟨slot, hslot⟩ := List.mem_iff_getElem?.1 hnode
    obtain ⟨depth, layer, column, -, -, hplace⟩ := exists_rowPlace_of_mem_arrange hslot
    have hgrid := hplace ▸ onGrid_rowPlace depth layer.length column
    exact ⟨hgrid, snap_eq_self hgrid⟩
  layered := g.flatten_layers_perm
  centred _ := exists_places_of_mem_layers
  again := g.arrange_arrange

end Graph

end StepGraph
