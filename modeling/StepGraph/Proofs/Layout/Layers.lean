import StepGraph.Layout.Rows
import StepGraph.Proofs.Graph.Follow
import StepGraph.Proofs.Layout.Layering

/-!
# The layers of a graph

The slots of the node list stand for the nodes, so that nodes with one id are told apart: the first
of them owns the id, and edges lead to the owner only, while they lead away from all of them.

There are two groups.

* Slots and edges.  `Graph.LeadsTo` is the relation between slots, read off the lists of the graph,
  and `walk_leadsTo_succ_iff` says that its ways are the ways along edges from id to id.
* Layers.  `leads_successorSlots` says that an arrangement goes by this relation, and
  `isLayered_layers` which layer a slot is in, for every graph.
-/

namespace StepGraph.Graph

open Layering (Walk Leads IsLayered)

variable {α : Type}

/-! ## Slots and edges -/

/-- The first slot with an id. -/
def Owns (g : Graph α) (slot : Nat) (id : String) : Prop :=
  g.nodes.findIdx? (·.id == id) = some slot

/-- An edge leads from the id of a slot to an id that the other slot owns. -/
def LeadsTo (g : Graph α) (a b : Nat) : Prop :=
  ∃ node id, g.nodes[a]? = some node ∧ g.Follows node.id id ∧ g.Owns b id

/-- No edge leads to the id of a slot. -/
def IsRootSlot (g : Graph α) (slot : Nat) : Prop :=
  ∃ node, g.nodes[slot]? = some node ∧ ∀ edge ∈ g.resolvedEdges, edge.target ≠ node.id

variable {g : Graph α}

/-- The owner of an id has the id. -/
theorem Owns.exists_node {slot : Nat} {id : String} (h : g.Owns slot id) :
    ∃ node, g.nodes[slot]? = some node ∧ node.id = id := by
  obtain ⟨hlt, hid, -⟩ := List.findIdx?_eq_some_iff_getElem.1 h
  exact ⟨g.nodes[slot], List.getElem?_eq_getElem hlt, by simpa using hid⟩

/-- The id of a node has an owner. -/
theorem exists_owns {id : String} (h : g.hasNode id = true) : ∃ slot, g.Owns slot id := by
  refine Option.isSome_iff_exists.1 ?_
  rw [List.findIdx?_isSome]
  exact h

theorem LeadsTo.lt_length {a b : Nat} (h : g.LeadsTo a b) :
    a < g.nodes.length ∧ b < g.nodes.length := by
  obtain ⟨node, id, hnode, -, howner⟩ := h
  obtain ⟨owner, howner, -⟩ := howner.exists_node
  exact ⟨(List.getElem?_eq_some_iff.1 hnode).1, (List.getElem?_eq_some_iff.1 howner).1⟩

/-- Where edges lead from id to id, they lead from a slot to the owner. -/
theorem walk_leadsTo_succ_iff {a b n : Nat} :
    Walk g.LeadsTo a (n + 1) b ↔
      ∃ node id, g.nodes[a]? = some node ∧ Walk g.Follows node.id (n + 1) id ∧ g.Owns b id := by
  constructor
  · intro way
    induction n generalizing b with
    | zero =>
      obtain _ | ⟨way, node, id, hnode, hfollows, howner⟩ := way
      cases way
      exact ⟨node, id, hnode, .tail .refl hfollows, howner⟩
    | succ n ih =>
      obtain _ | ⟨way, node, id, hnode, hfollows, howner⟩ := way
      obtain ⟨first, id', hfirst, way, howner'⟩ := ih way
      obtain ⟨node', hnode', rfl⟩ := howner'.exists_node
      cases hnode.symm.trans hnode'
      exact ⟨first, id, hfirst, way.tail hfollows, howner⟩
  · rintro ⟨node, id, hnode, way, howner⟩
    induction n generalizing b id with
    | zero =>
      obtain _ | ⟨way, hfollows⟩ := way
      cases way
      exact .tail .refl ⟨node, id, hnode, hfollows, howner⟩
    | succ n ih =>
      obtain _ | ⟨way, hfollows⟩ := way
      obtain ⟨slot, hslot⟩ := exists_owns hfollows.hasNode_left
      obtain ⟨node', hnode', rfl⟩ := hslot.exists_node
      exact .tail (ih _ way hslot) ⟨node', id, hnode', hfollows, howner⟩

/-- The table of successors lists the slots that edges lead to. -/
theorem mem_targetSlots_iff {id : String} {b : Nat} :
    b ∈ targetSlots g.index id ↔ ∃ target, g.Follows id target ∧ g.Owns b target := by
  simp only [targetSlots, Index.outgoing_index, Index.slot?_index, List.mem_filterMap,
    List.mem_filter, beq_iff_eq]
  constructor
  · rintro ⟨edge, ⟨hedge, hsource⟩, howner⟩
    exact ⟨edge.target, ⟨edge, hedge, hsource, rfl⟩, howner⟩
  · rintro ⟨target, ⟨edge, hedge, hsource, rfl⟩, howner⟩
    exact ⟨edge, ⟨hedge, hsource⟩, howner⟩

/-! ## Layers -/

/-- The slots that the edges out of a slot lead to, by the table of an arrangement. -/
def successorSlots (g : Graph α) (slot : Nat) : List Nat :=
  (g.nodes.map fun node => targetSlots g.index node.id).toArray[slot]?.getD []

/-- Whether no edge leads to a slot, by the table of an arrangement. -/
def hasNoWayIn (g : Graph α) (slot : Nat) : Bool :=
  (g.nodes.map fun node => g.index.incomingCount node.id == 0).toArray[slot]?.getD false

/-- The table of successors is the relation. -/
theorem leads_successorSlots (g : Graph α) : Leads g.successorSlots = g.LeadsTo := by
  funext a b
  rw [Leads, successorSlots, LeadsTo, eq_iff_iff]
  cases hnode : g.nodes[a]? with
  | none => simp [hnode]
  | some node => simp [hnode, mem_targetSlots_iff]

theorem hasNoWayIn_eq_isRootSlot (g : Graph α) :
    (fun slot => slot < g.nodes.length ∧ g.hasNoWayIn slot = true) = g.IsRootSlot := by
  funext slot
  rw [hasNoWayIn, IsRootSlot, eq_iff_iff]
  cases hnode : g.nodes[slot]? with
  | none => simp [hnode]
  | some node =>
    obtain ⟨hlt, rfl⟩ := List.getElem?_eq_some_iff.1 hnode
    simp [hlt, List.countP_eq_zero]

theorem lt_length_of_leads {a b : Nat} (h : Leads g.successorSlots a b) :
    a < g.nodes.length ∧ b < g.nodes.length := by
  rw [leads_successorSlots] at h
  exact h.lt_length

/-- The layers are as they should be, by the tables. -/
theorem isLayered_successorSlots (g : Graph α) :
    IsLayered (Leads g.successorSlots) g.nodes.length
      (fun slot => slot < g.nodes.length ∧ g.hasNoWayIn slot = true) g.layers :=
  Layering.isLayered_of_leads_lt (fun _ _ => lt_length_of_leads) g.hasNoWayIn

/-- Every slot is in one layer, once. -/
theorem flatten_layers_perm (g : Graph α) : g.layers.flatten.Perm (List.range g.nodes.length) :=
  g.isLayered_successorSlots.perm

/-- No layer is empty. -/
theorem nil_not_mem_layers (g : Graph α) : [] ∉ g.layers := g.isLayered_successorSlots.nonempty

/-- The layers of a graph are depths below the slots that no edge leads to, and then below the least
slots that are left over. -/
theorem isLayered_layers (g : Graph α) :
    IsLayered g.LeadsTo g.nodes.length g.IsRootSlot g.layers := by
  rw [← leads_successorSlots, ← hasNoWayIn_eq_isRootSlot]
  exact g.isLayered_successorSlots

/-- A cycle that nothing leads into is below a node by itself. -/
example : layers (α := Float)
    { nodes := [.bare "solo" "s1" .action, .bare "x" "s2" .action, .bare "y" "s3" .action]
      edges := [⟨"e1", "x", "y", none, none⟩, ⟨"e2", "y", "x", none, none⟩] } =
    [[0], [1], [2]] := by
  decide +kernel

end StepGraph.Graph
