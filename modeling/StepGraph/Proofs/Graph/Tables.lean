import Mathlib.Algebra.GroupWithZero.Nat
import StepGraph.Graph.Index
import StepGraph.Proofs.List

/-!
# Look-up tables and lists

Everything that the look-up tables of a graph answer can be found by search in its lists of nodes
and edges, whatever ids come twice and whatever edges have no end.  `Index.Describes` says so for
each look-up, and `Index.describes_index` that the tables of a graph describe the graph.

There are two groups.

* Edges.  Each edge is out of one id, or dangling: `edges_perm_outgoing`.
* The tables.
-/

namespace StepGraph

variable {α : Type}

namespace Index

/-! ## Edges -/

theorem mem_outgoing_index {g : Graph α} {id : String} {edge : Edge} :
    edge ∈ g.index.outgoing id ↔ edge ∈ g.edges ∧ g.resolves edge = true ∧ edge.source = id := by
  rw [outgoing_index, Graph.resolvedEdges, List.mem_filter, List.mem_filter, beq_iff_eq, and_assoc]

/-- An edge of the graph is out of no id exactly when it lacks an end. -/
theorem forall_not_mem_outgoing_index_iff {g : Graph α} {edge : Edge} (hedge : edge ∈ g.edges) :
    (∀ id, edge ∉ g.index.outgoing id) ↔ g.resolves edge = false := by
  simp only [mem_outgoing_index, hedge, true_and, not_and]
  constructor
  · intro h
    exact Bool.eq_false_iff.2 fun hresolves => h edge.source hresolves rfl
  · intro h id hresolves
    rw [h] at hresolves
    cases hresolves

/-- The source of an edge with both ends is the id of a node. -/
theorem source_mem_of_resolves {g : Graph α} {edge : Edge} (h : g.resolves edge = true) :
    edge.source ∈ (g.nodes.map (·.id)).eraseDups := by
  rw [Graph.resolves, Bool.and_eq_true, Graph.hasNode] at h
  simpa [List.mem_eraseDups] using h.1

/-- The dangling edges and the edges out of the ids of nodes are all edges, each once. -/
theorem edges_perm_outgoing (g : Graph α) :
    g.edges.Perm
      (g.index.dangling ++ (g.nodes.map (·.id)).eraseDups.flatMap g.index.outgoing) := by
  have hresolved : ((g.nodes.map (·.id)).eraseDups.flatMap g.index.outgoing).Perm
      g.resolvedEdges := by
    rw [List.flatMap_congr fun id _ => outgoing_index g id]
    exact flatMap_filter_key_perm (nodup_eraseDups _) fun edge hedge =>
      source_mem_of_resolves (List.mem_filter.1 hedge).2
  rw [dangling_index]
  exact ((hresolved.append_left _).trans
    (List.perm_append_comm.trans (List.filter_append_perm g.resolves g.edges))).symm

/-! ## The tables -/

open Classical in
/-- What look-up tables say, by search in the lists of a graph. -/
structure Describes (index : Index α) (g : Graph α) : Prop where
  /-- The slot of an id is the place of the first node that has it. -/
  slot : ∀ id slot, index.slot? id = some slot ↔
    ∃ node, g.nodes[slot]? = some node ∧ node.id = id ∧
      ∀ earlier < slot, ∀ other, g.nodes[earlier]? = some other → other.id ≠ id
  /-- The node of an id is the one that a search finds, and it is the one in the slot. -/
  node : ∀ id, index.node? id = g.node? id ∧
    index.node? id = (index.slot? id).bind fun slot => g.nodes[slot]?
  /-- The edges out of an id are those with this source and with both ends, in their order. -/
  outgoing : ∀ id, index.outgoing id =
    g.edges.filter fun edge => edge.source == id && g.resolves edge
  /-- The edges into an id are counted where they have both ends. -/
  incoming : ∀ id, index.incomingCount id =
    (g.edges.filter fun edge => edge.target == id && g.resolves edge).length
  /-- The edge through a handle is the first one out of the id. -/
  handle : ∀ id text edge, index.edgeFromHandle? id text = some edge ↔
    ∃ before after, index.outgoing id = before ++ edge :: after ∧ edge.sourceHandle = some text ∧
      ∀ other ∈ before, other.sourceHandle ≠ some text
  /-- A run may start at the nodes into which no edge with both ends leads. -/
  starts : index.startCandidates = g.nodes.filter fun node =>
    !g.edges.any fun edge => edge.target == node.id && g.resolves edge
  /-- The dangling edges are those that are out of no id, in their order. -/
  dangling : index.dangling = g.edges.filter fun edge => decide (∀ id, edge ∉ index.outgoing id)
  /-- No edge is out of two ids. -/
  oneSource : ∀ edge id id', edge ∈ index.outgoing id → edge ∈ index.outgoing id' → id = id'
  /-- Only ids of nodes have edges out of them. -/
  sources : ∀ id, g.hasNode id = false → index.outgoing id = []
  /-- Each edge is in one place. -/
  places : g.edges.Perm
    (index.dangling ++ (g.nodes.map (·.id)).eraseDups.flatMap index.outgoing)
  /-- The places have as many edges as there are. -/
  lengths : index.dangling.length +
      ((g.nodes.map (·.id)).eraseDups.map fun id => (index.outgoing id).length).sum =
    g.edges.length

theorem slot?_index_eq_some_iff {g : Graph α} {id : String} {slot : Nat} :
    g.index.slot? id = some slot ↔
      ∃ node, g.nodes[slot]? = some node ∧ node.id = id ∧
        ∀ earlier < slot, ∀ other, g.nodes[earlier]? = some other → other.id ≠ id := by
  rw [slot?_index, List.findIdx?_eq_some_iff_getElem]
  constructor
  · rintro ⟨hlt, hid, hbefore⟩
    refine ⟨g.nodes[slot], List.getElem?_eq_getElem hlt, by simpa using hid, ?_⟩
    intro earlier hearlier other hother
    obtain ⟨_, rfl⟩ := List.getElem?_eq_some_iff.1 hother
    simpa using hbefore earlier hearlier
  · rintro ⟨node, hnode, hid, hbefore⟩
    obtain ⟨hlt, rfl⟩ := List.getElem?_eq_some_iff.1 hnode
    refine ⟨hlt, by simpa using hid, fun earlier hearlier => ?_⟩
    simpa using hbefore earlier hearlier _ (List.getElem?_eq_getElem _)

/-- The first node with an id is the one in the slot of the id. -/
theorem node?_index_eq_slot (g : Graph α) (id : String) :
    g.index.node? id = (g.index.slot? id).bind fun slot => g.nodes[slot]? := by
  rw [node?_index, slot?_index, Graph.node?, List.find?_eq_bind_findIdx?_getElem?]

open Classical in
/-- The dangling edges are those that are out of no id. -/
theorem dangling_index_eq_filter (g : Graph α) :
    g.index.dangling = g.edges.filter fun edge => decide (∀ id, edge ∉ g.index.outgoing id) := by
  rw [dangling_index]
  refine List.filter_congr fun edge hedge => ?_
  rw [Bool.eq_iff_iff, Bool.not_eq_true', ← forall_not_mem_outgoing_index_iff hedge,
    decide_eq_true_iff]

theorem length_edges_index (g : Graph α) :
    g.index.dangling.length +
        ((g.nodes.map (·.id)).eraseDups.map fun id => (g.index.outgoing id).length).sum =
      g.edges.length := by
  rw [(edges_perm_outgoing g).length_eq, List.length_append, List.length_flatMap]

/-- The tables of a graph describe the graph. -/
theorem describes_index (g : Graph α) : g.index.Describes g where
  slot _ _ := slot?_index_eq_some_iff
  node id := ⟨node?_index g id, node?_index_eq_slot g id⟩
  outgoing id := by
    rw [outgoing_index, Graph.resolvedEdges, List.filter_filter]
  incoming id := by
    rw [incomingCount_index, Graph.resolvedEdges, List.countP_filter, List.countP_eq_length_filter]
  handle id text edge := by
    rw [edgeFromHandle?, List.find?_eq_some_iff_append]
    simp only [Edge.leavesThrough, beq_iff_eq, Bool.not_eq_true', beq_eq_false_iff_ne]
    constructor
    · rintro ⟨hthrough, before, after, hout, hbefore⟩
      exact ⟨before, after, hout, hthrough, hbefore⟩
    · rintro ⟨before, after, hout, hthrough, hbefore⟩
      exact ⟨hthrough, before, after, hout, hbefore⟩
  starts := by
    rw [startCandidates, nodes_index]
    refine List.filter_congr fun node _ => ?_
    rw [incomingCount_index, Graph.resolvedEdges, List.countP_filter, Bool.eq_iff_iff]
    simp [List.countP_eq_zero]
  dangling := dangling_index_eq_filter g
  oneSource edge id id' h h' :=
    (mem_outgoing_index.1 h).2.2.symm.trans (mem_outgoing_index.1 h').2.2
  sources id hid := by
    refine List.eq_nil_iff_forall_not_mem.2 fun edge hedge => ?_
    obtain ⟨-, hresolves, rfl⟩ := mem_outgoing_index.1 hedge
    rw [Graph.resolves, hid] at hresolves
    cases hresolves
  places := edges_perm_outgoing g
  lengths := length_edges_index g

end Index

end StepGraph
