import Std.Data.TreeMap.Lemmas
import StepGraph.Graph.Basic

/-!
# Look-up tables of a graph

`Graph.index` builds, in one pass over the nodes and one over the edges, the tables that validation,
compilation and layout look things up in.  An edge with an end that is no node is set aside as
dangling and takes no part in any other look-up.

There are two groups.

* The tables.  `ownerTable`, `outgoingTable` and `incomingTable` are built by recursion on the
  lists.
* What they hold.  `node?_index`, `slot?_index`, `outgoing_index` and `incomingCount_index` say it
  by plain search in the lists of the graph.
-/

namespace StepGraph

open Std (TreeMap)

variable {α : Type}

/-- The look-up tables of a graph. -/
structure Index (α : Type) where
  nodes : List (Node α)
  /-- The first node of each id, with its place in the list. -/
  owners : TreeMap String (Nat × Node α)
  /-- The edges out of each id, in the order of the list. -/
  outgoingEdges : TreeMap String (List Edge)
  /-- The number of edges into each id. -/
  incomingCounts : TreeMap String Nat
  dangling : List Edge

namespace Index

/-! ## The tables -/

/-- The first node of each id, with its place counted from `start`. -/
def ownerTable (start : Nat) : List (Node α) → TreeMap String (Nat × Node α)
  | [] => ∅
  | node :: rest => (ownerTable (start + 1) rest).insert node.id (start, node)

/-- The edges out of each id, in the order of the list. -/
def outgoingTable : List Edge → TreeMap String (List Edge)
  | [] => ∅
  | edge :: rest => (outgoingTable rest).alter edge.source fun edges => some (edge :: edges.getD [])

/-- The number of edges into each id. -/
def incomingTable : List Edge → TreeMap String Nat
  | [] => ∅
  | edge :: rest => (incomingTable rest).alter edge.target fun count => some (count.getD 0 + 1)

end Index

/-- The look-up tables of a graph. -/
def Graph.index (g : Graph α) : Index α :=
  let owners := Index.ownerTable 0 g.nodes
  let (resolved, dangling) :=
    g.edges.partition fun edge => owners.contains edge.source && owners.contains edge.target
  { nodes := g.nodes
    owners := owners
    outgoingEdges := Index.outgoingTable resolved
    incomingCounts := Index.incomingTable resolved
    dangling := dangling }

namespace Index

/-- The place of the first node with an id. -/
def slot? (index : Index α) (id : String) : Option Nat := index.owners[id]?.map (·.1)

/-- The first node with an id. -/
def node? (index : Index α) (id : String) : Option (Node α) := index.owners[id]?.map (·.2)

/-- Whether a node has the id. -/
def contains (index : Index α) (id : String) : Bool := index.owners.contains id

/-- The edges out of an id, in the order of the list. -/
def outgoing (index : Index α) (id : String) : List Edge := index.outgoingEdges[id]?.getD []

/-- The number of edges into an id. -/
def incomingCount (index : Index α) (id : String) : Nat := index.incomingCounts[id]?.getD 0

/-- The first edge out of an id through a handle. -/
def edgeFromHandle? (index : Index α) (id handle : String) : Option Edge :=
  (index.outgoing id).find? (·.leavesThrough handle)

/-- The nodes into whose id no edge leads, in the order of the list. -/
def startCandidates (index : Index α) : List (Node α) :=
  index.nodes.filter fun node => index.incomingCount node.id == 0

/-- The node a run begins at. -/
def startNode? (index : Index α) : Option (Node α) := index.startCandidates.head?

/-! ## What they hold -/

theorem getElem?_ownerTable (start : Nat) (nodes : List (Node α)) (id : String) :
    (ownerTable start nodes)[id]? =
      (nodes.zipIdx start).findSome? fun (node, slot) =>
        if node.id = id then some (slot, node) else none := by
  induction nodes generalizing start with
  | nil => simp [ownerTable]
  | cons node rest ih =>
    rw [ownerTable, Std.TreeMap.getElem?_insert, ih, List.zipIdx_cons, List.findSome?_cons]
    by_cases h : node.id = id <;> simp [h]

theorem getElem?_outgoingTable (edges : List Edge) (id : String) :
    (outgoingTable edges)[id]?.getD [] = edges.filter (·.source == id) := by
  induction edges with
  | nil => simp [outgoingTable]
  | cons edge rest ih =>
    rw [outgoingTable, Std.TreeMap.getElem?_alter]
    by_cases h : edge.source = id
    · subst h
      simp [ih]
    · simp [h, ih]

theorem getElem?_incomingTable (edges : List Edge) (id : String) :
    (incomingTable edges)[id]?.getD 0 = edges.countP (·.target == id) := by
  induction edges with
  | nil => simp [incomingTable]
  | cons edge rest ih =>
    rw [incomingTable, Std.TreeMap.getElem?_alter]
    by_cases h : edge.target = id
    · subst h
      simp [ih]
    · simp [h, ih]

theorem contains_ownerTable (start : Nat) (nodes : List (Node α)) (id : String) :
    (ownerTable start nodes).contains id = nodes.any (·.id == id) := by
  induction nodes generalizing start with
  | nil => simp [ownerTable]
  | cons node rest ih =>
    have : (compare node.id id == .eq) = (node.id == id) := by
      rw [Bool.eq_iff_iff]
      simp
    simp [ownerTable, Std.TreeMap.contains_insert, ih, this]

@[simp] theorem contains_index (g : Graph α) (id : String) :
    g.index.contains id = g.hasNode id := contains_ownerTable 0 g.nodes id

@[simp] theorem nodes_index (g : Graph α) : g.index.nodes = g.nodes := rfl

theorem partition_resolves (g : Graph α) :
    (g.edges.partition fun edge =>
        (ownerTable 0 g.nodes).contains edge.source &&
          (ownerTable 0 g.nodes).contains edge.target) =
      (g.resolvedEdges, g.edges.filter fun edge => !g.resolves edge) := by
  have : (fun edge : Edge => (ownerTable 0 g.nodes).contains edge.source &&
      (ownerTable 0 g.nodes).contains edge.target) = g.resolves := by
    funext edge
    simp [contains_ownerTable, Graph.resolves, Graph.hasNode]
  rw [this, List.partition_eq_filter_filter]
  rfl

/-- The edges out of an id are the resolved edges with that source. -/
@[simp] theorem outgoing_index (g : Graph α) (id : String) :
    g.index.outgoing id = g.resolvedEdges.filter (·.source == id) := by
  simp only [outgoing, Graph.index, partition_resolves]
  exact getElem?_outgoingTable _ _

/-- The number of edges into an id is the number of resolved edges with that target. -/
@[simp] theorem incomingCount_index (g : Graph α) (id : String) :
    g.index.incomingCount id = g.resolvedEdges.countP (·.target == id) := by
  simp only [incomingCount, Graph.index, partition_resolves]
  exact getElem?_incomingTable _ _

/-- The dangling edges are those that do not resolve. -/
@[simp] theorem dangling_index (g : Graph α) :
    g.index.dangling = g.edges.filter fun edge => !g.resolves edge := by
  simp only [Graph.index, partition_resolves]

/-- The first node with an id, found by search. -/
@[simp] theorem node?_index (g : Graph α) (id : String) : g.index.node? id = g.node? id := by
  have : ∀ (start : Nat) (nodes : List (Node α)),
      (ownerTable start nodes)[id]?.map (·.2) = nodes.find? (·.id == id) := by
    intro start nodes
    rw [getElem?_ownerTable]
    induction nodes generalizing start with
    | nil => rfl
    | cons node rest ih =>
      rw [List.zipIdx_cons, List.findSome?_cons, List.find?_cons]
      by_cases h : node.id = id
      · simp [h]
      · simp only [h, if_false, beq_eq_false_iff_ne.2 h]
        exact ih _
  exact this 0 g.nodes

/-- The place of the first node with an id, found by search. -/
@[simp] theorem slot?_index (g : Graph α) (id : String) :
    g.index.slot? id = g.nodes.findIdx? (·.id == id) := by
  have : ∀ (start : Nat) (nodes : List (Node α)),
      (ownerTable start nodes)[id]?.map (·.1) = (nodes.findIdx? (·.id == id)).map (· + start) := by
    intro start nodes
    rw [getElem?_ownerTable]
    induction nodes generalizing start with
    | nil => rfl
    | cons node rest ih =>
      rw [List.zipIdx_cons, List.findSome?_cons, List.findIdx?_cons]
      by_cases h : node.id = id
      · simp [h]
      · simp only [h, if_false, beq_iff_eq, Option.map_map]
        rw [ih]
        congr 1
        funext n
        simp [Function.comp]
        omega
  have h := this 0 g.nodes
  simpa [slot?, Graph.index] using h

end Index

end StepGraph
