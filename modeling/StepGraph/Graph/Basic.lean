import StepGraph.Graph.Handle
import StepGraph.Graph.Node

/-!
# Graphs

A graph is a list of nodes and a list of edges between their ids.  The order of the nodes matters:
it decides between possible starts and is the order of the compiled steps.  Nothing keeps ids
distinct or edges attached to nodes; where several nodes have one id, the first owns it.
-/

namespace StepGraph

/-! ## Edges -/

/-- A connection from one node to another, by id. -/
structure Edge where
  id : String
  source : String
  target : String
  sourceHandle : Option String
  targetHandle : Option String
deriving DecidableEq

namespace Edge

/-- Whether the edge leaves through a handle. -/
def leavesThrough (edge : Edge) (handle : String) : Bool := edge.sourceHandle == some handle

/-- The index of the branch path the edge leaves from. -/
def branchIndex? (edge : Edge) : Option Nat := edge.sourceHandle.bind Handle.branchIndex?

/-- Whether the edge leaves through a handle of an approval step. -/
def hasApprovalHandle (edge : Edge) : Bool := edge.sourceHandle.any Handle.isApproval

/-- Whether the edge leaves through a handle that leads to one node only. -/
def hasExclusiveHandle (edge : Edge) : Bool := edge.branchIndex?.isSome || edge.hasApprovalHandle

/-- Whether the edge starts or ends at a node. -/
def touches (edge : Edge) (id : String) : Bool := edge.source == id || edge.target == id

end Edge

/-! ## Graphs -/

/-- A graph of workflow steps. -/
structure Graph (α : Type) where
  nodes : List (Node α)
  edges : List Edge
deriving DecidableEq

namespace Graph

variable {α : Type}

/-- The graph without nodes and edges. -/
def empty : Graph α := ⟨[], []⟩

instance : Inhabited (Graph α) := ⟨empty⟩

/-- Whether the graph has no nodes. -/
def isEmpty (g : Graph α) : Bool := g.nodes.isEmpty

/-- The first node with an id. -/
def node? (g : Graph α) (id : String) : Option (Node α) := g.nodes.find? (·.id == id)

/-- The first edge with an id. -/
def edge? (g : Graph α) (id : String) : Option Edge := g.edges.find? (·.id == id)

/-- Whether a node has the id. -/
def hasNode (g : Graph α) (id : String) : Bool := g.nodes.any (·.id == id)

/-- Whether both ends of an edge are nodes. -/
def resolves (g : Graph α) (edge : Edge) : Bool := g.hasNode edge.source && g.hasNode edge.target

/-- The edges both of whose ends are nodes. -/
def resolvedEdges (g : Graph α) : List Edge := g.edges.filter g.resolves

end Graph

end StepGraph
