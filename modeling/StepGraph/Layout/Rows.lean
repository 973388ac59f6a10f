import StepGraph.Graph.Index
import StepGraph.Layout.Layering
import StepGraph.Layout.Place

/-!
# Arranging a graph

`Graph.arrange` gives every node a place in a row of its layer.  Nodes into which no edge leads are
in the first layer, and each edge leads down by one layer at most.  Nothing but positions changes.
-/

namespace StepGraph

open Layout

/-! ## Measures -/

namespace Layout

/-- The distance between the left edges of two boxes of a row. -/
def columnSpacing : Nat := nodeWidth + 4 * gridSize

/-- The distance between the top edges of two rows. -/
def layerSpacing : Nat := nodeHeight + 4 * gridSize

/-- Rows are centred on this coordinate. -/
def arrangeCentre : Nat := 400

/-- The first row has this height. -/
def arrangeTop : Nat := 100

/-- The place of a box in the row at a depth: the row is as wide as its boxes need and centred. -/
def rowPlace {α : Type} [Coordinate α] (depth width column : Nat) : Point α where
  x :=
    units arrangeCentre - units ((width - 1) * columnSpacing / 2) + units (column * columnSpacing)
  y := units (arrangeTop + depth * layerSpacing)

/-- The place of a slot that has a layer. -/
def layerPlace? {α : Type} [Coordinate α] (layers : List (List Nat)) (slot : Nat) :
    Option (Point α) :=
  layers.zipIdx.findSome? fun (layer, depth) =>
    (layer.idxOf? slot).map fun column => rowPlace depth layer.length column

end Layout

/-! ## The layers of a graph -/

namespace Graph

variable {α : Type}

/-- The slots that the edges out of an id lead to. -/
def targetSlots (index : Index α) (id : String) : List Nat :=
  (index.outgoing id).filterMap fun edge => index.slot? edge.target

/-- The layers of the slots of the node list. -/
def layers (g : Graph α) : List (List Nat) :=
  let index := g.index
  let table := (g.nodes.map fun node => targetSlots index node.id).toArray
  let roots := (g.nodes.map fun node => index.incomingCount node.id == 0).toArray
  Layering.layers (fun slot => table[slot]?.getD []) g.nodes.length
    (fun slot => roots[slot]?.getD false)

/-- The graph with every node in the row of its layer. -/
def arrange [Coordinate α] (g : Graph α) : Graph α :=
  let layers := g.layers
  { g with
    nodes := g.nodes.zipIdx.map fun (node, slot) =>
      { node with position := (layerPlace? layers slot).getD node.position } }

end Graph

end StepGraph
