import StepGraph.Editing.Error
import StepGraph.Graph.Basic
import StepGraph.Layout.Place

/-!
# Editing a graph

Each edit keeps a graph in order: a node goes with its edges, a handle that leads to one node only
keeps a single edge, and branch handles stay numbered like the paths they belong to.  Identities of
new nodes and edges are given by the caller, who takes care that they are fresh.

There are four groups.

* Adding, moving and removing nodes.
* Connecting and disconnecting.
* Actions and their configuration.
* Branch paths.
-/

namespace StepGraph

open Layout (snap freePlace defaultPlace units gridSize)

variable {α : Type}

/-- Changes the first item that has a property. -/
def updateFirst {β : Type} (p : β → Bool) (f : β → β) : List β → List β
  | [] => []
  | b :: rest => if p b then f b :: rest else b :: updateFirst p f rest

namespace Graph

/-- The first node with an id, or the error that there is none. -/
def getNode (g : Graph α) (id : String) : Except EditError (Node α) :=
  match g.node? id with
  | some node => .ok node
  | none => .error (.nodeNotFound id)

/-- The first node with an id, which must be of a kind. -/
def getNodeOfKind (g : Graph α) (id : String) (kind : NodeKind) : Except EditError (Node α) := do
  let node ← g.getNode id
  if node.kind = kind then .ok node else .error (.wrongKind id kind)

/-- Changes the first node with an id. -/
def updateNode (g : Graph α) (id : String) (f : Node α → Node α) : Graph α :=
  { g with nodes := updateFirst (·.id == id) f g.nodes }

/-- Puts a node at the end of the list. -/
def pushNode (g : Graph α) (node : Node α) : Graph α := { g with nodes := g.nodes ++ [node] }

/-- The positions of all nodes. -/
def positions (g : Graph α) : List (Point α) := g.nodes.map (·.position)

/-! ## Nodes -/

section Placed

variable [Coordinate α]

/-- Adds a node where it was dropped, on the grid. -/
def addNode (g : Graph α) (id stepId : String) (kind : NodeKind) (position : Point α) :
    Node α × Graph α :=
  let node := Node.fresh id stepId kind (snap position)
  (node, g.pushNode node)

/-- Adds a node without a drop point. -/
def addNodeAtDefault (g : Graph α) (id stepId : String) (kind : NodeKind)
    (viewCentre : Option (Point α)) : Node α × Graph α :=
  let node := Node.fresh id stepId kind (defaultPlace g.positions viewCentre)
  (node, g.pushNode node)

/-- The distance between a node and its copy, along each axis. -/
def duplicateOffset : Nat := 2 * gridSize

/-- A copy of a node under new identities, at a place.  The copy's paths lead nowhere yet. -/
def copyOf (node : Node α) (id stepId : String) (position : Point α) : Node α where
  id := id
  kind := node.kind
  position := position
  data :=
    { node.data with
      stepId := stepId
      label := node.data.label ++ " (copy)"
      branches := node.data.branches.map fun path => { path with target := none } }

/-- Adds a copy of a node beside it.  Edges are not copied. -/
def duplicateNode (g : Graph α) (newId newStepId : String) (id : String) :
    Except EditError (Node α × Graph α) := do
  let node ← g.getNode id
  let desired := node.position.offset (units duplicateOffset) (units duplicateOffset)
  let copy := copyOf node newId newStepId (freePlace g.positions .diagonal desired)
  .ok (copy, g.pushNode copy)

/-- Moves a node, on the grid. -/
def moveNode (g : Graph α) (id : String) (position : Point α) : Except EditError (Graph α) := do
  let _ ← g.getNode id
  .ok (g.updateNode id fun node => { node with position := snap position })

end Placed

/-- Forgets that a path leads to a step. -/
def forgetTarget (stepId : String) (path : BranchPath) : BranchPath :=
  if path.target = some stepId then { path with target := none } else path

/-- Removes a node, the edges that touch it, and the paths' notes that lead to it. -/
def removeNode (g : Graph α) (id : String) : Except EditError (Node α × Graph α) := do
  let node ← g.getNode id
  .ok (node, {
    nodes := (g.nodes.eraseP (·.id == id)).map fun other =>
      other.updateBranches (·.map (forgetTarget node.data.stepId))
    edges := g.edges.filter fun edge => !edge.touches id })

/-! ## Edges -/

/-- Whether two edges join the same nodes at the same handle. -/
def sameConnection (a b : Edge) : Bool :=
  a.source == b.source && a.target == b.target && a.sourceHandle == b.sourceHandle

/-- Notes where the path at an index leads. -/
def setPathTarget (index : Nat) (target : Option String) (node : Node α) : Node α :=
  node.updateBranches (·.modify index fun path => { path with target := target })

/-- The path that an edge through a handle of a node takes: only a branch node has paths. -/
def pathTaken? (source : Node α) (handle : Option String) : Option Nat :=
  if source.isBranch then handle.bind Handle.branchIndex? else none

/-- The edges that stay when an edge is added: one that takes a path, or leaves through an approval
handle, stands in for those through the same handle. -/
def edgesBeside (edge : Edge) (takesPath : Bool) (edges : List Edge) : List Edge :=
  if takesPath || edge.hasApprovalHandle then
    edges.filter fun other => !(other.source == edge.source && other.sourceHandle == edge.sourceHandle)
  else edges

/-- Notes where a path of a node leads, if one is taken. -/
def noteTarget (g : Graph α) (id : String) (path? : Option Nat) (target : Option String) :
    Graph α :=
  match path? with
  | some index => g.updateNode id (setPathTarget index target)
  | none => g

/-- Connects two nodes.  An edge at a branch handle of a branch node, or at an approval handle,
takes the place of the edges that were there. -/
def connect (g : Graph α) (edgeId source target : String) (handle : Option String) :
    Except EditError (Edge × Graph α) := do
  let sourceNode ← g.getNode source
  let targetNode ← g.getNode target
  if source = target then .error (.selfLoop source)
  let edge : Edge := ⟨edgeId, source, target, handle, none⟩
  if g.edges.any (sameConnection edge) then
    .error (.duplicateEdge source target (handle.getD ""))
  let path? := pathTaken? sourceNode handle
  match path? with
  | some index =>
    if sourceNode.data.branches.length ≤ index then .error (.pathOutOfRange source index)
  | none => pure ()
  .ok (edge,
    { g.noteTarget source path? (some targetNode.data.stepId) with
      edges := edgesBeside edge path?.isSome g.edges ++ [edge] })

/-- Removes an edge, and the note of where its path leads. -/
def disconnect (g : Graph α) (edgeId : String) : Except EditError (Edge × Graph α) :=
  match g.edge? edgeId with
  | none => .error (.edgeNotFound edgeId)
  | some edge =>
    .ok (edge,
      { g.noteTarget edge.source edge.branchIndex? none with
        edges := g.edges.eraseP (·.id == edgeId) })

/-! ## Actions -/

/-- Chooses the action of a node.  The configuration belonged to the action before, so it is
cleared. -/
def setAction (g : Graph α) (id actionId : String) (definition : Option ActionDefinition) :
    Except EditError (Graph α) := do
  let _ ← g.getNodeOfKind id .action
  .ok (g.updateNode id (·.updateData fun data =>
    { data with actionId := some actionId, definition := definition, config := .empty }))

/-- Puts a value into the configuration of an action. -/
def setConfigValue (g : Graph α) (id key : String) (value : Value) :
    Except EditError (Graph α) := do
  let _ ← g.getNodeOfKind id .action
  .ok (g.updateNode id (·.updateData fun data =>
    { data with config := data.config.insert key value }))

/-! ## Branch paths -/

/-- A branch node keeps at least this many paths. -/
def leastPaths : Nat := 2

/-- Adds a path to a branch node, and gives its index. -/
def addBranchPath (g : Graph α) (id name : String) : Except EditError (Nat × Graph α) := do
  let node ← g.getNodeOfKind id .branch
  .ok (node.data.branches.length, g.updateNode id (·.updateBranches (· ++ [.ofName name])))

/-- Renumbers the handle of an edge after the path at an index of its source is gone. -/
def renumberHandle (index : Nat) (edge : Edge) : Edge :=
  match edge.branchIndex? with
  | some later =>
    if index < later then { edge with sourceHandle := some (Handle.branch (later - 1)) } else edge
  | none => edge

/-- The edges that stay when a path of a node goes: those of the path go with it, and the handles
of later paths are renumbered. -/
def edgesWithoutPath (id : String) (index : Nat) (edges : List Edge) : List Edge :=
  (edges.filter fun edge => !(edge.source == id && edge.branchIndex? == some index)).map fun edge =>
    if edge.source = id then renumberHandle index edge else edge

/-- Removes a path of a branch node with its edges, and renumbers the handles of the paths after
it. -/
def removeBranchPath (g : Graph α) (id : String) (index : Nat) :
    Except EditError (BranchPath × Graph α) := do
  let node ← g.getNodeOfKind id .branch
  let paths := node.data.branches
  if paths.length ≤ leastPaths then .error (.pathLimit id leastPaths)
  match paths[index]? with
  | none => .error (.pathOutOfRange id index)
  | some path =>
    .ok (path,
      { g.updateNode id (·.updateBranches (·.eraseIdx index)) with
        edges := edgesWithoutPath id index g.edges })

end Graph

end StepGraph
