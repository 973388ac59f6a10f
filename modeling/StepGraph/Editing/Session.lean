import StepGraph.Editing.Basic
import StepGraph.Layout.Rows

/-!
# Editing sessions

`Edit` is an edit as data, with the identities of what it makes.  `Graph.apply` carries one out, and
`Graph.run` carries out a list of them; an edit that fails leaves the graph as it was.
-/

namespace StepGraph

variable {α : Type}

/-- An edit. -/
inductive Edit (α : Type) where
  | addNode (newId newStepId : String) (kind : NodeKind) (position : Point α)
  | addNodeAtDefault (newId newStepId : String) (kind : NodeKind) (viewCentre : Option (Point α))
  | duplicateNode (newId newStepId id : String)
  | removeNode (id : String)
  | moveNode (id : String) (position : Point α)
  | connect (newId source target : String) (handle : Option String)
  | disconnect (id : String)
  | setAction (id actionId : String) (definition : Option ActionDefinition)
  | setConfigValue (id key : String) (value : Value)
  | addBranchPath (id name : String)
  | removeBranchPath (id : String) (index : Nat)
  | arrange

/-- What an edit gives beside the graph. -/
inductive EditResult (α : Type) where
  | done
  | node (node : Node α)
  | edge (edge : Edge)
  | index (index : Nat)
  | path (path : BranchPath)

namespace Graph

variable [Coordinate α]

/-- Carries out an edit. -/
def perform (g : Graph α) : Edit α → Except EditError (EditResult α × Graph α)
  | .addNode newId newStepId kind position =>
    let (node, g) := g.addNode newId newStepId kind position
    .ok (.node node, g)
  | .addNodeAtDefault newId newStepId kind viewCentre =>
    let (node, g) := g.addNodeAtDefault newId newStepId kind viewCentre
    .ok (.node node, g)
  | .duplicateNode newId newStepId id => do
    let (node, g) ← g.duplicateNode newId newStepId id
    .ok (.node node, g)
  | .removeNode id => do
    let (node, g) ← g.removeNode id
    .ok (.node node, g)
  | .moveNode id position => do .ok (.done, ← g.moveNode id position)
  | .connect newId source target handle => do
    let (edge, g) ← g.connect newId source target handle
    .ok (.edge edge, g)
  | .disconnect id => do
    let (edge, g) ← g.disconnect id
    .ok (.edge edge, g)
  | .setAction id actionId definition => do .ok (.done, ← g.setAction id actionId definition)
  | .setConfigValue id key value => do .ok (.done, ← g.setConfigValue id key value)
  | .addBranchPath id name => do
    let (index, g) ← g.addBranchPath id name
    .ok (.index index, g)
  | .removeBranchPath id index => do
    let (path, g) ← g.removeBranchPath id index
    .ok (.path path, g)
  | .arrange => .ok (.done, g.arrange)

/-- The graph after an edit; the same graph if the edit fails. -/
def apply (g : Graph α) (edit : Edit α) : Graph α :=
  match g.perform edit with
  | .ok (_, g') => g'
  | .error _ => g

/-- The graph after a list of edits. -/
def run (g : Graph α) (edits : List (Edit α)) : Graph α := edits.foldl apply g

end Graph

end StepGraph
