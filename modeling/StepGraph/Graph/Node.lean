import StepGraph.Geometry.Point
import StepGraph.Graph.Condition

/-!
# Nodes

A node is a step of a workflow: an action, which does something, or a branch, which chooses a path.
Its `id` belongs to the editor and may change when a graph is loaded again; the `stepId` of its data
is the identity that compiled workflows refer to.
-/

namespace StepGraph

/-! ## Actions -/

/-- An input that an action declares. -/
structure ActionField where
  name : String
  label : String
  required : Bool
  type : String
deriving DecidableEq

namespace ActionField

/-- A text input. -/
def text (name label : String) (required : Bool) : ActionField := ⟨name, label, required, "text"⟩

/-- The label shown to users: the name where there is no label. -/
def displayLabel (field : ActionField) : String :=
  if field.label.isEmpty then field.name else field.label

end ActionField

/-- What the catalog says about an action. -/
structure ActionDefinition where
  fields : List ActionField
  category : Option String
deriving DecidableEq

namespace ActionDefinition

/-- The category of actions that ask for approval. -/
def approvalCategory : String := "approval"

/-- The inputs that must be configured. -/
def requiredFields (definition : ActionDefinition) : List ActionField :=
  definition.fields.filter (·.required)

/-- Whether the action asks for approval. -/
def isApproval (definition : ActionDefinition) : Bool :=
  definition.category == some approvalCategory

end ActionDefinition

/-! ## Nodes -/

/-- The two kinds of node. -/
inductive NodeKind where
  | action
  | branch
deriving DecidableEq, Inhabited

/-- The written form of a kind. -/
def NodeKind.text : NodeKind → String
  | .action => "action"
  | .branch => "branch"

/-- The kind of a written form. -/
def NodeKind.ofText? : String → Option NodeKind
  | "action" => some .action
  | "branch" => some .branch
  | _ => none

/-- What an editor keeps about a step.  The parts that belong to the other kind are left empty. -/
structure StepData where
  label : String
  /-- The stable identity of the step. -/
  stepId : String
  stepName : String
  actionId : Option String
  definition : Option ActionDefinition
  config : Fields
  branches : List BranchPath
  /-- What the editor keeps for itself; nothing here interprets it. -/
  extra : Fields
deriving DecidableEq

/-- Data with all parts empty. -/
def StepData.empty : StepData := ⟨"", "", "", none, none, .empty, [], .empty⟩

instance : Inhabited StepData := ⟨.empty⟩

/-- A node of a graph. -/
structure Node (α : Type) where
  id : String
  kind : NodeKind
  position : Point α
  data : StepData
deriving DecidableEq

namespace Node

variable {α : Type}

/-- A node as an editor makes it: a branch starts with two paths. -/
def fresh (id stepId : String) (kind : NodeKind) (position : Point α) : Node α where
  id := id
  kind := kind
  position := position
  data :=
    match kind with
    | .action => { StepData.empty with label := "New Action", stepId := stepId }
    | .branch =>
      { StepData.empty with
        label := "Condition"
        stepId := stepId
        branches := [.ofName "Path 1", .ofName "Path 2"] }

/-- A node at the origin that has its id for a label and no other data. -/
def bare [Coordinate α] (id stepId : String) (kind : NodeKind) : Node α :=
  ⟨id, kind, .zero, { StepData.empty with label := id, stepId := stepId }⟩

/-- Whether the node is an action. -/
def isAction (node : Node α) : Bool := node.kind == .action

/-- Whether the node is a branch. -/
def isBranch (node : Node α) : Bool := node.kind == .branch

/-- Whether the node is an action that asks for approval. -/
def isApproval (node : Node α) : Bool :=
  node.isAction && node.data.definition.any (·.isApproval)

/-- The name used in messages: the label, else the step's name, else the id. -/
def displayName (node : Node α) : String :=
  if !node.data.label.isEmpty then node.data.label
  else if !node.data.stepName.isEmpty then node.data.stepName
  else node.id

/-- The node with its data changed. -/
def updateData (node : Node α) (f : StepData → StepData) : Node α :=
  { node with data := f node.data }

/-- The node with its branch paths changed. -/
def updateBranches (node : Node α) (f : List BranchPath → List BranchPath) : Node α :=
  node.updateData fun data => { data with branches := f data.branches }

end Node

end StepGraph
