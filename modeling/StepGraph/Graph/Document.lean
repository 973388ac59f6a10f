import StepGraph.Graph.Basic
import StepGraph.Json.Printer
import StepGraph.Json.Reader
import StepGraph.Json.Record

/-!
# Documents of graphs

Each part of a graph has a document, `toJson`, and is read from one, `ofJson?`.  The document names
the parts of a record in the order of their declaration, leaves out some of the parts that are
absent, and puts what the editor keeps for itself after the named parts of a node's data.

There are three groups.

* Conditions and branch paths.
* Nodes, with their action definitions and data.
* Edges and graphs.  `Graph.text` writes a graph and `Graph.ofText?` reads one.
-/

namespace StepGraph

/-! ## Conditions and branch paths -/

/-- A member that is there only when its value is present. -/
def presentMember {α : Type} (key : String) (toJson : α → Json) : Option α → List (String × Json)
  | some value => [(key, toJson value)]
  | none => []

namespace Operator

/-- Reads an operator.  A string is a name, known or not; every other document of a choice is read
only when the name is known. -/
def ofJson? : Json → Option Operator
  | .str name => some (ofName name)
  | j => (j.choice?.map ofName).filter isKnown

end Operator

namespace Condition

/-- The fields of a condition's document. -/
def keys : List String := ["field", "operator", "value"]

/-- The document of a condition. -/
def toJson (c : Condition) : Json :=
  .obj ([("field", .str c.field), ("operator", .str c.operator.name)] ++
    presentMember "value" Value.json c.value)

/-- Reads a condition; a null value is an absent one. -/
def ofJson? (j : Json) : Option Condition := do
  let r ← Record.ofJson? keys j
  some {
    field := ← r.required "field" Json.string?
    operator := ← r.required "operator" Operator.ofJson?
    value := ← r.optional "value" Value.ofJson? }

end Condition

namespace ConditionLogic

/-- Reads a combination from its written form. -/
def ofJson? (j : Json) : Option ConditionLogic := j.choice?.bind ofText?

end ConditionLogic

namespace BranchPath

/-- The fields of a path's document. -/
def keys : List String := ["name", "conditions", "conditionLogic", "targetTempId"]

/-- The document of a path. -/
def toJson (path : BranchPath) : Json :=
  .obj [("name", .str path.name), ("conditions", .arr (path.conditions.map Condition.toJson)),
    ("conditionLogic", .str path.logic.text), ("targetTempId", .ofString? path.target)]

/-- Reads a path. -/
def ofJson? (j : Json) : Option BranchPath := do
  let r ← Record.ofJson? keys j
  some {
    name := ← r.required "name" Json.string?
    conditions := ← r.list "conditions" Condition.ofJson?
    logic := ← r.withDefault "conditionLogic" .all ConditionLogic.ofJson?
    target := ← r.optional "targetTempId" Json.string? }

end BranchPath

/-! ## Nodes -/

namespace ActionField

/-- The fields of an input's document. -/
def keys : List String := ["name", "label", "required", "type"]

/-- The document of an input. -/
def toJson (field : ActionField) : Json :=
  .obj [("name", .str field.name), ("label", .str field.label), ("required", .bool field.required),
    ("type", .str field.type)]

/-- Reads an input. -/
def ofJson? (j : Json) : Option ActionField := do
  let r ← Record.ofJson? keys j
  some {
    name := ← r.required "name" Json.string?
    label := ← r.withDefault "label" "" Json.string?
    required := ← r.withDefault "required" false Json.bool?
    type := ← r.withDefault "type" "" Json.string? }

end ActionField

namespace ActionDefinition

/-- The fields of a definition's document. -/
def keys : List String := ["fields", "category"]

/-- The document of a definition. -/
def toJson (definition : ActionDefinition) : Json :=
  .obj ([("fields", .arr (definition.fields.map ActionField.toJson))] ++
    presentMember "category" Json.str definition.category)

/-- Reads a definition. -/
def ofJson? (j : Json) : Option ActionDefinition := do
  let r ← Record.ofJson? keys j
  some {
    fields := ← r.list "fields" ActionField.ofJson?
    category := ← r.optional "category" Json.string? }

end ActionDefinition

namespace StepData

/-- The named fields of the document of a step's data. -/
def keys : List String :=
  ["label", "tempId", "stepName", "actionId", "actionDefinition", "config", "branches"]

/-- The document of a step's data: empty parts are left out, and the editor's own follow. -/
def toJson (data : StepData) : Json :=
  .obj ([("label", .str data.label), ("tempId", .str data.stepId), ("stepName", .str data.stepName),
      ("actionId", .ofString? data.actionId)] ++
    presentMember "actionDefinition" ActionDefinition.toJson data.definition ++
    (if data.config.isEmpty then [] else [("config", .obj data.config.jsonMembers)]) ++
    (if data.branches.isEmpty then []
      else [("branches", .arr (data.branches.map BranchPath.toJson))]) ++
    data.extra.jsonMembers)

/-- Reads a step's data, from an object only.  What has no name is the editor's own. -/
def ofJson? : Json → Option StepData
  | .obj members => do
    let r ← Record.ofMembers? keys members
    some {
      label := ← r.withDefault "label" "" Json.string?
      stepId := ← r.withDefault "tempId" "" Json.string?
      stepName := ← r.withDefault "stepName" "" Json.string?
      actionId := ← r.optional "actionId" Json.string?
      definition := ← r.optional "actionDefinition" ActionDefinition.ofJson?
      config := ← r.withDefault "config" .empty Fields.ofJson?
      branches := ← r.list "branches" BranchPath.ofJson?
      extra := ← Fields.ofMembers? (members.filter fun m => !keys.contains m.1) }
  | _ => none

end StepData

namespace Point

/-- The document of a point. -/
def toJson (p : Point Float) : Json := .obj [("x", .ofFloat p.x), ("y", .ofFloat p.y)]

/-- Reads a point. -/
def ofJson? (j : Json) : Option (Point Float) := do
  let r ← Record.ofJson? ["x", "y"] j
  some { x := ← r.required "x" Json.float?, y := ← r.required "y" Json.float? }

end Point

namespace NodeKind

/-- Reads a kind from its written form. -/
def ofJson? (j : Json) : Option NodeKind := j.choice?.bind ofText?

end NodeKind

namespace Node

/-- The fields of a node's document. -/
def keys : List String := ["id", "type", "position", "data"]

/-- The document of a node. -/
def toJson (node : Node Float) : Json :=
  .obj [("id", .str node.id), ("type", .str node.kind.text), ("position", node.position.toJson),
    ("data", node.data.toJson)]

/-- Reads a node. -/
def ofJson? (j : Json) : Option (Node Float) := do
  let r ← Record.ofJson? keys j
  some {
    id := ← r.required "id" Json.string?
    kind := ← r.required "type" NodeKind.ofJson?
    position := ← r.withDefault "position" .zero Point.ofJson?
    data := ← r.withDefault "data" .empty StepData.ofJson? }

end Node

/-! ## Edges and graphs -/

namespace Edge

/-- The fields of an edge's document. -/
def keys : List String := ["id", "source", "target", "sourceHandle", "targetHandle"]

/-- The document of an edge. -/
def toJson (edge : Edge) : Json :=
  .obj ([("id", .str edge.id), ("source", .str edge.source), ("target", .str edge.target)] ++
    presentMember "sourceHandle" Json.str edge.sourceHandle ++
    presentMember "targetHandle" Json.str edge.targetHandle)

/-- Reads an edge. -/
def ofJson? (j : Json) : Option Edge := do
  let r ← Record.ofJson? keys j
  some {
    id := ← r.withDefault "id" "" Json.string?
    source := ← r.required "source" Json.string?
    target := ← r.required "target" Json.string?
    sourceHandle := ← r.optional "sourceHandle" Json.string?
    targetHandle := ← r.optional "targetHandle" Json.string? }

end Edge

namespace Graph

/-- The document of a graph. -/
def toJson (g : Graph Float) : Json :=
  .obj [("nodes", .arr (g.nodes.map Node.toJson)), ("edges", .arr (g.edges.map Edge.toJson))]

/-- Reads a graph. -/
def ofJson? (j : Json) : Option (Graph Float) := do
  let r ← Record.ofJson? ["nodes", "edges"] j
  some { nodes := ← r.list "nodes" Node.ofJson?, edges := ← r.list "edges" Edge.ofJson? }

/-- The text of a graph. -/
def text (g : Graph Float) : String := g.toJson.pretty

/-- Reads the text of a graph. -/
def ofText? (text : String) : Option (Graph Float) := (Json.read? text).bind ofJson?

end Graph

end StepGraph
