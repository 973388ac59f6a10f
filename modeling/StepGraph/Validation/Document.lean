import StepGraph.Json.Printer
import StepGraph.Json.Record
import StepGraph.Validation.Diagnostic

/-!
# Documents of verdicts

The document of a diagnostic, and of the verdict that holds them.
-/

namespace StepGraph

namespace Diagnostic

/-- The fields of a diagnostic's document. -/
def keys : List String := ["nodeId", "type", "message"]

/-- The document of a diagnostic. -/
def toJson (d : Diagnostic) : Json :=
  .obj [("nodeId", .ofString? d.nodeId), ("type", .str d.severity.text),
    ("message", .str d.message)]

/-- Reads a severity from its written form. -/
def severityOfJson? (j : Json) : Option Severity := j.choice?.bind Severity.ofText?

/-- Reads a diagnostic. -/
def ofJson? (j : Json) : Option Diagnostic := do
  let r ← Record.ofJson? keys j
  some {
    nodeId := ← r.nullable "nodeId" Json.string?
    severity := ← r.required "type" severityOfJson?
    message := ← r.required "message" Json.string? }

end Diagnostic

namespace Verdict

/-- The fields of a verdict's document. -/
def keys : List String := ["isValid", "errors", "warnings"]

/-- The document of a verdict. -/
def toJson (v : Verdict) : Json :=
  .obj [("isValid", .bool v.isValid), ("errors", .arr (v.errors.map Diagnostic.toJson)),
    ("warnings", .arr (v.warnings.map Diagnostic.toJson))]

/-- Reads a verdict. -/
def ofJson? (j : Json) : Option Verdict := do
  let r ← Record.ofJson? keys j
  some {
    isValid := ← r.required "isValid" Json.bool?
    errors := ← r.required "errors" (Json.listOf? Diagnostic.ofJson?)
    warnings := ← r.required "warnings" (Json.listOf? Diagnostic.ofJson?) }

end Verdict

end StepGraph
