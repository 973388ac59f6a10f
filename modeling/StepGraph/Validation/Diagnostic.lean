/-!
# Diagnostics

A diagnostic is one finding about a graph, attached to a node or to the graph as a whole.  Errors
block compilation and warnings do not.

There are three groups.

* Diagnostics and their texts.
* `Status`, the badge of a node: the most severe of a list of diagnostics.
* `Verdict`, the outcome of a validation.
-/

namespace StepGraph

/-! ## Diagnostics -/

/-- How severe a finding is. -/
inductive Severity where
  | error
  | warning
deriving DecidableEq

/-- The written form of a severity. -/
def Severity.text : Severity → String
  | .error => "error"
  | .warning => "warning"

/-- The severity of a written form. -/
def Severity.ofText? : String → Option Severity
  | "error" => some .error
  | "warning" => some .warning
  | _ => none

/-- A finding.  Without a node it is about the graph as a whole. -/
structure Diagnostic where
  nodeId : Option String
  severity : Severity
  message : String
deriving DecidableEq

namespace Diagnostic

/-- An error about a node. -/
def error (nodeId message : String) : Diagnostic := ⟨some nodeId, .error, message⟩

/-- A warning about a node. -/
def warning (nodeId message : String) : Diagnostic := ⟨some nodeId, .warning, message⟩

/-- An error about the graph. -/
def graphError (message : String) : Diagnostic := ⟨none, .error, message⟩

/-- A warning about the graph. -/
def graphWarning (message : String) : Diagnostic := ⟨none, .warning, message⟩

/-- Whether the finding is an error. -/
def isError (d : Diagnostic) : Bool := d.severity == .error

/-- The text shown to users. -/
def text (d : Diagnostic) : String :=
  match d.nodeId with
  | some nodeId => s!"[{d.severity.text}] {nodeId}: {d.message}"
  | none => s!"[{d.severity.text}] {d.message}"

end Diagnostic

/-! ## Badges -/

/-- The badge of a node. -/
inductive Status where
  | valid
  | warning
  | error
deriving DecidableEq

namespace Status

/-- The written form of a badge. -/
def text : Status → String
  | .valid => "valid"
  | .warning => "warning"
  | .error => "error"

/-- The badge a single finding calls for. -/
def ofSeverity : Severity → Status
  | .error => .error
  | .warning => .warning

/-- The more severe of two badges. -/
def worst : Status → Status → Status
  | .error, _ | _, .error => .error
  | .warning, _ | _, .warning => .warning
  | .valid, .valid => .valid

/-- The badge that the most severe of the findings calls for. -/
def ofDiagnostics (diagnostics : List Diagnostic) : Status :=
  diagnostics.foldl (fun status d => worst status (ofSeverity d.severity)) .valid

end Status

/-! ## Verdicts -/

/-- The outcome of a validation.  `ofDiagnostics` makes a valid verdict where there are no errors; a
verdict that a caller hands in is taken at its word. -/
structure Verdict where
  isValid : Bool
  errors : List Diagnostic
  warnings : List Diagnostic
deriving DecidableEq

namespace Verdict

/-- Splits findings by severity and keeps their order. -/
def ofDiagnostics (diagnostics : List Diagnostic) : Verdict :=
  let (errors, warnings) := diagnostics.partition (·.isError)
  ⟨errors.isEmpty, errors, warnings⟩

/-- All findings, errors first. -/
def diagnostics (v : Verdict) : List Diagnostic := v.errors ++ v.warnings

/-- The findings about a node, errors first. -/
def about (v : Verdict) (nodeId : String) : List Diagnostic :=
  v.diagnostics.filter (·.nodeId == some nodeId)

/-- The badge of a node as the whole validation sees it. -/
def statusOf (v : Verdict) (nodeId : String) : Status := Status.ofDiagnostics (v.about nodeId)

end Verdict

end StepGraph
