import StepGraph.Validation.Rule

/-!
# Validation

`Graph.validate` runs the rules in force over a graph and gives a verdict.  It never fails: whatever
is wrong with a graph becomes a diagnostic.  `Graph.report` keeps the findings of each rule apart.
-/

namespace StepGraph

open Validation (Options Rule)

variable {α : Type}

namespace Graph

/-- What each rule in force finds. -/
def report (g : Graph α) (options : Options) : List (Rule × List Diagnostic) :=
  let index := g.index
  options.rules.map fun rule => (rule, rule.findings options.coverage index)

/-- The findings about a graph without nodes. -/
def emptyFindings (options : Options) : List Diagnostic :=
  if options.rejectEmpty then [.graphError "Workflow is empty. Add at least one step"] else []

/-- Everything found in a graph, rule by rule. -/
def findings (g : Graph α) (options : Options) : List Diagnostic :=
  if g.isEmpty then emptyFindings options else (g.report options).flatMap (·.2)

/-- The verdict on a graph. -/
def validate (g : Graph α) (options : Options) : Verdict := .ofDiagnostics (g.findings options)

end Graph

end StepGraph
