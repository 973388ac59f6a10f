import StepGraph.Graph.Node

/-!
# Why an edit fails

An edit that fails names its cause and leaves the graph as it was.
-/

namespace StepGraph

/-- The cause of a failing edit. -/
inductive EditError where
  | nodeNotFound (id : String)
  | edgeNotFound (id : String)
  /-- A node cannot lead to itself. -/
  | selfLoop (id : String)
  /-- There is an edge between the same nodes at the same handle; the handle is empty when the edge
  has none. -/
  | duplicateEdge (source target handle : String)
  | wrongKind (id : String) (expected : NodeKind)
  /-- A branch node must keep this many paths. -/
  | pathLimit (id : String) (minimum : Nat)
  | pathOutOfRange (id : String) (index : Nat)
deriving DecidableEq

/-- The text shown to users. -/
def EditError.message : EditError → String
  | .nodeNotFound id => s!"Node '{id}' not found in the workflow graph"
  | .edgeNotFound id => s!"Edge '{id}' not found in the workflow graph"
  | .selfLoop id => s!"Node '{id}' cannot be connected to itself"
  | .duplicateEdge source target handle =>
    s!"A connection from '{source}' to '{target}' already exists on handle '{handle}'"
  | .wrongKind id expected => s!"Node '{id}' is not a {expected.text} node"
  | .pathLimit id minimum => s!"Branch node '{id}' must keep at least {minimum} paths"
  | .pathOutOfRange id index => s!"Branch node '{id}' has no path at index {index}"

end StepGraph
