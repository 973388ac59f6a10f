import StepGraph.Graph.Index
import StepGraph.Text.Blank
import StepGraph.Validation.CycleSearch
import StepGraph.Validation.Diagnostic

/-!
# Validation rules

Each rule looks at a graph through its look-up tables and lists what it finds.

There are four groups.

* `Options`, the switches of a validation.  The default is what an editor checks live.
* Findings about a single node.  The badge of a node is made from exactly these.
* Findings that need the tables.
* `Rule` names the rules, and `Options.rules` lists the ones in force, in the order of their report.
-/

namespace StepGraph.Validation

variable {α : Type}

/-! ## Options -/

/-- How the paths of a branch node are checked for edges. -/
inductive Coverage where
  /-- There are as many edges as paths. -/
  | count
  /-- There is an edge at the handle of each path. -/
  | perHandle
deriving DecidableEq

/-- The switches of a validation. -/
structure Options where
  /-- A graph without nodes is an error. -/
  rejectEmpty : Bool
  /-- An edge with an end that is no node is an error. -/
  rejectDangling : Bool
  coverage : Coverage
  /-- A step identity that comes twice is an error. -/
  uniqueStepIds : Bool
deriving DecidableEq

namespace Options

/-- What an editor checks live. -/
def live : Options := ⟨false, false, .count, false⟩

/-- Every optional check. -/
def strict : Options := ⟨true, true, .perHandle, true⟩

end Options

/-! ## Findings about a single node -/

/-- An action must be chosen: its id must not be blank. -/
def actionFindings (node : Node α) : List Diagnostic :=
  if node.data.actionId.any fun actionId => !Text.isBlank actionId then []
  else [.error node.id "No action selected"]

/-- The labels of the required inputs that have no entry in the configuration.  An entry counts
whatever its value. -/
def missingLabels (definition : ActionDefinition) (config : Fields) : List String :=
  (definition.requiredFields.filter fun field => !config.contains field.name).map (·.displayLabel)

/-- The required inputs must be configured. -/
def inputFindings (node : Node α) : List Diagnostic :=
  match node.data.definition with
  | none => []
  | some definition =>
    let missing := ", ".intercalate (missingLabels definition node.data.config)
    if missing.isEmpty then [] else [.error node.id s!"Missing required fields: {missing}"]

/-- Each path of a branch should have a condition. -/
def conditionFindings (node : Node α) : List Diagnostic :=
  let without := node.data.branches.countP fun path => !path.hasConditions
  if without = 0 then []
  else [.warning node.id s!"{without} branch path(s) without conditions"]

/-- Everything that depends on nothing but the node itself. -/
def nodeFindings (node : Node α) : List Diagnostic :=
  match node.kind with
  | .action => actionFindings node ++ inputFindings node
  | .branch => conditionFindings node

/-- The badge of a node, without a look at the rest of its graph. -/
def classify (node : Node α) : Status := Status.ofDiagnostics (nodeFindings node)

/-! ## Findings that need the tables -/

/-- The names of the paths of a branch node that have no edge at their handle. -/
def unconnectedPaths (index : Index α) (node : Node α) : List String :=
  (node.data.branches.zipIdx.filter fun (_, i) =>
    (index.edgeFromHandle? node.id (Handle.branch i)).isNone).map (·.1.name)

/-- Each path of a branch should have an edge. -/
def coverageFindings (coverage : Coverage) (index : Index α) (node : Node α) : List Diagnostic :=
  match coverage with
  | .count =>
    let declared := node.data.branches.length
    let connected := (index.outgoing node.id).length
    if connected < declared then
      [.warning node.id s!"Branch has unconnected paths ({connected} of {declared} connected)"]
    else []
  | .perHandle =>
    let unconnected := ", ".intercalate (unconnectedPaths index node)
    if unconnected.isEmpty then []
    else [.warning node.id s!"Branch has unconnected paths: {unconnected}"]

/-- The finding that there is no node to start at. -/
def noStart : Diagnostic :=
  .graphError "No starting node found. All nodes have incoming connections, which creates a loop"

/-- The finding that there are several nodes to start at, and which of them is used. -/
def severalStarts (name : String) : Diagnostic :=
  .graphWarning s!"Multiple starting nodes found. Only \"{name}\" will be used as the start"

/-- There must be a node to start at, and there should be one only. -/
def startFindings (index : Index α) : List Diagnostic :=
  match index.startCandidates with
  | [] => [noStart]
  | [_] => []
  | start :: _ => [severalStarts start.displayName]

/-- Every node must be configured, and its paths should be connected. -/
def configurationFindings (coverage : Coverage) (index : Index α) : List Diagnostic :=
  index.nodes.flatMap fun node =>
    nodeFindings node ++ if node.isBranch then coverageFindings coverage index node else []

/-- The finding that no run comes to a node. -/
def disconnected (id : String) : Diagnostic :=
  .warning id "Step is disconnected and will not execute"

/-- Every node should have an edge into it, unless its id is where a run starts. -/
def disconnectedFindings (index : Index α) : List Diagnostic :=
  let start := index.startNode?.map (·.id)
  (index.nodes.filter fun node =>
    index.incomingCount node.id == 0 && some node.id != start).map fun node => disconnected node.id

/-- The ids that the edges out of an id lead to. -/
def successors (index : Index α) (id : String) : List String := (index.outgoing id).map (·.target)

/-- The finding that an edge out of a node closes a cycle. -/
def cycleClosed (id name : String) : Diagnostic :=
  .error id s!"Circular dependency detected at \"{name}\""

/-- Edges must not lead back to where they come from.  Only the first cycle is found. -/
def cycleFindings (index : Index α) : List Diagnostic :=
  match CycleSearch.find? (successors index) (index.nodes.map (·.id)) with
  | none => []
  | some id => [cycleClosed id (((index.node? id).map (·.displayName)).getD id)]

/-- The finding about an edge with an end that is no node. -/
def danglingFinding (index : Index α) (edge : Edge) : Diagnostic :=
  if index.contains edge.source then
    .error edge.source s!"Connection points to missing step '{edge.target}'"
  else if index.contains edge.target then
    .error edge.target s!"Connection comes from missing step '{edge.source}'"
  else
    .graphError
      s!"Connection '{edge.id}' references missing steps '{edge.source}' and '{edge.target}'"

/-- Both ends of an edge must be nodes. -/
def danglingFindings (index : Index α) : List Diagnostic :=
  index.dangling.map (danglingFinding index)

/-- No two nodes may have one step identity; those without one do not count. -/
def duplicateFindings (seen : List String) : List (Node α) → List Diagnostic
  | [] => []
  | node :: rest =>
    let stepId := node.data.stepId
    if stepId.isEmpty then duplicateFindings seen rest
    else if stepId ∈ seen then
      .error node.id s!"Duplicate step identifier '{stepId}'" :: duplicateFindings seen rest
    else duplicateFindings (stepId :: seen) rest

/-! ## The rules -/

/-- A validation rule. -/
inductive Rule where
  | start
  | configuration
  | disconnected
  | cycle
  | dangling
  | duplicate
deriving DecidableEq

namespace Rule

/-- The name a rule reports under. -/
def name : Rule → String
  | .start => "start-node"
  | .configuration => "node-configuration"
  | .disconnected => "disconnected-node"
  | .cycle => "cycle"
  | .dangling => "dangling-edge"
  | .duplicate => "duplicate-temp-id"

/-- What a rule finds. -/
def findings (coverage : Coverage) (index : Index α) : Rule → List Diagnostic
  | .start => startFindings index
  | .configuration => configurationFindings coverage index
  | .disconnected => disconnectedFindings index
  | .cycle => cycleFindings index
  | .dangling => danglingFindings index
  | .duplicate => duplicateFindings [] index.nodes

end Rule

/-- The rules in force, in the order of their report. -/
def Options.rules (options : Options) : List Rule :=
  [.start, .configuration, .disconnected, .cycle] ++
    (if options.rejectDangling then [.dangling] else []) ++
    (if options.uniqueStepIds then [.duplicate] else [])

end StepGraph.Validation
