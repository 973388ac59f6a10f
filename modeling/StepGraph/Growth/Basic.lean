import StepGraph.Editing.Session

/-!
# Growing a graph

A graph to try things out with is grown step by step: every new step after the first hangs off an
open output of an earlier one.  All that is left to chance is in the list of choices, one for each
step, so growing is a function.

There are three groups.

* Choices, and what they make of a step.
* The parts a new step is made of.
* Growing.
-/

namespace StepGraph.Growth

/-! ## Choices -/

/-- What is left to chance about a step. -/
structure Choice where
  nodeId : String
  stepId : String
  edgeId : String
  /-- Whether the step is a branch; the first never is. -/
  branch : Bool
  /-- Whether a step that is no branch asks for approval. -/
  approval : Bool
  /-- Which action of the catalog the step takes, counted round and round. -/
  action : Nat
  /-- The bound its branch paths compare with. -/
  threshold : Nat
  /-- Which of the open outputs leads to the step, counted round and round. -/
  output : Nat

/-- What a step is. -/
inductive Role where
  | action
  | approval
  | branch
deriving DecidableEq

namespace Role

/-- The kind of the node. -/
def kind : Role → NodeKind
  | .action | .approval => .action
  | .branch => .branch

/-- The handles of the outputs. -/
def handles : Role → List (Option String)
  | .action => [none]
  | .approval => [some Handle.approve, some Handle.reject]
  | .branch => [some (Handle.branch 0), some (Handle.branch 1)]

end Role

/-- What becomes of a step by choice. -/
def Choice.role (c : Choice) (first : Bool) : Role :=
  if !first && c.branch then .branch
  else if c.approval then .approval
  else .action

/-! ## The parts of a step -/

/-- An action of the catalog: its id and its inputs. -/
def catalog : List (String × List ActionField) :=
  [("send-email", [.text "to" "Recipient" true, .text "cc" "CC" false]),
    ("create-task", [.text "title" "Title" true]),
    ("webhook", [.text "url" "URL" true, .text "method" "Method" true])]

/-- The value an input is configured with: its name between double braces. -/
def inputValue (field : ActionField) : Value :=
  .str ("\x7b\x7b" ++ field.name ++ "\x7d\x7d")

/-- A path that compares an amount with a bound. -/
def amountPath (name operator : String) (threshold : Nat) : BranchPath :=
  { BranchPath.ofName name with
    conditions := [.make "amount" (.ofName operator) (some (.int threshold))] }

/-- The paths of a branch step. -/
def amountPaths (threshold : Nat) : List BranchPath :=
  [amountPath "Above" "gt" threshold, amountPath "Otherwise" "lte" threshold]

variable {α : Type}

/-- Gives a step an action that asks for approval. -/
def makeApproval (g : Graph α) (id : String) : Except EditError (Graph α) :=
  g.setAction id "approval" (some ⟨[], some ActionDefinition.approvalCategory⟩)

/-- Gives a step an action of the catalog and configures its required inputs. -/
def makeAction (g : Graph α) (id : String) (action : Nat) : Except EditError (Graph α) :=
  match catalog[action % catalog.length]? with
  | none => .ok g
  | some (actionId, fields) => do
    let g ← g.setAction id actionId (some ⟨fields, none⟩)
    let configure (g : Graph α) (field : ActionField) : Except EditError (Graph α) :=
      g.setConfigValue id field.name (inputValue field)
    (fields.filter (·.required)).foldlM configure g

/-- Gives a branch step its paths. -/
def makeBranch (g : Graph α) (id : String) (threshold : Nat) : Graph α :=
  g.updateNode id (·.updateBranches fun _ => amountPaths threshold)

/-- Gives a step what it is to be. -/
def configure (g : Graph α) (role : Role) (c : Choice) : Except EditError (Graph α) :=
  match role with
  | .action => makeAction g c.nodeId c.action
  | .approval => makeApproval g c.nodeId
  | .branch => .ok (makeBranch g c.nodeId c.threshold)

/-! ## Growing -/

/-- A graph that is growing, with the outputs that nothing hangs off yet: the source of each and its
handle. -/
structure Progress (α : Type) where
  graph : Graph α
  outputs : List (String × Option String)

namespace Progress

/-- Nothing grown yet. -/
def start : Progress α := ⟨.empty, []⟩

/-- Adds a step.  Its outputs are open, and they come last. -/
def addStep [Coordinate α] (p : Progress α) (role : Role) (c : Choice) :
    Except EditError (Progress α) := do
  let (_, g) := p.graph.addNode c.nodeId c.stepId role.kind .zero
  let g ← configure g role c
  .ok ⟨g, p.outputs ++ role.handles.map fun handle => (c.nodeId, handle)⟩

/-- How many of the open outputs belong to the step that came last, as its node shows. -/
def ownOutputs (p : Progress α) (role : Role) (c : Choice) : Nat :=
  if role = .branch || (p.graph.node? c.nodeId).any (·.isApproval) then 2 else 1

/-- Hangs the step that came last off one of the open outputs that are not its own. -/
def attach (p : Progress α) (own : Nat) (c : Choice) : Except EditError (Progress α) :=
  let available := p.outputs.length - own
  if available = 0 then .ok p
  else
    let chosen := c.output % available
    match p.outputs[chosen]? with
    | none => .ok p
    | some (source, handle) => do
      let (_, g) ← p.graph.connect c.edgeId source c.nodeId handle
      .ok ⟨g, p.outputs.eraseIdx chosen⟩

/-- Grows by one step.  The first step is no branch and hangs off nothing. -/
def grow [Coordinate α] (p : Progress α) (c : Choice) : Except EditError (Progress α) := do
  let first := p.graph.isEmpty
  let role := c.role first
  let added ← p.addStep role c
  if first then .ok added else added.attach (added.ownOutputs role c) c

end Progress

/-- Grows a graph, a step for each choice, and arranges it. -/
def grow [Coordinate α] (choices : List Choice) : Except EditError (Graph α) := do
  let grown ← choices.foldlM Progress.grow .start
  .ok grown.graph.arrange

end StepGraph.Growth
