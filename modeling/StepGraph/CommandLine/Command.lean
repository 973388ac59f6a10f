import StepGraph.Log
import StepGraph.Graph.Document
import StepGraph.Validation.Document
import StepGraph.Workflow.Document

/-!
# Commands

A command reads the file of a graph and prints what it finds or makes.  `Command.run` is what it
does, as a function of the content of the file: the exit code, what is printed, what is written to a
file, and what is logged.
-/

namespace StepGraph.CommandLine

/-- What a command leaves behind. -/
structure Outcome where
  exitCode : UInt8
  stdout : String
  stderr : String
  /-- The content of the file that is written. -/
  written : Option String
  log : List Log.Event

namespace Outcome

/-- A failure is announced after an empty line. -/
def failure (message : String) (log : List Log.Event) : Outcome :=
  ⟨1, "", s!"\nError: {message}\n", none, log⟩

/-- Puts a text into the file asked for, or prints it. -/
def deliver (toFile : Bool) (content : String) (stderr : String) (log : List Log.Event) : Outcome :=
  if toFile then ⟨0, "", stderr, some content, log⟩ else ⟨0, content ++ "\n", stderr, none, log⟩

end Outcome

/-- A command with its options. -/
inductive Command where
  /-- Prints the verdict, as a document if asked for. -/
  | validate (json : Bool)
  /-- Prints the badge of each node. -/
  | status
  /-- Compiles the graph, for a workflow that has an id already or a new one. -/
  | compile (workflowId : Option String) (toFile : Bool)
  /-- Arranges the graph. -/
  | arrange (toFile : Bool)

/-- Texts as lines. -/
def linesOf (texts : List String) : String := String.join (texts.map (· ++ "\n"))

/-- A badge in a column of its own. -/
def badgeColumn (status : Status) : String :=
  status.text ++ String.ofList (List.replicate (10 - status.text.length) ' ')

/-- Prints a verdict. -/
def validate (g : Graph Float) (options : Validation.Options) (json : Bool) : Outcome :=
  let verdict := g.validate options
  let printed :=
    if json then verdict.toJson.pretty ++ "\n"
    else
      linesOf (verdict.diagnostics.map (·.text)) ++
        s!"\n{g.nodes.length} node(s), {g.edges.length} edge(s): " ++
        s!"{verdict.errors.length} error(s), {verdict.warnings.length} warning(s)\n"
  ⟨if verdict.isValid then 0 else 1, printed, "", none, Log.validation g options⟩

/-- Prints the badge of each node, by itself and as the whole validation sees it. -/
def status (g : Graph Float) (options : Validation.Options) : Outcome :=
  let verdict := g.validate options
  let line (node : Node Float) : String :=
    badgeColumn (Validation.classify node) ++ " " ++ badgeColumn (verdict.statusOf node.id) ++
      s!" {node.displayName} ({node.id})"
  ⟨0, linesOf (g.nodes.map line), "", none, Log.validation g options⟩

/-- Compiles a graph. -/
def compile (g : Graph Float) (options : Validation.Options) (workflowId : Option String)
    (toFile : Bool) : Outcome :=
  let result := g.generate workflowId options
  let log := Log.generation g options result
  match result with
  | .ok workflow =>
    .deliver toFile workflow.text
      s!"Compiled {workflow.steps.length} step(s), starting at '{workflow.start}'\n" log
  | .error (.invalidWorkflow errors) =>
    let failure := Outcome.failure "Cannot generate workflow: fix validation errors" log
    { failure with stderr := linesOf (errors.map (·.text)) ++ failure.stderr }
  | .error error => .failure s!"Compilation failed: {error.message}" log

/-- Arranges a graph. -/
def arrange (g : Graph Float) (toFile : Bool) : Outcome :=
  .deliver toFile g.arrange.text "" [Log.arrangement g]

namespace Command

/-- Carries out a command on a graph. -/
def runOn (command : Command) (options : Validation.Options) (g : Graph Float) : Outcome :=
  match command with
  | .validate json => CommandLine.validate g options json
  | .status => CommandLine.status g options
  | .compile workflowId toFile => CommandLine.compile g options workflowId toFile
  | .arrange toFile => CommandLine.arrange g toFile

/-- Carries out a command on a file, given its content or the reason why it cannot be read. -/
def run (command : Command) (strict : Bool) (path : String) (content : Except String String) :
    Outcome :=
  match content with
  | .error reason => .failure s!"Failed to read graph file '{path}': {reason}" []
  | .ok text =>
    match Graph.ofText? text with
    | none => .failure "Failed to parse workflow graph JSON" []
    | some g => command.runOn (if strict then .strict else .live) g

end Command

end StepGraph.CommandLine
