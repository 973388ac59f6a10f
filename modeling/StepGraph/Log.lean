import StepGraph.Layout.Rows
import StepGraph.Workflow.Compile

/-!
# Log events

What the library does can be followed in a log.  An event has a level, the part of the program that
reports it, a message and named values; `Event.text` is its line.

There are three groups.

* Levels and events.
* Filters.  A filter keeps a log at different levels for different parts of the program, and
  `Filter.lines_ofLevel` says that one without parts is a level.
* The events of a validation, a compilation and an arrangement, in the order in which they happen.
-/

namespace StepGraph.Log

/-! ## Levels and events -/

/-- How much a reader of the log wants to know. -/
inductive Level where
  | error
  | warn
  | info
  | debug
  | trace
deriving DecidableEq

namespace Level

/-- The place of a level, the most severe first. -/
def rank : Level → Nat
  | .error => 0
  | .warn => 1
  | .info => 2
  | .debug => 3
  | .trace => 4

/-- The written form in a line. -/
def text : Level → String
  | .error => "ERROR"
  | .warn => "WARN"
  | .info => "INFO"
  | .debug => "DEBUG"
  | .trace => "TRACE"

/-- The level of a name, or none for a log that is switched off. -/
def ofName? : String → Option (Option Level)
  | "off" => some none
  | "error" => some (some .error)
  | "warn" => some (some .warn)
  | "info" => some (some .info)
  | "debug" => some (some .debug)
  | "trace" => some (some .trace)
  | _ => none

/-- Whether a log that is kept at a level shows events of another. -/
def shows (kept : Option Level) (level : Level) : Bool :=
  kept.any fun kept => level.rank ≤ kept.rank

end Level

/-- A named value of an event. -/
inductive FieldText where
  | plain (text : String)
  | quoted (text : String)

/-- The text of a value. -/
def FieldText.text : FieldText → String
  | .plain text => text
  | .quoted text => "\"" ++ text ++ "\""

/-- A count as a value. -/
def count (n : Nat) : FieldText := .plain (toString n)

/-- An event. -/
structure Event where
  level : Level
  target : String
  message : String
  fields : List (String × FieldText)

/-- The line of an event. -/
def Event.text (e : Event) : String :=
  s!"{e.level.text} {e.target}: {e.message}" ++
    String.join (e.fields.map fun (name, value) => s!" {name}={value.text}")

/-- The lines of the events that a log kept at a level shows. -/
def lines (kept : Option Level) (events : List Event) : List String :=
  (events.filter fun e => Level.shows kept e.level).map (·.text)

/-! ## Filters -/

/-- Events whose target begins as given are kept at a level. -/
structure Directive where
  target : String
  kept : Option Level

namespace Directive

/-- Whether a directive is about a target. -/
def covers (d : Directive) (target : String) : Bool := d.target.toList.isPrefixOf target.toList

/-- The level of a name in any case, or of its number. -/
def levelOf? (text : String) : Option (Option Level) :=
  match text with
  | "0" => some none
  | "1" => some (some .error)
  | "2" => some (some .warn)
  | "3" => some (some .info)
  | "4" => some (some .debug)
  | "5" => some (some .trace)
  | name => Level.ofName? name.toLower

/-- Whether a character may be part of a target. -/
def isTargetChar (c : Char) : Bool := c.isAlphanum || c == '_' || c == ':' || c == '-'

/-- A directive about a target, which must be well-formed. -/
def ofTarget? (target : String) (kept : Option Level) : Option Directive :=
  if !target.isEmpty && target.all isTargetChar then some ⟨target, kept⟩ else none

/-- A directive is a level for all targets, a target, or both with an equals sign between them.  A
target without a level is shown in full. -/
def ofText? (text : String) : Option Directive :=
  match text.splitOn "=" with
  | [part] =>
    match levelOf? part with
    | some kept => some ⟨"", kept⟩
    | none => ofTarget? part (some .trace)
  | [target, ""] => ofTarget? target (some .trace)
  | [target, level] => (levelOf? level).bind (ofTarget? target)
  | _ => none

end Directive

/-- What a log is kept by. -/
structure Filter where
  directives : List Directive

namespace Filter

/-- A filter that keeps everything at one level. -/
def ofLevel (kept : Option Level) : Filter := ⟨[⟨"", kept⟩]⟩

/-- The directive about a target that says the most of it, and the later one of two for the same
target. -/
def directive? (filter : Filter) (target : String) : Option Directive :=
  (filter.directives.filter (·.covers target)).foldl (fun best? d =>
    if best?.any fun best => d.target.length < best.target.length then best? else some d) none

/-- Whether a filter shows an event. -/
def shows (filter : Filter) (e : Event) : Bool :=
  (filter.directive? e.target).any fun d => Level.shows d.kept e.level

/-- The lines of the events that a filter shows. -/
def lines (filter : Filter) (events : List Event) : List String :=
  (events.filter filter.shows).map (·.text)

/-- A filter without parts shows what a log kept at its level shows, as the log of the program does
where no filter is given. -/
theorem lines_ofLevel (kept : Option Level) (events : List Event) :
    (ofLevel kept).lines events = Log.lines kept events := by
  have hshows : (ofLevel kept).shows = fun e => Level.shows kept e.level := by
    funext e
    rfl
  rw [lines, hshows, Log.lines]

/-- The filter of a list of directives with commas between them; errors are shown if there is none.
The program has no spans, and directives about spans or fields are not read. -/
def ofText? (text : String) : Option Filter :=
  match (text.splitOn ",").filter (!·.isEmpty) with
  | [] => some (ofLevel (some .error))
  | parts => (parts.mapM Directive.ofText?).map Filter.mk

end Filter

/-! ## What happens -/

section Events

variable {α : Type}

/-- The part of the program that validates. -/
def validatorTarget : String := "keiro::validator"

/-- The part of the program that compiles. -/
def compilerTarget : String := "keiro::compiler"

/-- The part of the program that arranges. -/
def arrangeTarget : String := "keiro::layout::arrange"

/-- A validation reports each rule that found something, and then the verdict.  A graph without
nodes is not looked at. -/
def validation (g : Graph α) (options : Validation.Options) : List Event :=
  if g.isEmpty then []
  else
    let verdict := g.validate options
    ((g.report options).filter fun (_, found) => !found.isEmpty).map (fun (rule, found) =>
      { level := .debug, target := validatorTarget, message := "validation rule reported"
        fields := [("rule", .quoted rule.name), ("found", count found.length)] }) ++
    [{ level := .debug, target := validatorTarget, message := "validated workflow graph"
       fields := [("nodes", count g.nodes.length), ("edges", count g.edges.length),
         ("errors", count verdict.errors.length), ("warnings", count verdict.warnings.length)] }]

/-- A compilation reports its refusal, or the workflow it made; it is silent about a step that
cannot be built. -/
def compilation (result : Except CompileError Workflow) : List Event :=
  match result with
  | .error .emptyWorkflow =>
    [{ level := .warn, target := compilerTarget, message := "cannot generate an empty workflow"
       fields := [] }]
  | .error (.invalidWorkflow errors) =>
    [{ level := .debug, target := compilerTarget
       message := "refusing to compile an invalid workflow"
       fields := [("errors", count errors.length)] }]
  | .error (.configSerialization _ _) => []
  | .ok workflow =>
    [{ level := .debug, target := compilerTarget, message := "compiled workflow"
       fields := [("workflow_id", .plain workflow.id), ("start", .plain workflow.start),
         ("steps", count workflow.steps.length)] }]

/-- A generation validates and compiles. -/
def generation (g : Graph α) (options : Validation.Options)
    (result : Except CompileError Workflow) : List Event :=
  validation g { options with rejectEmpty := true } ++ compilation result

/-- An arrangement reports the number of layers. -/
def arrangement (g : Graph α) : Event :=
  { level := .debug, target := arrangeTarget, message := "auto-arranged workflow graph"
    fields := [("nodes", count g.nodes.length), ("layers", count g.layers.length)] }

end Events

end StepGraph.Log
