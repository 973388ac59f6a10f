import StepGraph.CommandLine.Generate
import StepGraph.Numeral.Argument

/-!
# The program

Reads the arguments, the file of the graph and the filter of the log, carries out the command and
prints what it leaves behind.
-/

namespace StepGraph.Program

open CommandLine (Command Generation Outcome)

/-- The arguments: options with a value, options without one, and the rest in order. -/
structure Arguments where
  values : List (String × String)
  flags : List String
  rest : List String

/-- The options that take a value, with their short forms. -/
def valueOptions : List (String × String) :=
  [("--workflow-id", "-w"), ("--output", "-o"), ("--steps", "-s"), ("--branch-ratio", ""),
    ("--approval-ratio", ""), ("--seed", "")]

/-- The long form of an option. -/
def longForm (option : String) : String :=
  ((valueOptions.find? fun (_, short) => short == option).map (·.1)).getD option

/-- An argument such as `--seed=7` stands for an option and its value. -/
def separate (argument : String) : List String :=
  if argument.startsWith "--" then
    match argument.splitOn "=" with
    | option :: value :: more => [option, "=".intercalate (value :: more)]
    | _ => [argument]
  else [argument]

/-- Sorts arguments into options and the rest. -/
def Arguments.ofList : List String → Arguments
  | [] => ⟨[], [], []⟩
  | [argument] =>
    if argument.startsWith "--" then ⟨[], [argument], []⟩ else ⟨[], [], [argument]⟩
  | argument :: value :: more =>
    let option := longForm argument
    if valueOptions.any fun (long, _) => long == option then
      let others := ofList more
      { others with values := (option, value) :: others.values }
    else
      let others := ofList (value :: more)
      if argument.startsWith "--" then { others with flags := argument :: others.flags }
      else { others with rest := argument :: others.rest }

/-- The value of an option. -/
def Arguments.value? (a : Arguments) (option : String) : Option String :=
  (a.values.find? (·.1 == option)).map (·.2)

/-- The command of a name. -/
def commandOf? (a : Arguments) (name : String) : Option Command :=
  let toFile := (a.value? "--output").isSome
  match name with
  | "validate" => some (.validate (a.flags.contains "--json"))
  | "status" => some .status
  | "compile" => some (.compile (a.value? "--workflow-id") toFile)
  | "arrange" => some (.arrange toFile)
  | _ => none

/-- The value of an option, read, or a default where it is not given. -/
def readOption {α : Type} (a : Arguments) (option : String) (default : α)
    (read : String → Option α) : Option α :=
  match a.value? option with
  | none => some default
  | some text => read text

/-- The generation asked for. -/
def generationOf? (a : Arguments) (seed : UInt64) : Option Generation := do
  some {
    steps := ← readOption a "--steps" Generation.default.steps String.toNat?
    branchRatio :=
      ← readOption a "--branch-ratio" Generation.default.branchRatio Numeral.Argument.float?
    approvalRatio :=
      ← readOption a "--approval-ratio" Generation.default.approvalRatio Numeral.Argument.float?
    seed := ← readOption a "--seed" seed fun text => text.toNat?.map UInt64.ofNat }

/-- The words after the name of the program. -/
def usage : String :=
  "Usage: validate|status|compile|arrange <graph> [options], or generate [options]"

/-- Reads a file, or gives the reason why it cannot be read. -/
def readContent (path : String) : IO (Except String String) := do
  try
    return .ok (← IO.FS.readFile path)
  catch
    | .noFileOrDirectory .. => return .error "No such file or directory (os error 2)"
    | error => return .error (toString error)

/-- Prints and writes what a command leaves behind. -/
def conclude (outcome : Outcome) (outputPath : Option String) (filter : Log.Filter) :
    IO UInt8 := do
  let stdout ← IO.getStdout
  let stderr ← IO.getStderr
  for line in filter.lines outcome.log do
    stderr.putStrLn line
  if let (some path, some content) := (outputPath, outcome.written) then
    try
      IO.FS.writeFile path content
    catch error =>
      stderr.putStr s!"\nError: Could not write to file '{path}': {toString error}\n"
      return 1
  stdout.putStr outcome.stdout
  stderr.putStr outcome.stderr
  return outcome.exitCode

/-- The filter of the log.  Warnings are shown unless a filter is given that can be read. -/
def logFilter : IO Log.Filter := do
  let text? ← IO.getEnv "RUST_LOG"
  return (text?.bind Log.Filter.ofText?).getD (.ofLevel (some .warn))

/-- Carries out the command that the arguments name. -/
def run (arguments : List String) : IO UInt8 := do
  let a := Arguments.ofList (arguments.flatMap separate)
  match a.rest with
  | ["generate"] =>
    let path := (a.value? "--output").getD "generated_graph.json"
    let seed ← IO.rand 0 0x7fffffffffffffff
    match generationOf? a (UInt64.ofNat seed) with
    | none =>
      IO.eprintln usage
      return 2
    | some request => conclude (request.run path) (some path) (.ofLevel none)
  | [name, path] =>
    match commandOf? a name with
    | none =>
      IO.eprintln usage
      return 2
    | some command =>
      let content ← readContent path
      let outcome := command.run (a.flags.contains "--strict") path content
      conclude outcome (a.value? "--output") (← logFilter)
  | _ =>
    IO.eprintln usage
    return 2

end StepGraph.Program

/-- Runs the program. -/
def main (arguments : List String) : IO UInt32 := do
  return (← StepGraph.Program.run arguments).toUInt32
