import StepGraph.CommandLine.Command
import StepGraph.Proofs.Validation.Coverage

/-!
# Agreement of the commands

Validating and compiling a file come to the validity of its graph in different ways: the one takes
the options as they are, the other refuses a graph without nodes by itself and validates any other
with one option changed.  They agree all the same, in their exit codes and in the errors that they
print.

There are three groups.

* Reading.  `run_of_ofText?` and `run_of_unread` say what a command does with a text.
* The two commands, on a graph that was read.
* The result, `compile_agrees`.
-/

namespace StepGraph.CommandLine

open Validation (Options)

/-! ## Reading -/

/-- The options of a strict run, and of one that is not. -/
def optionsOf (strict : Bool) : Options := if strict then .strict else .live

theorem run_of_ofText? {text : String} {g : Graph Float} (hread : Graph.ofText? text = some g)
    (command : Command) (strict : Bool) (path : String) :
    command.run strict path (.ok text) = command.runOn (optionsOf strict) g := by
  rw [Command.run, hread, optionsOf]

theorem run_of_unread {text : String} (hread : Graph.ofText? text = none) (command : Command)
    (strict : Bool) (path : String) :
    command.run strict path (.ok text) = .failure "Failed to parse workflow graph JSON" [] := by
  rw [Command.run, hread]

/-! ## On a graph -/

section OnGraph

variable {g : Graph Float} {options : Options}

/-- A validation succeeds where the graph is valid. -/
theorem exitCode_validate (json : Bool) :
    (validate g options json).exitCode = 0 ↔ (g.validate options).isValid = true := by
  rw [validate]
  cases (g.validate options).isValid <;> simp

/-- What a validation prints after the findings. -/
def summary (g : Graph Float) (verdict : Verdict) : String :=
  s!"\n{g.nodes.length} node(s), {g.edges.length} edge(s): " ++
    s!"{verdict.errors.length} error(s), {verdict.warnings.length} warning(s)\n"

theorem linesOf_append (texts texts' : List String) :
    linesOf (texts ++ texts') = linesOf texts ++ linesOf texts' := by
  rw [linesOf, linesOf, linesOf, List.map_append, String.join_append]

/-- A validation prints the errors first. -/
theorem stdout_validate :
    (validate g options false).stdout =
      linesOf ((g.validate options).errors.map (·.text)) ++
        linesOf ((g.validate options).warnings.map (·.text)) ++ summary g (g.validate options) := by
  rw [← linesOf_append, ← List.map_append, ← Verdict.diagnostics, summary, ← String.append_assoc]
  rfl

theorem exitCode_deliver (toFile : Bool) (content stderr : String) (log : List Log.Event) :
    (Outcome.deliver toFile content stderr log).exitCode = 0 := by
  cases toFile <;> rfl

/-- A graph without nodes is refused. -/
theorem exitCode_compile_of_nil (hnodes : g.nodes = []) (workflowId : Option String)
    (toFile : Bool) : (compile g options workflowId toFile).exitCode = 1 := by
  rw [compile, Graph.generate, if_pos (Graph.isEmpty_eq_true_iff.2 hnodes)]
  rfl

/-- A valid graph is compiled. -/
theorem exitCode_compile_of_isValid (hnodes : g.nodes ≠ [])
    (hvalid : (g.validate options).isValid = true) (workflowId : Option String) (toFile : Bool) :
    (compile g options workflowId toFile).exitCode = 0 := by
  rw [compile, Graph.generate_eq_ok_iff.2 ⟨hnodes, hvalid, g.workflow_eq_ok workflowId⟩]
  exact exitCode_deliver toFile _ _ _

/-- A graph that is not valid is refused with its errors. -/
theorem compile_of_not_isValid (hnodes : g.nodes ≠ [])
    (hinvalid : (g.validate options).isValid = false) (workflowId : Option String)
    (toFile : Bool) :
    compile g options workflowId toFile =
      ⟨1, "", linesOf ((g.validate options).errors.map (·.text)) ++
          "\nError: Cannot generate workflow: fix validation errors\n", none,
        Log.generation g options (.error (.invalidWorkflow (g.validate options).errors))⟩ := by
  have hresult : g.generate workflowId options =
      .error (.invalidWorkflow (g.validate options).errors) := by
    rw [Graph.generate_of_ne_nil hnodes, Graph.compile, hinvalid, if_neg (by decide)]
  rw [compile, hresult]
  rfl

/-- A compilation succeeds where the graph has nodes and is valid. -/
theorem exitCode_compile (workflowId : Option String) (toFile : Bool) :
    (compile g options workflowId toFile).exitCode = 0 ↔
      (g.validate options).isValid = true ∧ g.nodes ≠ [] := by
  have hfailure : (1 : UInt8) ≠ 0 := by decide
  by_cases hnodes : g.nodes = []
  · rw [exitCode_compile_of_nil hnodes]
    exact iff_of_false hfailure fun h => h.2 hnodes
  · cases hvalid : (g.validate options).isValid with
    | true =>
      rw [exitCode_compile_of_isValid hnodes hvalid]
      exact iff_of_true rfl ⟨rfl, hnodes⟩
    | false =>
      rw [compile_of_not_isValid hnodes hvalid]
      exact iff_of_false hfailure fun h => Bool.false_ne_true h.1

/-- A log that is kept at warnings is silent about a graph that is not valid. -/
theorem lines_generation_invalid (errors : List Diagnostic) :
    Log.lines (some .warn) (Log.generation g options (.error (.invalidWorkflow errors))) = [] := by
  have hdebug : ∀ e ∈ Log.generation g options (.error (.invalidWorkflow errors)),
      e.level = .debug := by
    intro e he
    rcases List.mem_append.1 he with he | he
    · rw [Log.validation] at he
      split at he
      · cases he
      · rcases List.mem_append.1 he with he | he
        · obtain ⟨_, -, rfl⟩ := List.mem_map.1 he
          rfl
        · rw [List.mem_singleton.1 he]
    · rw [List.mem_singleton.1 he]
  rw [Log.lines, List.filter_eq_nil_iff.2 fun e he => by rw [hdebug e he]; decide, List.map_nil]

end OnGraph

/-! ## The result -/

/-- On every text, a compilation succeeds exactly when a validation does and there is a node.  Where
it fails on a graph with nodes, it prints the errors that a validation prints first, and nothing
else but the reason.  A text that is no graph makes every command fail. -/
theorem compile_agrees (strict : Bool) (path text : String) (workflowId : Option String)
    (toFile : Bool) :
    (∀ json, ((Command.compile workflowId toFile).run strict path (.ok text)).exitCode = 0 ↔
        ((Command.validate json).run strict path (.ok text)).exitCode = 0 ∧
          ∃ g, Graph.ofText? text = some g ∧ g.nodes ≠ []) ∧
      (∀ g, Graph.ofText? text = some g → g.nodes ≠ [] →
        ((Command.compile workflowId toFile).run strict path (.ok text)).exitCode ≠ 0 →
          ∃ verdict log, g.validate (optionsOf strict) = verdict ∧ verdict.errors ≠ [] ∧
            (∀ d ∈ verdict.errors, d.isError = true) ∧
            (∀ d ∈ verdict.warnings, d.isError = false) ∧
            ((Command.validate false).run strict path (.ok text)).stdout =
              linesOf (verdict.errors.map (·.text)) ++ linesOf (verdict.warnings.map (·.text)) ++
                summary g verdict ∧
            (Command.compile workflowId toFile).run strict path (.ok text) =
              ⟨1, "", linesOf (verdict.errors.map (·.text)) ++
                "\nError: Cannot generate workflow: fix validation errors\n", none, log⟩ ∧
            Log.lines (some .warn) log = []) ∧
      (Graph.ofText? text = none → ∀ command : Command,
        (command.run strict path (.ok text)).exitCode = 1 ∧
          (command.run strict path (.ok text)).stdout = "" ∧
          (command.run strict path (.ok text)).written = none) := by
  refine ⟨fun json => ?_, fun g hread hnodes hfails => ?_, fun hread command => ?_⟩
  · cases hread : Graph.ofText? text with
    | none =>
      rw [run_of_unread hread]
      refine iff_of_false (by decide) fun h => ?_
      obtain ⟨-, g, hg, -⟩ := h
      cases hg
    | some g =>
      simp only [run_of_ofText? hread, Command.runOn, exitCode_compile, exitCode_validate,
        Option.some.injEq, exists_eq_left']
  · rw [run_of_ofText? hread, run_of_ofText? hread]
    rw [run_of_ofText? hread, Command.runOn, Ne, exitCode_compile] at hfails
    have hinvalid : (g.validate (optionsOf strict)).isValid = false := by
      simpa [hnodes] using hfails
    refine ⟨g.validate (optionsOf strict), _, rfl, fun hnil => ?_,
      fun d hd => (mem_errors_ofDiagnostics.1 hd).2,
      fun d hd => (mem_warnings_ofDiagnostics.1 hd).2, stdout_validate,
      compile_of_not_isValid hnodes hinvalid workflowId toFile, lines_generation_invalid _⟩
    rw [Graph.isValid_validate_iff_errors.2 hnil] at hinvalid
    cases hinvalid
  · rw [run_of_unread hread]
    exact ⟨rfl, rfl, rfl⟩

/-- The text of a single action, given by position. -/
def actionText (actionId : Json) : String :=
  (Json.arr [.arr [.arr [.str "n1", .str "action", .arr [.num (.int 0), .num (.int 0)],
    .obj [("actionId", actionId)]]]]).compact

/-- An action that is chosen is compiled, one that is not is refused, and an open bracket is no
graph. -/
theorem compile_agrees_actionText :
    ((Command.compile none false).run true "" (.ok (actionText (.str "send")))).exitCode = 0 ∧
      ((Command.compile none true).run true "" (.ok (actionText .null))).stderr =
        linesOf ["[error] n1: No action selected"] ++
          "\nError: Cannot generate workflow: fix validation errors\n" ∧
      ∀ command : Command, (command.run true "" (.ok "[")).exitCode = 1 := by
  have hchosen : (Graph.ofText? (actionText (.str "send"))).any (fun g =>
      !g.nodes.isEmpty && (g.validate .strict).isValid) = true := by
    decide +kernel
  have hbare : (Graph.ofText? (actionText .null)).any (fun g =>
      !g.nodes.isEmpty && (g.validate .strict).errors == [.error "n1" "No action selected"]) =
        true := by
    decide +kernel
  refine ⟨?_, ?_, fun command => ?_⟩
  · obtain ⟨g, hread, hg⟩ := (Option.any_eq_true _ _).1 hchosen
    obtain ⟨hnodes, hvalid⟩ := Bool.and_eq_true_iff.1 hg
    refine ((compile_agrees true "" _ none false).1 false).2 ⟨?_, g, hread, by simpa using hnodes⟩
    rw [run_of_ofText? hread]
    exact (exitCode_validate false).2 hvalid
  · obtain ⟨g, hread, hg⟩ := (Option.any_eq_true _ _).1 hbare
    obtain ⟨hnodes, herrors⟩ := Bool.and_eq_true_iff.1 hg
    have herrors : (g.validate (optionsOf true)).errors = [.error "n1" "No action selected"] :=
      beq_iff_eq.1 herrors
    have htext : (Diagnostic.error "n1" "No action selected").text =
        "[error] n1: No action selected" := by decide
    have hfails :
        ((Command.compile none true).run true "" (.ok (actionText .null))).exitCode ≠ 0 := by
      rw [run_of_ofText? hread, Command.runOn, Ne, exitCode_compile,
        Graph.isValid_validate_iff_errors, herrors]
      simp
    obtain ⟨verdict, log, rfl, -, -, -, -, hcompile, -⟩ :=
      (compile_agrees true "" _ none true).2.1 g hread (by simpa using hnodes) hfails
    rw [hcompile, herrors, List.map_singleton, htext]
  · exact ((compile_agrees true "" "[" none false).2.2 (by decide +kernel) command).1

end StepGraph.CommandLine
