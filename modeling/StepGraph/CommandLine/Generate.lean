import StepGraph.CommandLine.Command
import StepGraph.Growth.Random
import StepGraph.Numeral.Style

/-!
# Generating a graph

`Generation.run` grows a graph from a seed, counts what a validation finds in it, and gives the text
of the graph to write.  A probability must be between zero and one, and there must be a step.
-/

namespace StepGraph.CommandLine

/-- What graph is asked for. -/
structure Generation where
  steps : Nat
  /-- How often a step is a branch. -/
  branchRatio : Float
  /-- How often an action asks for approval. -/
  approvalRatio : Float
  seed : UInt64

namespace Generation

/-- The number of steps and the probabilities where none are given. -/
def default : Generation := ⟨25, 0.2, 0.1, 0⟩

/-- Whether a float is a probability. -/
def isProbability (ratio : Float) : Bool := decide (0 ≤ ratio) && decide (ratio ≤ 1)

/-- What is wrong with what is asked for. -/
def complaint? (request : Generation) : Option String :=
  if !isProbability request.branchRatio then some (outOfRange "--branch-ratio" request.branchRatio)
  else if !isProbability request.approvalRatio then
    some (outOfRange "--approval-ratio" request.approvalRatio)
  else if request.steps = 0 then some "--steps must be at least 1"
  else none
where
  /-- A ratio that is no probability. -/
  outOfRange (name : String) (ratio : Float) : String :=
    s!"{name} ({Numeral.Style.message.text ratio}) must be between 0 and 1"

/-- The choices that the seed leads to. -/
def choices (request : Generation) : List Growth.Choice :=
  (Growth.Stream.mk request.seed).choices request.branchRatio request.approvalRatio request.steps

/-- Grows the graph, and says where it will be written. -/
def run (request : Generation) (path : String) : Outcome :=
  match request.complaint? with
  | some complaint => ⟨1, "", s!"Error: {complaint}\n", none, []⟩
  | none =>
    let announced := s!"Generating a workflow graph with {request.steps} step(s)...\n"
    match (Growth.grow request.choices : Except EditError (Graph Float)) with
    | .error error => ⟨1, announced, s!"Error: {error.message}\n", none, []⟩
    | .ok g =>
      let verdict := g.validate .live
      let found := s!"-> {verdict.errors.length} error(s), {verdict.warnings.length} warning(s)\n"
      let saved := s!"Successfully generated and saved graph to '{path}'\n"
      ⟨0, announced ++ found ++ saved, "", some g.text, []⟩

end Generation

end StepGraph.CommandLine
