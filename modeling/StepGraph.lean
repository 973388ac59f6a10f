import StepGraph.Main
import StepGraph.Proofs.List
import StepGraph.Proofs.Validation.CycleSearch
import StepGraph.Proofs.Graph.Follow
import StepGraph.Proofs.Validation.Validity
import StepGraph.Proofs.Editing.Exclusive
import StepGraph.Proofs.Editing.Target
import StepGraph.Proofs.Editing.WellFormed
import StepGraph.Proofs.Editing.RemovedPath
import StepGraph.Proofs.Editing.StaysValid
import StepGraph.Proofs.Editing.Saved
import StepGraph.Proofs.Workflow.Run
import StepGraph.Proofs.Workflow.IdleValue
import StepGraph.Proofs.Validation.Coverage
import StepGraph.Proofs.Layout.Layers
import StepGraph.Proofs.Validation.Start
import StepGraph.Proofs.Validation.CycleReport
import StepGraph.Proofs.Graph.Alike
import StepGraph.Proofs.Validation.Alike
import StepGraph.Proofs.Layout.Rows
import StepGraph.Proofs.Workflow.Alike
import StepGraph.Proofs.Growth.Step
import StepGraph.Proofs.Validation.Tree
import StepGraph.Proofs.Growth.Tree
import StepGraph.Proofs.Workflow.Reordered
import StepGraph.Proofs.Validation.Strictness
import StepGraph.Proofs.CommandLine.Agreement
import StepGraph.Proofs.Workflow.Addition
import StepGraph.Proofs.Layout.FreePlace
import StepGraph.Proofs.Layout.Arranged
import StepGraph.Proofs.Editing.Connection
import StepGraph.Proofs.Validation.MissingInputs
import StepGraph.Proofs.Validation.Badge
import StepGraph.Proofs.Graph.Tables
import StepGraph.Proofs.Editing.Inverse
import StepGraph.Proofs.Workflow.Saved
import StepGraph.Proofs.Layout.Snapping
import StepGraph.Proofs.Continues
import StepGraph.Proofs.Editing.Frame
