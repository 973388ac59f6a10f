import StepGraph.Proofs.Validation.Configured
import StepGraph.Proofs.Workflow.Steps

/-!
# Open paths

A path of a branch node is open when no edge leaves through its handle.  A compilation writes null
as the target of an open path, and a validation that looks at every handle warns of the node.  The
warning names the open paths, and it is left out where the names come to nothing: so a single open
path without a name goes unnoticed, and nothing else does.

There are four groups.

* The compiled step.  `isOpenAt_branchStep` says at which indices it has no target.
* The names of the open paths.  `exists_open_iff` says when they come to nothing.
* The warning.  `mem_coverageFindings_of_message` says that no other rule makes it.
* The two together.  `warnsOfOpenPaths_iff` is the exact condition, and among the graphs of
  `splitGraph` is one in which an open path goes unnoticed.
-/

namespace StepGraph

open Validation

variable {α : Type}

/-! ## The compiled step -/

namespace Workflow.Step

/-- What the configuration of a branch step gives as the target of the path at an index. -/
def targetDocument? (step : Workflow.Step) (index : Nat) : Option Json := do
  let branches ← step.config.get? branchesKey
  let branch ← branches.json.item? index
  branch.member? targetKey

/-- Whether the target of the path at an index is given as null. -/
def IsOpenAt (step : Workflow.Step) (index : Nat) : Prop :=
  step.targetDocument? index = some .null

instance (step : Workflow.Step) (index : Nat) : Decidable (step.IsOpenAt index) :=
  inferInstanceAs (Decidable (_ = _))

theorem targetDocument?_branchFields {step : Workflow.Step} {paths : List Value}
    (h : step.config = branchFields paths) (i : Nat) :
    step.targetDocument? i = (paths[i]?.map (·.json)).bind (·.member? targetKey) := by
  have hbranches : step.config.get? branchesKey = some (.arr paths) := by
    simp [h, branchFields, branchesKey, List.lookup_cons]
  unfold targetDocument?
  simp [hbranches]

end Workflow.Step

open Workflow.Step in
/-- The step of a branch node is open at the indices of its paths without an edge. -/
theorem Graph.isOpenAt_branchStep {g : Graph α} {node : Node α} {i : Nat} :
    (g.branchStep node).IsOpenAt i ↔
      i < node.data.branches.length ∧
        g.index.edgeFromHandle? node.id (Handle.branch i) = none := by
  unfold IsOpenAt
  rw [targetDocument?_branchFields rfl, getElem?_pathValues, ← Index.handleTarget?_eq_none_iff,
    Index.handleTarget?_index]
  by_cases hlt : i < node.data.branches.length
  · rw [List.getElem?_eq_getElem hlt]
    cases htarget : g.linkThrough? node.id (Handle.branch i) <;>
      simp [member?_pathValue, Json.ofString?, hlt]
  · simp [hlt]

/-! ## The names of the open paths -/

/-- Names of paths with distinct indices come to nothing when there is no path, or one only that has
no name. -/
theorem exists_named_or_second_iff {paths : List (BranchPath × Nat)}
    (hindices : (paths.map (·.2)).Nodup) :
    (∃ m ∈ paths, m.1.name ≠ "" ∨ ∃ n ∈ paths, n.2 ≠ m.2) ↔
      ¬(paths.map (·.1.name) = [] ∨ paths.map (·.1.name) = [""]) := by
  match paths with
  | [] => simp
  | [m] => simp
  | m :: n :: rest =>
    refine iff_of_true ⟨m, List.mem_cons_self, Or.inr ⟨n, by simp, fun hsame => ?_⟩⟩ (by simp)
    simp [hsame] at hindices

/-- There are names to join, and they are not a single empty one, exactly when an open path has a
name or is not the only one. -/
theorem Validation.exists_open_iff {index : Index α} {node : Node α} :
    (∃ i path, node.data.branches[i]? = some path ∧
        index.edgeFromHandle? node.id (Handle.branch i) = none ∧
        (path.name ≠ "" ∨ ∃ j, j ≠ i ∧ j < node.data.branches.length ∧
          index.edgeFromHandle? node.id (Handle.branch j) = none)) ↔
      ¬(unconnectedPaths index node = [] ∨ unconnectedPaths index node = [""]) := by
  have hindices : ∀ p, ((node.data.branches.zipIdx.filter p).map (·.2)).Nodup := by
    intro p
    refine List.Nodup.sublist (List.filter_sublist.map _) ?_
    rw [List.zipIdx_map_snd]
    exact List.nodup_range'
  unfold unconnectedPaths
  rw [← exists_named_or_second_iff (hindices _)]
  simp only [List.mem_filter, Prod.exists, List.mk_mem_zipIdx_iff_getElem?,
    Option.isNone_iff_eq_none]
  constructor
  · rintro ⟨i, path, hpath, hnone, hnamed | ⟨j, hne, hlt, hnone'⟩⟩
    · exact ⟨path, i, ⟨hpath, hnone⟩, Or.inl hnamed⟩
    · exact ⟨path, i, ⟨hpath, hnone⟩,
        Or.inr ⟨_, j, ⟨List.getElem?_eq_getElem hlt, hnone'⟩, hne⟩⟩
  · rintro ⟨path, i, ⟨hpath, hnone⟩, hnamed | ⟨other, j, ⟨hother, hnone'⟩, hne⟩⟩
    · exact ⟨i, path, hpath, hnone, Or.inl hnamed⟩
    · exact ⟨i, path, hpath, hnone,
        Or.inr ⟨j, hne, (List.getElem?_eq_some_iff.1 hother).1, hnone'⟩⟩

/-! ## The warning -/

/-- How the finding about open paths begins. -/
def Validation.openPathsStart : String := "Branch has unconnected paths"

/-- The warnings of a verdict are the findings that are no errors. -/
theorem mem_warnings_ofDiagnostics {ds : List Diagnostic} {d : Diagnostic} :
    d ∈ (Verdict.ofDiagnostics ds).warnings ↔ d ∈ ds ∧ d.isError = false := by
  simp [Verdict.ofDiagnostics]

namespace Validation

/-- A text that begins with a number begins with a digit. -/
theorem toString_append_ne (n : Nat) (text : String) {other : String}
    (hother : ∀ c, other.toList.head? = some c → c.isDigit = false) :
    toString n ++ text ≠ other := by
  intro h
  obtain ⟨c, cs, hdigits⟩ := List.exists_cons_of_ne_nil (Nat.toDigits_ne_nil (b := 10) (n := n))
  have hc : c.isDigit = true :=
    Nat.isDigit_of_mem_toDigits (by decide) (by decide) (hdigits ▸ List.mem_cons_self)
  have hhead : other.toList.head? = some c := by
    rw [← h]
    simp [toString, Nat.repr, hdigits]
  rw [hother c hhead] at hc
  cases hc

/-- What is found about an action by itself is an error. -/
theorem isError_of_mem_nodeFindings {node : Node α} (hkind : node.kind = .action) {d : Diagnostic}
    (h : d ∈ nodeFindings node) : d.isError = true := by
  rw [nodeFindings, hkind] at h
  rcases List.mem_append.1 h with h | h
  · rw [actionFindings] at h
    split at h
    · simp at h
    · rw [List.mem_singleton.1 h]
      rfl
  · simp only [inputFindings] at h
    split at h
    · simp at h
    · split at h
      · simp at h
      · rw [List.mem_singleton.1 h]
        rfl

/-- What is found about a branch by itself begins with a number. -/
theorem message_ne_of_mem_nodeFindings {node : Node α} (hkind : node.kind = .branch)
    {d : Diagnostic} (h : d ∈ nodeFindings node) {other : String}
    (hother : ∀ c, other.toList.head? = some c → c.isDigit = false) : d.message ≠ other := by
  simp only [nodeFindings, hkind, conditionFindings] at h
  split at h
  · simp at h
  · rw [List.mem_singleton.1 h]
    exact toString_append_ne _ _ hother

/-- What is found about the paths of a node begins like the finding about open paths. -/
theorem exists_message_of_mem_coverageFindings {coverage : Coverage} {index : Index α}
    {node : Node α} {d : Diagnostic} (h : d ∈ coverageFindings coverage index node) :
    ∃ rest, d.message = openPathsStart ++ rest := by
  cases coverage with
  | count =>
    simp only [coverageFindings] at h
    split at h
    · rw [List.mem_singleton.1 h]
      refine ⟨s!" ({(index.outgoing node.id).length} of {node.data.branches.length} connected)", ?_⟩
      simp only [Diagnostic.warning, openPathsStart, toString, ← String.append_assoc]
      rfl
    · cases h
  | perHandle =>
    simp only [coverageFindings] at h
    split at h
    · cases h
    · rw [List.mem_singleton.1 h]
      refine ⟨": " ++ ", ".intercalate (unconnectedPaths index node), ?_⟩
      rw [← String.append_assoc]
      rfl

/-- A warning about a node that begins like the finding about open paths is that finding. -/
theorem mem_coverageFindings_of_message {coverage : Coverage} {g : Graph α} {rule : Rule}
    {d : Diagnostic} (h : d ∈ rule.findings coverage g.index) (hwarning : d.isError = false)
    {id rest : String} (hid : d.nodeId = some id) (hmessage : d.message = openPathsStart ++ rest) :
    ∃ node ∈ g.nodes, node.id = id ∧ node.kind = .branch ∧
      d ∈ coverageFindings coverage g.index node := by
  cases rule with
  | start =>
    simp only [Rule.findings, startFindings] at h
    split at h <;>
      simp [noStart, severalStarts, Diagnostic.graphError, Diagnostic.graphWarning] at h <;>
      simp [h] at hid
  | configuration =>
    obtain ⟨node, hnode, h⟩ := List.mem_flatMap.1 h
    cases hkind : node.kind with
    | action =>
      have hbranch : node.isBranch = false := by simp [Node.isBranch, hkind]
      simp only [hbranch, Bool.false_eq_true, if_false, List.append_nil] at h
      rw [isError_of_mem_nodeFindings hkind h] at hwarning
      cases hwarning
    | branch =>
      have hbranch : node.isBranch = true := by simp [Node.isBranch, hkind]
      rw [if_pos hbranch] at h
      rcases List.mem_append.1 h with h | h
      · exact absurd hmessage (message_ne_of_mem_nodeFindings hkind h (by simp [openPathsStart]))
      · have hsame := (nodeId_of_mem_coverageFindings h).symm.trans hid
        exact ⟨node, hnode, Option.some.inj hsame, hkind, h⟩
  | disconnected =>
    obtain ⟨node, -, rfl⟩ := List.mem_map.1 h
    have hhead := congrArg (·.toList.head?) hmessage
    simp [disconnected, Diagnostic.warning, openPathsStart] at hhead
  | cycle =>
    obtain ⟨id, name, rfl⟩ := eq_cycleClosed_of_mem_cycleFindings h
    cases hwarning
  | dangling =>
    obtain ⟨edge, -, rfl⟩ := List.mem_map.1 h
    rw [isError_danglingFinding] at hwarning
    cases hwarning
  | duplicate =>
    obtain ⟨node, -, message, rfl⟩ := eq_error_of_mem_duplicateFindings h
    cases hwarning

/-- Where every handle is looked at, the paths of a node are reported unless their names come to
nothing. -/
theorem exists_mem_coverageFindings_iff {index : Index α} {node : Node α} :
    (∃ d ∈ coverageFindings .perHandle index node, ∃ rest, d.message = openPathsStart ++ rest) ↔
      ¬(unconnectedPaths index node = [] ∨ unconnectedPaths index node = [""]) := by
  rw [← isEmpty_intercalate_iff (show ", " ≠ "" by decide)]
  simp only [coverageFindings]
  split
  · rename_i h
    simp [h]
  · rename_i h
    refine iff_of_true ⟨_, List.mem_singleton_self _,
      ": " ++ ", ".intercalate (unconnectedPaths index node), ?_⟩ h
    rw [← String.append_assoc]
    rfl

end Validation

/-! ## The two together -/

namespace Graph

/-- Whether a validation warns that paths of a node have no edge. -/
def WarnsOfOpenPaths (g : Graph α) (options : Options) (id : String) : Prop :=
  ∃ d ∈ (g.validate options).warnings, d.nodeId = some id ∧
    ∃ rest, d.message = openPathsStart ++ rest

/-- Such a warning is the finding about the paths of the node. -/
theorem warnsOfOpenPaths_iff_coverageFindings {g : Graph α} {options : Options}
    (hids : (g.nodes.map (·.id)).Nodup) {node : Node α} (hnode : node ∈ g.nodes)
    (hkind : node.kind = .branch) :
    g.WarnsOfOpenPaths options node.id ↔
      ∃ d ∈ coverageFindings options.coverage g.index node,
        ∃ rest, d.message = openPathsStart ++ rest := by
  have hnodes : g.nodes ≠ [] := List.ne_nil_of_mem hnode
  unfold WarnsOfOpenPaths validate
  simp only [mem_warnings_ofDiagnostics, mem_findings hnodes]
  constructor
  · rintro ⟨d, ⟨⟨rule, -, hd⟩, hwarning⟩, hid, rest, hmessage⟩
    obtain ⟨other, hother, hsame, -, hmem⟩ :=
      mem_coverageFindings_of_message hd hwarning hid hmessage
    obtain rfl : other = node := List.inj_on_of_nodup_map hids hother hnode hsame
    exact ⟨d, hmem, rest, hmessage⟩
  · rintro ⟨d, hd, rest, hmessage⟩
    refine ⟨d, ⟨⟨.configuration, by simp [Options.rules], ?_⟩,
      errorFree_coverageFindings _ _ _ d hd⟩, nodeId_of_mem_coverageFindings hd, rest, hmessage⟩
    refine List.mem_flatMap.2 ⟨node, hnode, List.mem_append_right _ ?_⟩
    rw [if_pos (by simp [Node.isBranch, hkind])]
    exact hd

open Workflow.Step in
/-- Where ids are distinct and every handle is looked at, a validation warns of a branch node
exactly when the compiled step has no target for a path with a name, or for more than one path. -/
theorem warnsOfOpenPaths_iff (g : Graph α) (options : Options)
    (hids : (g.nodes.map (·.id)).Nodup) (hcoverage : options.coverage = .perHandle) {slot : Nat}
    {node : Node α} (hnode : g.nodes[slot]? = some node) (hkind : node.kind = .branch)
    (workflowId : Option String) (verdict : Verdict) (hvalid : verdict.isValid = true) :
    ∃ w step, g.compile workflowId verdict = .ok w ∧ w.steps[slot]? = some step ∧
      (g.WarnsOfOpenPaths options node.id ↔
        ∃ i path, node.data.branches[i]? = some path ∧ step.IsOpenAt i ∧
          (path.name ≠ "" ∨ ∃ j, j ≠ i ∧ step.IsOpenAt j)) := by
  have hstep : g.stepFor node = g.branchStep node := by rw [stepFor, hkind]
  refine ⟨_, g.branchStep node, (g.compile_of_isValid workflowId hvalid).trans
    (g.workflow_eq_ok workflowId), ?_, ?_⟩
  · rw [List.getElem?_map, hnode, Option.map_some, hstep]
  · rw [warnsOfOpenPaths_iff_coverageFindings hids (List.mem_of_getElem? hnode) hkind, hcoverage,
      exists_mem_coverageFindings_iff, ← exists_open_iff]
    simp only [isOpenAt_branchStep]
    refine exists_congr fun i => exists_congr fun path => and_congr_right fun hpath => ?_
    rw [and_iff_right (List.getElem?_eq_some_iff.1 hpath).1]

/-- A branch with paths of the given names, of which an edge takes the first. -/
def splitGraph (names : List String) : Graph Rat where
  nodes := [
    { id := "n1"
      kind := .branch
      position := ⟨0, 0⟩
      data := { StepData.empty with
        label := "Split", stepId := "s1", branches := names.map BranchPath.ofName } },
    { id := "n2"
      kind := .action
      position := ⟨0, 200⟩
      data := { StepData.empty with label := "Send", stepId := "s2", actionId := some "send" } }]
  edges := [⟨"e1", "n1", "n2", some "branch-0", none⟩]

/-- Two open paths without names are noticed. -/
theorem warnsOfOpenPaths_splitGraph :
    ∃ w step, (splitGraph ["Yes", "", ""]).compile none ⟨true, [], []⟩ = .ok w ∧
      w.steps[0]? = some step ∧ step.IsOpenAt 1 ∧ step.IsOpenAt 2 ∧
      (splitGraph ["Yes", "", ""]).WarnsOfOpenPaths .strict "n1" := by
  obtain ⟨w, step, hw, hstep, hwarns⟩ :=
    (splitGraph ["Yes", "", ""]).warnsOfOpenPaths_iff .strict (by decide) rfl
      (show (splitGraph ["Yes", "", ""]).nodes[0]? = some _ from rfl) rfl none ⟨true, [], []⟩ rfl
  have hopen : step.IsOpenAt 1 ∧ step.IsOpenAt 2 := by
    rw [compile_of_isValid _ none rfl, workflow_eq_ok] at hw
    cases hw
    cases hstep
    decide +kernel
  exact ⟨w, step, hw, hstep, hopen.1, hopen.2,
    hwarns.2 ⟨1, .ofName "", rfl, hopen.1, Or.inr ⟨2, by decide, hopen.2⟩⟩⟩

/-- A single open path without a name is not noticed. -/
theorem not_warnsOfOpenPaths_splitGraph :
    (∃ w step, (splitGraph ["Yes", ""]).compile none ⟨true, [], []⟩ = .ok w ∧
      w.steps[0]? = some step ∧ step.IsOpenAt 1) ∧
      ¬(splitGraph ["Yes", ""]).WarnsOfOpenPaths .strict "n1" := by
  constructor
  · refine ⟨_, _, ((splitGraph ["Yes", ""]).compile_of_isValid none rfl).trans
      (workflow_eq_ok _ none), rfl, ?_⟩
    decide +kernel
  · rintro ⟨d, hd, -, rest, hmessage⟩
    have hwarnings : ((splitGraph ["Yes", ""]).validate .strict).warnings =
        [.warning "n1" "2 branch path(s) without conditions"] := by decide +kernel
    rw [hwarnings, List.mem_singleton] at hd
    subst hd
    have hhead := congrArg (·.toList.head?) hmessage
    simp [Diagnostic.warning, openPathsStart] at hhead

end Graph

end StepGraph
