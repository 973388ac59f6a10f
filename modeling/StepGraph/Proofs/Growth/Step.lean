import StepGraph.Growth.Basic
import StepGraph.Proofs.Validation.MissingInputs

/-!
# The step that is added

Growing puts a node at the end of the list and then edits it until it is what its role asks for.
The id of the node is fresh, so every edit finds the node and leaves the others alone.

There are three groups.

* Edits of a node that was just added.
* Inputs.  The inputs that an action of the catalog requires are configured, one after the other.
* `Role.IsMade` says what becomes of the node, and `exists_configure_eq_ok` that nothing fails.
-/

namespace StepGraph

open Validation

variable {α : Type}

/-! ## A node that was just added -/

namespace Graph

theorem setAction_pushNode {g : Graph α} {node : Node α} (hfresh : g.hasNode node.id = false)
    (hkind : node.kind = .action) (actionId : String) (definition : Option ActionDefinition) :
    (g.pushNode node).setAction node.id actionId definition =
      .ok (g.pushNode (node.updateData fun data =>
        { data with actionId := some actionId, definition := definition, config := .empty })) := by
  rw [setAction, getNodeOfKind_eq_ok.2 ⟨node?_pushNode_self hfresh, hkind⟩]
  exact congrArg Except.ok (updateNode_pushNode hfresh _)

end Graph

/-! ## Inputs -/

namespace Growth

/-- The values of inputs under their names. -/
def inputEntries (fields : List ActionField) : List (String × Value) :=
  fields.map fun field => (field.name, inputValue field)

/-- Setting the inputs of a node that was just added. -/
theorem foldlM_setConfigValue_pushNode {g : Graph α} (fields : List ActionField) {node : Node α}
    (hfresh : g.hasNode node.id = false) (hkind : node.kind = .action) :
    fields.foldlM (fun g field => g.setConfigValue node.id field.name (inputValue field))
        (g.pushNode node) = .ok (g.pushNode (node.withEntries (inputEntries fields))) := by
  have hcalls := Graph.foldlM_setConfigValue (inputEntries fields)
    (Graph.node?_pushNode_self hfresh) hkind
  rw [inputEntries, List.foldlM_map, Graph.updateNode_pushNode hfresh] at hcalls
  exact hcalls

/-! ## The node of a role -/

/-- What becomes of the node of a step.  Nothing is wrong with it, and its outputs that are paths of
a branch are in range. -/
structure Role.IsMade (role : Role) (c : Choice) (node : Node α) : Prop where
  id : node.id = c.nodeId
  isApproval : node.isApproval = decide (role = .approval)
  sound : nodeFindings node = []
  ranged : ∀ handle ∈ role.handles, ∀ index, Graph.pathTaken? node handle = some index →
    index < node.data.branches.length

section Made

variable {g : Graph α} {c : Choice} {node : Node α}

/-- An action is sound where it is chosen and no required input is missing, and it has no paths. -/
theorem isMade_of_action {role : Role} (hkind : node.kind = .action) (hid : node.id = c.nodeId)
    (happroval : node.isApproval = decide (role = .approval))
    (hchosen : node.data.actionId.any (!Text.isBlank ·) = true)
    (hinputs : ∀ definition, node.data.definition = some definition →
      missingLabels definition node.data.config = []) : role.IsMade c node where
  id := hid
  isApproval := happroval
  sound := by
    have haction : actionFindings node = [] := by rw [actionFindings, if_pos hchosen]
    have hinput : inputFindings node = [] := by
      rw [inputFindings]
      split
      · rfl
      · rename_i definition hdefinition
        simp [hinputs definition hdefinition]
    rw [nodeFindings, hkind, haction, hinput]
    rfl
  ranged handle _ index hpath := by simp [Graph.pathTaken?, Node.isBranch, hkind] at hpath

variable (hfresh : g.hasNode node.id = false) (hid : node.id = c.nodeId)

include hfresh hid

/-- An action of the catalog: its id is not blank, and its required inputs are all set. -/
theorem exists_makeAction_eq_ok (hkind : node.kind = .action) :
    ∃ made, makeAction (g.pushNode node) c.nodeId c.action = .ok (g.pushNode made) ∧
      Role.action.IsMade c made := by
  obtain ⟨⟨actionId, fields⟩, hentry⟩ :
      ∃ entry, catalog[c.action % catalog.length]? = some entry :=
    ⟨_, List.getElem?_eq_getElem (Nat.mod_lt _ (by decide))⟩
  have hnamed : ∀ entry ∈ catalog, Text.isBlank entry.1 = false := by decide +kernel
  have hchosen : Text.isBlank actionId = false := hnamed _ (List.mem_of_getElem? hentry)
  rw [makeAction, hentry, ← hid]
  simp only [Graph.setAction_pushNode hfresh hkind]
  refine ⟨_, @foldlM_setConfigValue_pushNode _ _ _ (node.updateData _) hfresh hkind,
    isMade_of_action hkind hid ?_ ?_ fun definition hdefinition => ?_⟩
  · simp [Node.isApproval, Node.withEntries, Node.updateData, ActionDefinition.isApproval]
  · simp [Node.withEntries, Node.updateData, hchosen]
  · cases hdefinition
    rw [ActionDefinition.missingLabels_eq, List.map_eq_nil_iff]
    apply ActionDefinition.absentInputs_insertAll_eq_nil
    intro field hfield hrequired
    exact ⟨_, List.mem_map_of_mem (List.mem_filter.2 ⟨hfield, hrequired⟩), rfl⟩

theorem exists_makeApproval_eq_ok (hkind : node.kind = .action) :
    ∃ made, makeApproval (g.pushNode node) c.nodeId = .ok (g.pushNode made) ∧
      Role.approval.IsMade c made := by
  have hnamed : Text.isBlank "approval" = false := by decide +kernel
  rw [makeApproval, ← hid, Graph.setAction_pushNode hfresh hkind]
  refine ⟨_, rfl, isMade_of_action hkind hid ?_ ?_ fun definition hdefinition => ?_⟩
  · simp [Node.isApproval, Node.isAction, Node.updateData, hkind, ActionDefinition.isApproval]
  · simp [Node.updateData, hnamed]
  · cases hdefinition
    rfl

/-- A branch: its two paths have conditions. -/
theorem exists_makeBranch_eq (hkind : node.kind = .branch) :
    ∃ made, makeBranch (g.pushNode node) c.nodeId c.threshold = g.pushNode made ∧
      Role.branch.IsMade c made := by
  rw [makeBranch, ← hid, Graph.updateNode_pushNode hfresh]
  refine ⟨_, rfl, ?_⟩
  exact {
    id := hid
    isApproval := by simp [Node.isApproval, Node.isAction, Node.updateBranches, Node.updateData,
      hkind]
    sound := by
      have hkind : (node.updateBranches fun _ => amountPaths c.threshold).kind = .branch := hkind
      rw [nodeFindings, hkind]
      rfl
    ranged := by
      intro handle hhandle index hpath
      have hbound : ∀ handle ∈ Role.branch.handles,
          ∀ index ∈ handle.bind Handle.branchIndex?, index < 2 := by decide
      have hindex : handle.bind Handle.branchIndex? = some index := by
        simpa [Graph.pathTaken?, Node.isBranch, Node.updateBranches, Node.updateData, hkind]
          using hpath
      exact hbound handle hhandle index hindex }

end Made

/-- Making a step of a node that was just added never fails. -/
theorem exists_configure_eq_ok {g : Graph α} (role : Role) (c : Choice) (position : Point α)
    (hfresh : g.hasNode c.nodeId = false) :
    ∃ made, configure (g.pushNode (.fresh c.nodeId c.stepId role.kind position)) role c =
      .ok (g.pushNode made) ∧ role.IsMade c made := by
  cases role with
  | action => exact exists_makeAction_eq_ok hfresh rfl rfl
  | approval => exact exists_makeApproval_eq_ok hfresh rfl rfl
  | branch =>
    obtain ⟨made, hmade, h⟩ : ∃ made,
        makeBranch (g.pushNode (.fresh c.nodeId c.stepId .branch position)) c.nodeId c.threshold =
          g.pushNode made ∧ Role.branch.IsMade c made := exists_makeBranch_eq hfresh rfl rfl
    exact ⟨made, congrArg Except.ok hmade, h⟩

end Growth

end StepGraph
