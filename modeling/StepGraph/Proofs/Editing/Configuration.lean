import StepGraph.Proofs.Editing.Outcome

/-!
# Configuring an action

Values are put into the configuration of an action one after the other.  Every call finds the node
that the first one found, so a list of calls succeeds, and it amounts to one change of that node.

There are two groups.

* Configurations.  `contains_insertAll` says which keys there are after a list of values.
* Calls, `foldlM_setConfigValue`.
-/

namespace StepGraph

variable {α : Type}

/-! ## Configurations -/

namespace Fields

/-- A key that is set stays set. -/
theorem contains_insert (config : Fields) (key other : String) (value : Value) :
    (config.insert key value).contains other = (key == other || config.contains other) := by
  by_cases h : key = other <;> simp [contains, h]

/-- Puts values under keys, in turn. -/
def insertAll (config : Fields) (entries : List (String × Value)) : Fields :=
  entries.foldl (fun config entry => config.insert entry.1 entry.2) config

/-- Each of the keys is there, and what was there before still is. -/
theorem contains_insertAll (entries : List (String × Value)) (config : Fields) (key : String) :
    (config.insertAll entries).contains key =
      (entries.any (·.1 == key) || config.contains key) := by
  induction entries generalizing config with
  | nil => rfl
  | cons entry rest ih =>
    rw [insertAll, List.foldl_cons, ← insertAll, ih, contains_insert, List.any_cons]
    cases entry.1 == key <;> simp

end Fields

/-! ## Calls -/

/-- A node with values put into its configuration, in turn. -/
def Node.withEntries (entries : List (String × Value)) (node : Node α) : Node α :=
  node.updateData fun data => { data with config := data.config.insertAll entries }

@[simp] theorem Node.id_withEntries (entries : List (String × Value)) (node : Node α) :
    (node.withEntries entries).id = node.id := rfl

theorem Node.withEntries_nil (node : Node α) : node.withEntries [] = node := rfl

namespace Graph

variable {g : Graph α} {id : String}

/-- Values are put into the configuration of the node that an id finds. -/
theorem foldlM_setConfigValue (entries : List (String × Value)) {node : Node α}
    (hnode : g.node? id = some node) (hkind : node.kind = .action) :
    entries.foldlM (fun g entry => g.setConfigValue id entry.1 entry.2) g =
      .ok (g.updateNode id (Node.withEntries entries)) := by
  induction entries generalizing g node with
  | nil =>
    rw [updateNode_eq_self fun node _ => node.withEntries_nil]
    rfl
  | cons entry rest ih =>
    have hset : g.setConfigValue id entry.1 entry.2 =
        .ok (g.updateNode id (Node.withEntries [entry])) := by
      rw [setConfigValue, getNodeOfKind_eq_ok.2 ⟨hnode, hkind⟩]
      rfl
    have hfound : (g.updateNode id (Node.withEntries [entry])).node? id =
        some (node.withEntries [entry]) := by
      rw [node?_updateNode (Node.id_withEntries [entry]), hnode, Option.map_some]
    have htwice : (g.updateNode id (Node.withEntries [entry])).updateNode id
        (Node.withEntries rest) = g.updateNode id (Node.withEntries (entry :: rest)) :=
      updateNode_updateNode (Node.id_withEntries [entry]) _ g id
    rw [List.foldlM_cons, hset, ← htwice]
    exact ih hfound hkind

end Graph

end StepGraph
