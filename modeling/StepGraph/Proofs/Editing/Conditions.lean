import StepGraph.Graph.Document
import StepGraph.Proofs.Editing.Origin
import StepGraph.Proofs.Json.Record

/-!
# Where conditions come from

Conditions enter a graph with the document it is read from, and no edit makes one: an edit moves
paths, copies them, drops them and adds paths without conditions.

There are three groups.

* The conditions of a graph, in the order of its nodes and paths.
* Reading.  `Graph.givenConditions` are the parts of a document that give conditions, and
  `Graph.mapM_givenConditions` says that they are read one by one.
* Editing.  `Graph.conditions_run_subset` says that a session adds no condition.
-/

namespace StepGraph

variable {α : Type}

/-! ## The conditions of a graph -/

/-- The conditions of the paths of a node. -/
def Node.conditions (node : Node α) : List Condition := node.data.branches.flatMap (·.conditions)

/-- The conditions of all paths. -/
def Graph.conditions (g : Graph α) : List Condition := g.nodes.flatMap (·.conditions)

/-! ## Reading -/

namespace Json

/-- What the document of a record gives for a field. -/
def part? (keys : List String) (key : String) (j : Json) : Option Json :=
  (Record.ofJson? keys j).bind (·.get? key)

/-- The items that the document of a record gives for a field that holds a list. -/
def parts (keys : List String) (key : String) (j : Json) : List Json :=
  match j.part? keys key with
  | some (.arr items) => items
  | _ => []

variable {β : Type} {keys : List String} {key : String} {read : Json → Option β} {j : Json}

theorem part?_eq_get? {r : Record} (h : Record.ofJson? keys j = some r) :
    j.part? keys key = r.get? key := by
  rw [part?, h, Option.bind_some]

/-- The items of a list are read one by one. -/
theorem mapM_parts {r : Record} (h : Record.ofJson? keys j = some r) {values : List β}
    (hlist : r.list key read = some values) : (j.parts keys key).mapM read = some values := by
  rw [parts, part?_eq_get? h]
  rw [Record.list, Record.withDefault] at hlist
  split at hlist
  · rename_i hget
    simpa [hget] using hlist
  · rename_i given hget
    rw [hget]
    cases given with
    | arr items => exact hlist
    | _ => cases hlist

end Json

/-- The conditions that the document of a path gives. -/
def BranchPath.givenConditions (j : Json) : List Json := j.parts keys "conditions"

/-- The conditions that the document of a node gives. -/
def Node.givenConditions (j : Json) : List Json :=
  match j.part? keys "data" with
  | some data => (data.parts StepData.keys "branches").flatMap BranchPath.givenConditions
  | none => []

/-- The conditions that the document of a graph gives. -/
def Graph.givenConditions (j : Json) : List Json :=
  (j.parts ["nodes", "edges"] "nodes").flatMap Node.givenConditions

theorem BranchPath.mapM_givenConditions {j : Json} {path : BranchPath} (h : ofJson? j = some path) :
    (givenConditions j).mapM Condition.ofJson? = some path.conditions := by
  simp only [ofJson?, Option.bind_eq_bind, Option.bind_eq_some_iff] at h
  obtain ⟨r, hr, name, _, conditions, hconditions, logic, _, target, _, hpath⟩ := h
  cases hpath
  exact Json.mapM_parts hr hconditions

/-- A step's data is read from an object: paths from their field, and the editor's own from the
members that have no name. -/
theorem StepData.exists_of_ofJson? {j : Json} {data : StepData} (h : ofJson? j = some data) :
    ∃ members r, j = .obj members ∧ Record.ofJson? keys j = some r ∧
      r.list "branches" BranchPath.ofJson? = some data.branches ∧
      Fields.ofMembers? (members.filter fun m => !keys.contains m.1) = some data.extra := by
  cases j with
  | obj members =>
    simp only [ofJson?, Option.bind_eq_bind, Option.bind_eq_some_iff] at h
    obtain ⟨r, hr, _, _, _, _, _, _, _, _, _, _, _, _, _, hbranches, _, hextra, hdata⟩ := h
    cases hdata
    exact ⟨members, r, rfl, hr, hbranches, hextra⟩
  | _ => cases h

theorem StepData.mapM_parts_branches {j : Json} {data : StepData} (h : ofJson? j = some data) :
    (j.parts keys "branches").mapM BranchPath.ofJson? = some data.branches := by
  obtain ⟨_, r, -, hr, hbranches, -⟩ := exists_of_ofJson? h
  exact Json.mapM_parts hr hbranches

theorem Node.mapM_givenConditions {j : Json} {node : Node Float} (h : ofJson? j = some node) :
    (givenConditions j).mapM Condition.ofJson? = some node.conditions := by
  simp only [ofJson?, Option.bind_eq_bind, Option.bind_eq_some_iff] at h
  obtain ⟨r, hr, id, _, kind, _, position, _, data, hdata, hnode⟩ := h
  cases hnode
  rw [Record.withDefault] at hdata
  rw [givenConditions, Json.part?_eq_get? hr]
  split at hdata
  · rename_i hget
    cases hdata
    rw [hget]
    rfl
  · rename_i given hget
    rw [hget]
    exact mapM_flatMap_of_mapM (fun _ _ => BranchPath.mapM_givenConditions)
      (StepData.mapM_parts_branches hdata)

/-- The conditions of a graph are those that its document gives, read one by one. -/
theorem Graph.mapM_givenConditions {j : Json} {g : Graph Float} (h : ofJson? j = some g) :
    (givenConditions j).mapM Condition.ofJson? = some g.conditions := by
  simp only [ofJson?, Option.bind_eq_bind, Option.bind_eq_some_iff] at h
  obtain ⟨r, hr, nodes, hnodes, edges, _, hg⟩ := h
  cases hg
  exact mapM_flatMap_of_mapM (fun _ _ => Node.mapM_givenConditions) (Json.mapM_parts hr hnodes)

/-! ## Editing -/

/-- A node whose paths have the conditions of another's has the other's conditions. -/
theorem Node.conditions_subset_of_map_eq {node other : Node α}
    (h : node.data.branches.map (·.conditions) = other.data.branches.map (·.conditions)) :
    node.conditions ⊆ other.conditions := by
  simp only [conditions, List.flatMap_def, h]
  exact List.Subset.refl _

theorem conditions_forgetTarget (stepId : String) (path : BranchPath) :
    (Graph.forgetTarget stepId path).conditions = path.conditions := by
  rw [Graph.forgetTarget]
  split <;> rfl

theorem conditions_modify (index : Nat) (target : Option String) (paths : List BranchPath) :
    (paths.modify index fun path => { path with target := target }).map (·.conditions) =
      paths.map (·.conditions) := by
  refine List.ext_getElem? fun i => ?_
  rw [List.getElem?_map, List.getElem?_map, List.getElem?_modify]
  cases paths[i]? with
  | none => rfl
  | some path =>
    simp only [Option.map_eq_map, Option.map_some]
    split <;> rfl

/-- No edit gives a node a condition. -/
theorem Node.Becomes.conditions_subset {edit : Edit α} {old node : Node α}
    (h : old.Becomes edit node) : node.conditions ⊆ old.conditions := by
  cases h with
  | same | placed | acting | configured => exact List.Subset.refl _
  | copied newId newStepId id old position =>
    refine conditions_subset_of_map_eq ?_
    rw [Graph.copyOf, List.map_map]
    rfl
  | forgot edit old stepId =>
    refine conditions_subset_of_map_eq ?_
    rw [updateBranches, updateData, List.map_map]
    exact List.map_congr_left fun path _ => conditions_forgetTarget stepId path
  | noted edit old index target =>
    exact conditions_subset_of_map_eq (conditions_modify index target _)
  | extended id name old hkind =>
    simp [conditions, updateBranches, updateData, BranchPath.ofName]
  | shortened id index old hkind hleast hrange =>
    intro c hc
    obtain ⟨path, hpath, hc⟩ := List.mem_flatMap.1 hc
    exact List.mem_flatMap.2 ⟨path, List.mem_of_mem_eraseIdx hpath, hc⟩

namespace Graph

variable [Coordinate α]

/-- An edit adds no condition. -/
theorem conditions_apply_subset (g : Graph α) (edit : Edit α) :
    (g.apply edit).conditions ⊆ g.conditions := by
  rcases apply_eq_or_edited g edit with h | h
  · rw [h]
    exact List.Subset.refl _
  intro c hc
  obtain ⟨node, hnode, hc⟩ := List.mem_flatMap.1 hc
  rcases h.mem_nodes_cases hnode with ⟨id, stepId, kind, position, -, rfl⟩ | ⟨old, hold, hbecomes⟩
  · cases kind <;> simp [Node.conditions, Node.fresh, StepData.empty, BranchPath.ofName] at hc
  · exact List.mem_flatMap.2 ⟨old, hold, hbecomes.conditions_subset hc⟩

/-- A session adds no condition. -/
theorem conditions_run_subset (g : Graph α) (edits : List (Edit α)) :
    (g.run edits).conditions ⊆ g.conditions := by
  induction edits generalizing g with
  | nil => exact List.Subset.refl _
  | cons edit rest ih => exact List.Subset.trans (ih _) (conditions_apply_subset g edit)

end Graph

end StepGraph
