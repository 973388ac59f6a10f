import StepGraph.Graph.Document
import StepGraph.Proofs.Json.Record

/-!
# Graphs come back from their documents

What is written as a document is read back, with two exceptions: a condition whose value is null
comes back without a value, and a key that the editor keeps for itself must not be one of the named
keys of a node's data.  `StepData.IsStorable` excludes both.

There are two groups.

* Names.  Older names of operators and other spellings of a combination are replaced once.
* Writing and reading back, one lemma for each kind of part.
-/

namespace StepGraph

/-! ## Names -/

/-- The names of operators in older documents. -/
def Operator.olderNames : List String :=
  ["equals", "notEquals", "greaterThan", "greaterThanOrEqual", "lessThan", "lessThanOrEqual"]

/-- A name that is not an older one is kept. -/
theorem Operator.currentName_of_not_mem {name : String} (h : name ∉ olderNames) :
    currentName name = name := by
  simp only [olderNames, List.mem_cons, List.not_mem_nil, or_false, not_or] at h
  rw [currentName.eq_def]
  split <;> simp_all

@[simp] theorem Operator.ofJson?_name (operator : Operator) :
    Operator.ofJson? (.str operator.name) = some operator := by
  rw [ofJson?, ofName_name]

@[simp] theorem ConditionLogic.ofText?_text (logic : ConditionLogic) :
    ConditionLogic.ofText? logic.text = some logic := by
  cases logic <;> rfl

@[simp] theorem ConditionLogic.ofJson?_text (logic : ConditionLogic) :
    ConditionLogic.ofJson? (.str logic.text) = some logic := by
  simp [ofJson?, Json.choice?]

@[simp] theorem NodeKind.ofJson?_text (kind : NodeKind) :
    NodeKind.ofJson? (.str kind.text) = some kind := by
  cases kind <;> rfl

/-! ## Writing and reading back -/

theorem lookupMember_presentMember {β : Type} (key k : String) (write : β → Json)
    (value : Option β) : lookupMember key (presentMember k write value) =
      if k = key then value.map write else none := by
  cases value with
  | none => simp [presentMember]
  | some value => simp [presentMember, lookupMember_cons]

theorem keys_presentMember_sublist {β : Type} (key : String) (write : β → Json)
    (value : Option β) : ((presentMember key write value).map (·.1)).Sublist [key] := by
  cases value <;> simp [presentMember]

/-- A condition that comes back from its document: a value of null would be taken for none. -/
def Condition.IsStorable (c : Condition) : Prop := c.value ≠ some .null

theorem Condition.ofJson?_toJson {c : Condition} (h : c.IsStorable) :
    Condition.ofJson? c.toJson = some c := by
  have hkeys : (([("field", Json.str c.field), ("operator", .str c.operator.name)] ++
      presentMember "value" Value.json c.value).map (·.1)).Sublist keys := by
    rw [List.map_append]
    exact (List.Sublist.refl ["field", "operator"]).append (keys_presentMember_sublist _ _ _)
  obtain ⟨r, hr, hget⟩ :=
    Record.exists_ofJson?_eq_some (show c.toJson = .obj _ from rfl) (by decide) hkeys
  have hfield : r.required "field" Json.string? = some c.field := by
    simp [Record.required, hget, lookupMember_cons, Json.string?]
  have hoperator : r.required "operator" Operator.ofJson? = some c.operator := by
    simp [Record.required, hget, lookupMember_cons]
  have hvalue : r.optional "value" Value.ofJson? = some c.value := by
    refine Record.optional_of_map (by simp [hget, lookupMember_cons, lookupMember_presentMember])
      fun v hv => ⟨fun hnull => h ?_, v.ofJson?_json⟩
    exact hv.trans (congrArg some (Value.ext hnull))
  rw [ofJson?, hr]
  simp [hfield, hoperator, hvalue]

theorem BranchPath.ofJson?_toJson {path : BranchPath} (h : ∀ c ∈ path.conditions, c.IsStorable) :
    BranchPath.ofJson? path.toJson = some path := by
  obtain ⟨r, hr, hget⟩ := Record.exists_ofJson?_eq_some (show path.toJson = .obj _ from rfl)
    (by decide) (List.Sublist.refl keys)
  have hname : r.required "name" Json.string? = some path.name := by
    simp [Record.required, hget, lookupMember_cons, Json.string?]
  have hconditions : r.list "conditions" Condition.ofJson? = some path.conditions :=
    Record.list_of_map (by simp [hget, lookupMember_cons]) fun c hc =>
      Condition.ofJson?_toJson (h c hc)
  have hlogic : r.withDefault "conditionLogic" .all ConditionLogic.ofJson? = some path.logic := by
    simp [Record.withDefault, hget, lookupMember_cons]
  have htarget : r.optional "targetTempId" Json.string? = some path.target :=
    Record.optional_ofString? (by simp [hget, lookupMember_cons])
  rw [ofJson?, hr]
  simp [hname, hconditions, hlogic, htarget]

theorem ActionField.ofJson?_toJson (field : ActionField) :
    ActionField.ofJson? field.toJson = some field := by
  obtain ⟨r, hr, hget⟩ := Record.exists_ofJson?_eq_some (show field.toJson = .obj _ from rfl)
    (by decide) (List.Sublist.refl keys)
  rw [ofJson?, hr]
  simp [Record.required, Record.withDefault, hget, lookupMember_cons, Json.string?, Json.bool?]

theorem ActionDefinition.ofJson?_toJson (definition : ActionDefinition) :
    ActionDefinition.ofJson? definition.toJson = some definition := by
  have hkeys : (([("fields", Json.arr (definition.fields.map ActionField.toJson))] ++
      presentMember "category" Json.str definition.category).map (·.1)).Sublist keys := by
    rw [List.map_append]
    exact (List.Sublist.refl ["fields"]).append (keys_presentMember_sublist _ _ _)
  obtain ⟨r, hr, hget⟩ :=
    Record.exists_ofJson?_eq_some (show definition.toJson = .obj _ from rfl) (by decide) hkeys
  have hfields : r.list "fields" ActionField.ofJson? = some definition.fields :=
    Record.list_of_map (by simp [hget, lookupMember_cons]) fun field _ => field.ofJson?_toJson
  have hcategory : r.optional "category" Json.string? = some definition.category :=
    Record.optional_str (by simp [hget, lookupMember_cons, lookupMember_presentMember])
  rw [ofJson?, hr]
  simp [hfields, hcategory]

/-- The data of a step that comes back from its document. -/
structure StepData.IsStorable (data : StepData) : Prop where
  conditions : ∀ path ∈ data.branches, ∀ c ∈ path.conditions, c.IsStorable
  /-- The editor's own keys are not the named ones. -/
  extra : ∀ m ∈ data.extra.members, m.1 ∉ StepData.keys

/-- The named members of the document of a step's data. -/
def StepData.namedMembers (data : StepData) : List (String × Json) :=
  [("label", .str data.label), ("tempId", .str data.stepId), ("stepName", .str data.stepName),
      ("actionId", .ofString? data.actionId)] ++
    presentMember "actionDefinition" ActionDefinition.toJson data.definition ++
    (if data.config.isEmpty then [] else [("config", .obj data.config.jsonMembers)]) ++
    (if data.branches.isEmpty then []
      else [("branches", .arr (data.branches.map BranchPath.toJson))])

theorem StepData.keys_namedMembers_sublist (data : StepData) :
    (data.namedMembers.map (·.1)).Sublist keys := by
  have hconfig : ((if data.config.isEmpty then []
      else [("config", Json.obj data.config.jsonMembers)]).map (·.1)).Sublist ["config"] := by
    split <;> simp
  have hbranches : ((if data.branches.isEmpty then []
      else [("branches", Json.arr (data.branches.map BranchPath.toJson))]).map (·.1)).Sublist
        ["branches"] := by
    split <;> simp
  unfold namedMembers
  rw [List.map_append, List.map_append, List.map_append]
  exact (((List.Sublist.refl ["label", "tempId", "stepName", "actionId"]).append
    (keys_presentMember_sublist _ _ _)).append hconfig).append hbranches

theorem Fields.eq_empty_of_isEmpty {f : Fields} (h : f.isEmpty = true) : f = .empty :=
  Fields.ext (List.isEmpty_iff.1 h)

/-- An entry of the document of a step's data that is left out when it is empty. -/
theorem lookupMember_unless {β : Type} (key k : String) (isEmpty : Bool) (value : β) :
    lookupMember key (if isEmpty then [] else [(k, value)]) =
      if k = key ∧ isEmpty = false then some value else none := by
  cases isEmpty <;> simp [lookupMember_cons]

theorem StepData.ofJson?_toJson {data : StepData} (h : data.IsStorable) :
    StepData.ofJson? data.toJson = some data := by
  have hothers : ∀ m ∈ data.extra.jsonMembers, m.1 ∉ keys := by
    intro m hm
    obtain ⟨own, hown, rfl⟩ := List.mem_map.1 hm
    exact h.extra own hown
  have hnamed : ∀ m ∈ data.namedMembers, m.1 ∈ keys := fun m hm =>
    data.keys_namedMembers_sublist.subset (List.mem_map_of_mem hm)
  have hextra : (data.namedMembers ++ data.extra.jsonMembers).filter
      (fun m => !keys.contains m.1) = data.extra.jsonMembers := by
    rw [List.filter_append, List.filter_eq_nil_iff.2, List.filter_eq_self.2, List.nil_append]
    · simpa using hothers
    · simpa using hnamed
  obtain ⟨r, hr, hget⟩ : ∃ r, Record.ofMembers? keys
      (data.namedMembers ++ data.extra.jsonMembers) = some r ∧
        ∀ key, r.get? key = lookupMember key data.namedMembers :=
    ⟨_, Record.ofMembers?_append (by decide) data.keys_namedMembers_sublist hothers, fun _ => rfl⟩
  simp only [namedMembers, lookupMember_append, lookupMember_cons, lookupMember_presentMember,
    lookupMember_unless] at hget
  have hlabel : r.withDefault "label" "" Json.string? = some data.label := by
    simp [Record.withDefault, hget, Json.string?]
  have hstepId : r.withDefault "tempId" "" Json.string? = some data.stepId := by
    simp [Record.withDefault, hget, Json.string?]
  have hstepName : r.withDefault "stepName" "" Json.string? = some data.stepName := by
    simp [Record.withDefault, hget, Json.string?]
  have hactionId : r.optional "actionId" Json.string? = some data.actionId :=
    Record.optional_ofString? (by simp [hget])
  have hdefinition : r.optional "actionDefinition" ActionDefinition.ofJson? =
      some data.definition :=
    Record.optional_of_map (by simp [hget]) fun definition _ =>
      ⟨by simp [ActionDefinition.toJson], definition.ofJson?_toJson⟩
  have hconfig : r.withDefault "config" .empty Fields.ofJson? = some data.config := by
    cases hempty : data.config.isEmpty with
    | false => simp [Record.withDefault, hget, hempty, Fields.ofJson?]
    | true =>
      simpa [Record.withDefault, hget, hempty] using (Fields.eq_empty_of_isEmpty hempty).symm
  have hbranches : r.list "branches" BranchPath.ofJson? = some data.branches := by
    cases hempty : data.branches.isEmpty with
    | false =>
      exact Record.list_of_map (by simp [hget, hempty]) fun path hpath =>
        BranchPath.ofJson?_toJson (h.conditions path hpath)
    | true =>
      simpa [Record.list, Record.withDefault, hget, hempty] using (List.isEmpty_iff.1 hempty).symm
  show ofJson? (.obj (data.namedMembers ++ data.extra.jsonMembers)) = some data
  simp only [ofJson?, hr, hlabel, hstepId, hstepName, hactionId, hdefinition, hconfig, hbranches,
    hextra, Fields.ofMembers?_jsonMembers, Option.bind_eq_bind, Option.bind_some]

/-! The place of a node is read back when its coordinates are numbers at all. -/

/-- Both coordinates are finite. -/
def Point.IsFinite (p : Point Float) : Prop :=
  Numeral.isFinite p.x = true ∧ Numeral.isFinite p.y = true

instance (p : Point Float) : Decidable p.IsFinite := inferInstanceAs (Decidable (_ ∧ _))

theorem Json.float?_ofFloat {value : Float} (h : Numeral.isFinite value = true) :
    (Json.ofFloat value).float? = some value := by
  rw [ofFloat, if_pos h]
  rfl

theorem Point.ofJson?_toJson {p : Point Float} (h : p.IsFinite) :
    Point.ofJson? p.toJson = some p := by
  obtain ⟨r, hr, hget⟩ := Record.exists_ofJson?_eq_some (show p.toJson = .obj _ from rfl)
    (by decide) (List.Sublist.refl ["x", "y"])
  rw [ofJson?, hr]
  simp [Record.required, hget, lookupMember_cons, Json.float?_ofFloat h.1, Json.float?_ofFloat h.2]

theorem Node.ofJson?_toJson {node : Node Float} (hplace : node.position.IsFinite)
    (hdata : node.data.IsStorable) : Node.ofJson? node.toJson = some node := by
  obtain ⟨r, hr, hget⟩ := Record.exists_ofJson?_eq_some (show node.toJson = .obj _ from rfl)
    (by decide) (List.Sublist.refl keys)
  rw [ofJson?, hr]
  simp [Record.required, Record.withDefault, hget, lookupMember_cons, Json.string?,
    Point.ofJson?_toJson hplace, StepData.ofJson?_toJson hdata]

theorem Edge.ofJson?_toJson (edge : Edge) : Edge.ofJson? edge.toJson = some edge := by
  have hkeys : (([("id", Json.str edge.id), ("source", .str edge.source),
      ("target", .str edge.target)] ++ presentMember "sourceHandle" Json.str edge.sourceHandle ++
        presentMember "targetHandle" Json.str edge.targetHandle).map (·.1)).Sublist keys := by
    rw [List.map_append, List.map_append]
    exact ((List.Sublist.refl ["id", "source", "target"]).append
      (keys_presentMember_sublist _ _ _)).append (keys_presentMember_sublist _ _ _)
  obtain ⟨r, hr, hget⟩ :=
    Record.exists_ofJson?_eq_some (show edge.toJson = .obj _ from rfl) (by decide) hkeys
  simp only [lookupMember_append, lookupMember_cons, lookupMember_presentMember] at hget
  have hsourceHandle : r.optional "sourceHandle" Json.string? = some edge.sourceHandle :=
    Record.optional_str (by simp [hget])
  have htargetHandle : r.optional "targetHandle" Json.string? = some edge.targetHandle :=
    Record.optional_str (by simp [hget])
  rw [ofJson?, hr]
  simp [Record.required, Record.withDefault, hget, Json.string?, hsourceHandle, htargetHandle]

namespace Graph

/-- A graph that comes back from its document, as far as coordinates are not concerned. -/
def IsStorable (g : Graph Float) : Prop := ∀ node ∈ g.nodes, node.data.IsStorable

/-- All coordinates are finite. -/
def HasFinitePlaces (g : Graph Float) : Prop := ∀ node ∈ g.nodes, node.position.IsFinite

instance (g : Graph Float) : Decidable g.HasFinitePlaces :=
  inferInstanceAs (Decidable (∀ node ∈ g.nodes, node.position.IsFinite))

theorem ofJson?_toJson {g : Graph Float} (hplaces : g.HasFinitePlaces) (h : g.IsStorable) :
    ofJson? g.toJson = some g := by
  obtain ⟨r, hr, hget⟩ := Record.exists_ofJson?_eq_some (show g.toJson = .obj _ from rfl)
    (by decide) (List.Sublist.refl ["nodes", "edges"])
  have hnodes : r.list "nodes" Node.ofJson? = some g.nodes :=
    Record.list_of_map (by simp [hget, lookupMember_cons]) fun node hnode =>
      Node.ofJson?_toJson (hplaces node hnode) (h node hnode)
  have hedges : r.list "edges" Edge.ofJson? = some g.edges :=
    Record.list_of_map (by simp [hget, lookupMember_cons]) fun edge _ => edge.ofJson?_toJson
  rw [ofJson?, hr]
  simp [hnodes, hedges]

end Graph

end StepGraph
