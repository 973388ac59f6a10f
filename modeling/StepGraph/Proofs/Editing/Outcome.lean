import Mathlib.Data.List.Forall2
import StepGraph.Editing.Session

/-!
# What an edit does

`Graph.Edited` lists, edit by edit, what a graph becomes when the edit succeeds, with all that the
edit checks before.  Facts about edits are proved by cases on it, and facts about sessions by
`run_induction`.

There are five groups.

* Outcomes of computations.
* Lists of which one item is changed.
* Changing a node, and adding one at the end.
* Edits.  `edited_of_perform_eq_ok` says that a successful edit is one of those listed.
* Sessions.  `Graph.runsWith` says that every edit of a session is allowed in the graph it is
  carried out on.
-/

namespace StepGraph

open Layout (snap freePlace defaultPlace units)

variable {α : Type}

/-! ## Outcomes of computations -/

theorem bind_eq_ok {ε β γ : Type} {x : Except ε β} {f : β → Except ε γ} {c : γ} :
    (x >>= f) = .ok c ↔ ∃ b, x = .ok b ∧ f b = .ok c := by
  constructor
  · intro h
    cases x with
    | error e => cases h
    | ok b => exact ⟨b, rfl, h⟩
  · intro h
    obtain ⟨b, rfl, hb⟩ := h
    exact hb

/-! ## Lists of which one item is changed -/

/-- The first item with a property is changed where it stands. -/
theorem updateFirst_append {β : Type} {p : β → Bool} (f : β → β) {before : List β}
    (hbefore : ∀ b ∈ before, p b = false) {b : β} (hb : p b = true) (after : List β) :
    updateFirst p f (before ++ b :: after) = before ++ f b :: after := by
  induction before with
  | nil => rw [List.nil_append, updateFirst, if_pos hb, List.nil_append]
  | cons first rest ih =>
    have hfirst : ¬p first = true := by simp [hbefore first List.mem_cons_self]
    rw [List.cons_append, updateFirst, if_neg hfirst,
      ih fun c hc => hbefore c (List.mem_cons_of_mem _ hc), List.cons_append]

/-- Each item is related to what stands in its place afterwards. -/
theorem forall₂_updateFirst {β : Type} {r : β → β → Prop} {p : β → Bool} {f : β → β}
    (hrefl : ∀ b, r b b) (hf : ∀ b, p b = true → r b (f b)) (items : List β) :
    List.Forall₂ r items (updateFirst p f items) := by
  induction items with
  | nil => exact .nil
  | cons b rest ih =>
    rw [updateFirst]
    split
    · rename_i hb
      exact .cons (hf b hb) (List.forall₂_same.2 fun b _ => hrefl b)
    · exact .cons (hrefl b) ih

/-- An item that is changed into itself leaves the list as it is. -/
theorem updateFirst_eq_self {β : Type} {p : β → Bool} {f : β → β} {items : List β}
    (h : ∀ b, items.find? p = some b → f b = b) : updateFirst p f items = items := by
  induction items with
  | nil => rfl
  | cons b rest ih =>
    rw [updateFirst]
    split
    · rename_i hb
      rw [h b (List.find?_cons_of_pos hb)]
    · rename_i hb
      rw [ih fun c hc => h c ((List.find?_cons_of_neg hb).trans hc)]

section UpdateFirst

variable {β : Type} {p : β → Bool} {f : β → β} (hp : ∀ b, p (f b) = p b)

include hp

/-- The item that is found is the one that was changed. -/
theorem find?_updateFirst (items : List β) :
    (updateFirst p f items).find? p = (items.find? p).map f := by
  induction items with
  | nil => rfl
  | cons b rest ih => cases hb : p b <;> simp [updateFirst, hb, hp, ih]

/-- Two changes change the same item. -/
theorem updateFirst_updateFirst (f' : β → β) (items : List β) :
    updateFirst p f' (updateFirst p f items) = updateFirst p (fun b => f' (f b)) items := by
  induction items with
  | nil => rfl
  | cons b rest ih => cases hb : p b <;> simp [updateFirst, hb, hp, ih]

end UpdateFirst

/-! ## Changing a node, and adding one -/

namespace Graph

theorem updateNode_eq_self {g : Graph α} {id : String} {f : Node α → Node α}
    (h : ∀ node, g.node? id = some node → f node = node) : g.updateNode id f = g := by
  rw [updateNode, updateFirst_eq_self h]

section UpdateNode

variable {f : Node α → Node α} (hid : ∀ node, (f node).id = node.id)

include hid

theorem node?_updateNode (g : Graph α) (id : String) :
    (g.updateNode id f).node? id = (g.node? id).map f :=
  find?_updateFirst (fun node => by rw [hid]) g.nodes

/-- Two changes change the same node. -/
theorem updateNode_updateNode (f' : Node α → Node α) (g : Graph α) (id : String) :
    (g.updateNode id f).updateNode id f' = g.updateNode id fun node => f' (f node) :=
  congrArg (Graph.mk · g.edges) (updateFirst_updateFirst (fun node => by rw [hid]) f' g.nodes)

end UpdateNode

section Pushed

variable {g : Graph α} {node : Node α}

/-- Ids that were found are still found. -/
theorem node?_pushNode_of_eq_some {id : String} {found : Node α} (h : g.node? id = some found)
    (node : Node α) : (g.pushNode node).node? id = some found := by
  rw [node?] at h
  rw [node?, pushNode, List.find?_append, h]
  rfl

variable (hfresh : g.hasNode node.id = false)

include hfresh

theorem id_beq_of_hasNode : ∀ other ∈ g.nodes, (other.id == node.id) = false := by
  simpa [hasNode] using hfresh

theorem node?_pushNode_self : (g.pushNode node).node? node.id = some node := by
  have hnone : g.nodes.find? (·.id == node.id) = none := by
    rw [List.find?_eq_none]
    intro other hother
    simp [id_beq_of_hasNode hfresh other hother]
  simp [node?, pushNode, List.find?_append, hnone]

theorem updateNode_pushNode (f : Node α → Node α) :
    (g.pushNode node).updateNode node.id f = g.pushNode (f node) := by
  rw [updateNode, pushNode, updateFirst_append f (id_beq_of_hasNode hfresh) (by simp)]
  rfl

end Pushed

/-! ## Edits -/

theorem getNode_eq_ok {g : Graph α} {id : String} {node : Node α} :
    g.getNode id = .ok node ↔ g.node? id = some node := by
  rw [getNode]
  split
  · rename_i found h
    simp [h]
  · rename_i h
    simp [h]

theorem getNodeOfKind_eq_ok {g : Graph α} {id : String} {kind : NodeKind} {node : Node α} :
    g.getNodeOfKind id kind = .ok node ↔ g.node? id = some node ∧ node.kind = kind := by
  rw [getNodeOfKind, bind_eq_ok]
  simp only [getNode_eq_ok]
  constructor
  · intro h
    obtain ⟨found, hfound, h⟩ := h
    split at h
    · rename_i hkind
      cases h
      exact ⟨hfound, hkind⟩
    · cases h
  · intro h
    obtain ⟨hnode, hkind⟩ := h
    exact ⟨node, hnode, if_pos hkind⟩

/-- The node that an id finds is changed where it stands. -/
theorem exists_nodes_updateNode {g : Graph α} {id : String} {node : Node α}
    (h : g.node? id = some node) (f : Node α → Node α) :
    ∃ before after, g.nodes = before ++ node :: after ∧ node.id = id ∧
      (∀ other ∈ before, other.id ≠ id) ∧
        (g.updateNode id f).nodes = before ++ f node :: after := by
  obtain ⟨hid, before, after, hnodes, hbefore⟩ := List.find?_eq_some_iff_append.1 h
  have hbefore : ∀ other ∈ before, (other.id == id) = false := by simpa using hbefore
  refine ⟨before, after, hnodes, by simpa using hid, by simpa using hbefore, ?_⟩
  rw [updateNode, hnodes]
  exact updateFirst_append f hbefore hid after

variable [Coordinate α]

/-- What a graph becomes by an edit that succeeds. -/
inductive Edited (g : Graph α) : Edit α → Graph α → Prop
  | addNode (newId newStepId : String) (kind : NodeKind) (position : Point α) :
    Edited g (.addNode newId newStepId kind position)
      (g.pushNode (.fresh newId newStepId kind (snap position)))
  | addNodeAtDefault (newId newStepId : String) (kind : NodeKind) (viewCentre : Option (Point α)) :
    Edited g (.addNodeAtDefault newId newStepId kind viewCentre)
      (g.pushNode (.fresh newId newStepId kind (defaultPlace g.positions viewCentre)))
  | duplicateNode (newId newStepId id : String) (node : Node α) (hnode : g.node? id = some node) :
    Edited g (.duplicateNode newId newStepId id)
      (g.pushNode (copyOf node newId newStepId (freePlace g.positions .diagonal
        (node.position.offset (units duplicateOffset) (units duplicateOffset)))))
  | removeNode (id : String) (node : Node α) (hnode : g.node? id = some node) :
    Edited g (.removeNode id) {
      nodes := (g.nodes.eraseP (·.id == id)).map fun other =>
        other.updateBranches (·.map (forgetTarget node.data.stepId))
      edges := g.edges.filter fun edge => !edge.touches id }
  | moveNode (id : String) (position : Point α) (node : Node α) (hnode : g.node? id = some node) :
    Edited g (.moveNode id position)
      (g.updateNode id fun node => { node with position := snap position })
  | connect (newId source target : String) (handle : Option String)
    (sourceNode targetNode : Node α) (hsource : g.node? source = some sourceNode)
    (htarget : g.node? target = some targetNode) (hne : source ≠ target)
    (hnew : ∀ other ∈ g.edges, sameConnection ⟨newId, source, target, handle, none⟩ other = false)
    (hrange : ∀ index, pathTaken? sourceNode handle = some index →
      index < sourceNode.data.branches.length) :
    Edited g (.connect newId source target handle)
      { nodes := (g.noteTarget source (pathTaken? sourceNode handle)
          (some targetNode.data.stepId)).nodes
        edges := edgesBeside ⟨newId, source, target, handle, none⟩
          (pathTaken? sourceNode handle).isSome g.edges ++ [⟨newId, source, target, handle, none⟩] }
  | disconnect (id : String) (edge : Edge) (hedge : g.edge? id = some edge) :
    Edited g (.disconnect id)
      { nodes := (g.noteTarget edge.source edge.branchIndex? none).nodes
        edges := g.edges.eraseP (·.id == id) }
  | setAction (id actionId : String) (definition : Option ActionDefinition) (node : Node α)
    (hnode : g.node? id = some node) (hkind : node.kind = .action) :
    Edited g (.setAction id actionId definition) (g.updateNode id (·.updateData fun data =>
      { data with actionId := some actionId, definition := definition, config := .empty }))
  | setConfigValue (id key : String) (value : Value) (node : Node α)
    (hnode : g.node? id = some node) (hkind : node.kind = .action) :
    Edited g (.setConfigValue id key value) (g.updateNode id (·.updateData fun data =>
      { data with config := data.config.insert key value }))
  | addBranchPath (id name : String) (node : Node α) (hnode : g.node? id = some node)
    (hkind : node.kind = .branch) :
    Edited g (.addBranchPath id name) (g.updateNode id (·.updateBranches (· ++ [.ofName name])))
  | removeBranchPath (id : String) (index : Nat) (node : Node α)
    (hnode : g.node? id = some node) (hkind : node.kind = .branch)
    (hleast : leastPaths < node.data.branches.length)
    (hrange : index < node.data.branches.length) :
    Edited g (.removeBranchPath id index)
      { nodes := (g.updateNode id (·.updateBranches (·.eraseIdx index))).nodes
        edges := edgesWithoutPath id index g.edges }
  | arrange : Edited g .arrange g.arrange

/-- A connection that succeeds passed every check. -/
theorem edited_of_connect_eq_ok {g g' : Graph α} {newId source target : String}
    {handle : Option String} {edge : Edge}
    (h : g.connect newId source target handle = .ok (edge, g')) :
    g.Edited (.connect newId source target handle) g' := by
  rw [connect, bind_eq_ok] at h
  obtain ⟨sourceNode, hsource, h⟩ := h
  rw [bind_eq_ok] at h
  obtain ⟨targetNode, htarget, h⟩ := h
  rw [getNode_eq_ok] at hsource htarget
  simp only [bind, Except.bind] at h
  split at h
  · cases h
  rename_i hne
  split at h
  · cases h
  rename_i hnew
  have hnew : ∀ other ∈ g.edges,
      sameConnection ⟨newId, source, target, handle, none⟩ other = false := by
    simpa using hnew
  split at h
  · rename_i index hpath
    split at h
    · cases h
    · rename_i hrange
      cases h
      refine .connect newId source target handle _ _ hsource htarget hne hnew fun i hi => ?_
      rw [hpath] at hi
      cases hi
      exact Nat.lt_of_not_le hrange
  · rename_i hpath
    cases h
    refine .connect newId source target handle _ _ hsource htarget hne hnew fun i hi => ?_
    rw [hpath] at hi
    cases hi

omit [Coordinate α] in
/-- A connection that passes every check succeeds. -/
theorem connect_eq_ok {g : Graph α} {newId source target : String} {handle : Option String}
    {sourceNode targetNode : Node α} (hsource : g.node? source = some sourceNode)
    (htarget : g.node? target = some targetNode) (hne : source ≠ target)
    (hnew : ∀ other ∈ g.edges, sameConnection ⟨newId, source, target, handle, none⟩ other = false)
    (hrange : ∀ index, pathTaken? sourceNode handle = some index →
      index < sourceNode.data.branches.length) :
    g.connect newId source target handle =
      .ok (⟨newId, source, target, handle, none⟩,
        { g.noteTarget source (pathTaken? sourceNode handle)
            (some targetNode.data.stepId) with
          edges := edgesBeside ⟨newId, source, target, handle, none⟩
            (pathTaken? sourceNode handle).isSome g.edges ++
              [⟨newId, source, target, handle, none⟩] }) := by
  have hnone : g.edges.any (sameConnection ⟨newId, source, target, handle, none⟩) = false := by
    simpa using hnew
  rw [connect, getNode_eq_ok.2 hsource, getNode_eq_ok.2 htarget]
  simp only [bind, Except.bind, if_neg hne, hnone]
  cases hpath : pathTaken? sourceNode handle with
  | none => rfl
  | some index =>
    have hlt := hrange index hpath
    simp only [if_neg (Nat.not_le.2 hlt)]
    rfl

theorem edited_of_disconnect_eq_ok {g g' : Graph α} {id : String} {edge : Edge}
    (h : g.disconnect id = .ok (edge, g')) : g.Edited (.disconnect id) g' := by
  rw [disconnect] at h
  split at h
  · cases h
  · rename_i found hfound
    cases h
    exact .disconnect id _ hfound

theorem edited_of_removeBranchPath_eq_ok {g g' : Graph α} {id : String} {index : Nat}
    {path : BranchPath} (h : g.removeBranchPath id index = .ok (path, g')) :
    g.Edited (.removeBranchPath id index) g' := by
  rw [removeBranchPath, bind_eq_ok] at h
  obtain ⟨node, hnode, h⟩ := h
  obtain ⟨hnode, hkind⟩ := getNodeOfKind_eq_ok.1 hnode
  simp only [bind, Except.bind] at h
  split at h
  · cases h
  rename_i hleast
  split at h
  · cases h
  · rename_i found hfound
    cases h
    exact .removeBranchPath id index node hnode hkind (Nat.lt_of_not_le hleast)
      (List.getElem?_eq_some_iff.1 hfound).1

/-- A successful edit is one of those listed. -/
theorem edited_of_perform_eq_ok {g g' : Graph α} {edit : Edit α} {result : EditResult α}
    (h : g.perform edit = .ok (result, g')) : g.Edited edit g' := by
  cases edit with
  | addNode newId newStepId kind position =>
    cases h
    exact .addNode newId newStepId kind position
  | addNodeAtDefault newId newStepId kind viewCentre =>
    cases h
    exact .addNodeAtDefault newId newStepId kind viewCentre
  | duplicateNode newId newStepId id =>
    obtain ⟨⟨_, _⟩, h, hresult⟩ := bind_eq_ok.1 h
    obtain ⟨node, hnode, h⟩ := bind_eq_ok.1 h
    cases hresult
    cases h
    exact .duplicateNode newId newStepId id node (getNode_eq_ok.1 hnode)
  | removeNode id =>
    obtain ⟨⟨_, _⟩, h, hresult⟩ := bind_eq_ok.1 h
    obtain ⟨node, hnode, h⟩ := bind_eq_ok.1 h
    cases hresult
    cases h
    exact .removeNode id _ (getNode_eq_ok.1 hnode)
  | moveNode id position =>
    obtain ⟨_, h, hresult⟩ := bind_eq_ok.1 h
    obtain ⟨node, hnode, h⟩ := bind_eq_ok.1 h
    cases hresult
    cases h
    exact .moveNode id position node (getNode_eq_ok.1 hnode)
  | connect newId source target handle =>
    obtain ⟨⟨_, _⟩, h, hresult⟩ := bind_eq_ok.1 h
    cases hresult
    exact edited_of_connect_eq_ok h
  | disconnect id =>
    obtain ⟨⟨_, _⟩, h, hresult⟩ := bind_eq_ok.1 h
    cases hresult
    exact edited_of_disconnect_eq_ok h
  | setAction id actionId definition =>
    obtain ⟨_, h, hresult⟩ := bind_eq_ok.1 h
    obtain ⟨node, hnode, h⟩ := bind_eq_ok.1 h
    obtain ⟨hnode, hkind⟩ := getNodeOfKind_eq_ok.1 hnode
    cases hresult
    cases h
    exact .setAction id actionId definition node hnode hkind
  | setConfigValue id key value =>
    obtain ⟨_, h, hresult⟩ := bind_eq_ok.1 h
    obtain ⟨node, hnode, h⟩ := bind_eq_ok.1 h
    obtain ⟨hnode, hkind⟩ := getNodeOfKind_eq_ok.1 hnode
    cases hresult
    cases h
    exact .setConfigValue id key value node hnode hkind
  | addBranchPath id name =>
    obtain ⟨⟨_, _⟩, h, hresult⟩ := bind_eq_ok.1 h
    obtain ⟨node, hnode, h⟩ := bind_eq_ok.1 h
    obtain ⟨hnode, hkind⟩ := getNodeOfKind_eq_ok.1 hnode
    cases hresult
    cases h
    exact .addBranchPath id name node hnode hkind
  | removeBranchPath id index =>
    obtain ⟨⟨_, _⟩, h, hresult⟩ := bind_eq_ok.1 h
    cases hresult
    exact edited_of_removeBranchPath_eq_ok h
  | arrange =>
    cases h
    exact .arrange

/-- An edit that fails changes nothing. -/
theorem apply_eq_or_edited (g : Graph α) (edit : Edit α) :
    g.apply edit = g ∨ g.Edited edit (g.apply edit) := by
  unfold apply
  cases h : g.perform edit with
  | error e => exact Or.inl rfl
  | ok outcome => exact Or.inr (edited_of_perform_eq_ok h)

/-! ## Sessions -/

/-- Whether every edit of a session is allowed in the graph it is carried out on. -/
def runsWith (allowed : Graph α → Edit α → Bool) (g : Graph α) : List (Edit α) → Bool
  | [] => true
  | edit :: rest => allowed g edit && runsWith allowed (g.apply edit) rest

/-- What every allowed edit keeps, a session of allowed edits keeps. -/
theorem run_induction {allowed : Graph α → Edit α → Bool} {p : Graph α → Prop}
    (hstep : ∀ g edit, allowed g edit = true → p g → p (g.apply edit)) {g : Graph α}
    {edits : List (Edit α)} (hrun : runsWith allowed g edits = true) (h : p g) :
    p (g.run edits) := by
  induction edits generalizing g with
  | nil => exact h
  | cons edit rest ih =>
    obtain ⟨hedit, hrest⟩ := Bool.and_eq_true_iff.1 hrun
    exact ih hrest (hstep g edit hedit h)

end Graph

end StepGraph
