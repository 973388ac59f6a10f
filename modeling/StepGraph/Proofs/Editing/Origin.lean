import StepGraph.Proofs.Editing.Route

/-!
# Where nodes and edges come from

After an edit, a node is a fresh one or was made of a node that was there, and an edge is the new
one or has the id and the ends of an edge that was there.  What a session keeps of single nodes, and
of the ends of edges, follows from these two facts without a look at the lists of the graph.

There are two groups.

* Nodes.  `Node.Becomes` lists what an edit may make of a node, and `Edited.mem_nodes_cases` says
  that this is all that happens to nodes.
* Edges.  `Rerouted.links_sublist` says that no edit but a connection adds an id or ends, and
  `Rerouted.mem_edges_cases` says so of a single edge.
-/

namespace StepGraph

variable {α : Type}

/-! ## Nodes -/

/-- What an edit makes of a node that is there. -/
inductive Node.Becomes : Edit α → Node α → Node α → Prop
  | same (edit : Edit α) (node : Node α) : Becomes edit node node
  | placed (edit : Edit α) (node : Node α) (position : Point α) :
    Becomes edit node { node with position := position }
  | copied (newId newStepId id : String) (node : Node α) (position : Point α) :
    Becomes (.duplicateNode newId newStepId id) node (Graph.copyOf node newId newStepId position)
  | forgot (edit : Edit α) (node : Node α) (stepId : String) :
    Becomes edit node (node.updateBranches (·.map (Graph.forgetTarget stepId)))
  | noted (edit : Edit α) (node : Node α) (index : Nat) (target : Option String) :
    Becomes edit node (Graph.setPathTarget index target node)
  | acting (id actionId : String) (definition : Option ActionDefinition) (node : Node α)
    (hkind : node.kind = .action) :
    Becomes (.setAction id actionId definition) node (node.updateData fun data =>
      { data with actionId := some actionId, definition := definition, config := .empty })
  | configured (id key : String) (value : Value) (node : Node α) (hkind : node.kind = .action) :
    Becomes (.setConfigValue id key value) node (node.updateData fun data =>
      { data with config := data.config.insert key value })
  | extended (id name : String) (node : Node α) (hkind : node.kind = .branch) :
    Becomes (.addBranchPath id name) node (node.updateBranches (· ++ [.ofName name]))
  | shortened (id : String) (index : Nat) (node : Node α) (hkind : node.kind = .branch)
    (hleast : Graph.leastPaths < node.data.branches.length)
    (hrange : index < node.data.branches.length) :
    Becomes (.removeBranchPath id index) node (node.updateBranches (·.eraseIdx index))

/-- The kind of the fresh node that an edit adds. -/
def Edit.newKind? : Edit α → Option NodeKind
  | .addNode _ _ kind _ | .addNodeAtDefault _ _ kind _ => some kind
  | _ => none

/-- An item of a list whose first item with a property is changed is the changed one, or was there
before. -/
theorem mem_updateFirst {β : Type} {p : β → Bool} {f : β → β} {items : List β} {b : β}
    (h : b ∈ updateFirst p f items) : b ∈ items ∨ ∃ a, items.find? p = some a ∧ b = f a := by
  induction items with
  | nil => cases h
  | cons first rest ih =>
    rw [updateFirst] at h
    split at h
    · rename_i hfirst
      rcases List.mem_cons.1 h with rfl | h
      · exact Or.inr ⟨first, List.find?_cons_of_pos hfirst, rfl⟩
      · exact Or.inl (List.mem_cons_of_mem _ h)
    · rename_i hfirst
      rcases List.mem_cons.1 h with rfl | h
      · exact Or.inl List.mem_cons_self
      · rw [List.find?_cons_of_neg hfirst]
        exact (ih h).imp_left (List.mem_cons_of_mem _)

namespace Graph

section Origin

variable {g g' : Graph α} {edit : Edit α} {node : Node α}

/-- A node of a graph in which a node is changed. -/
theorem exists_becomes_of_mem_updateNode {id : String} {f : Node α → Node α}
    (hf : ∀ old, g.node? id = some old → old.Becomes edit (f old))
    (h : node ∈ (g.updateNode id f).nodes) : ∃ old ∈ g.nodes, old.Becomes edit node := by
  rcases mem_updateFirst h with h | ⟨old, hold, rfl⟩
  · exact ⟨node, h, .same edit node⟩
  · exact ⟨old, (mem_and_id_eq_of_node? hold).1, hf old hold⟩

theorem exists_becomes_of_mem_noteTarget {id : String} {path? : Option Nat}
    {target : Option String} (h : node ∈ (g.noteTarget id path? target).nodes) :
    ∃ old ∈ g.nodes, old.Becomes edit node := by
  rw [noteTarget.eq_def] at h
  split at h
  · exact exists_becomes_of_mem_updateNode (fun old _ => .noted edit old _ target) h
  · exact ⟨node, h, .same edit node⟩

variable [Coordinate α]

theorem exists_becomes_of_mem_arrange (h : node ∈ g.arrange.nodes) :
    ∃ old ∈ g.nodes, old.Becomes edit node := by
  obtain ⟨⟨old, slot⟩, hold, rfl⟩ := List.mem_map.1 h
  exact ⟨old, List.fst_mem_of_mem_zipIdx hold, .placed edit old _⟩

/-- After an edit, a node is fresh or was made of a node that was there. -/
theorem Edited.mem_nodes_cases (h : g.Edited edit g') (hnode : node ∈ g'.nodes) :
    (∃ id stepId kind position, edit.newKind? = some kind ∧
        node = .fresh id stepId kind position) ∨
      ∃ old ∈ g.nodes, old.Becomes edit node := by
  cases h with
  | addNode newId newStepId kind position =>
    rcases List.mem_append.1 hnode with hnode | hnode
    · exact Or.inr ⟨node, hnode, .same _ node⟩
    · exact Or.inl ⟨newId, newStepId, kind, _, rfl, List.mem_singleton.1 hnode⟩
  | addNodeAtDefault newId newStepId kind viewCentre =>
    rcases List.mem_append.1 hnode with hnode | hnode
    · exact Or.inr ⟨node, hnode, .same _ node⟩
    · exact Or.inl ⟨newId, newStepId, kind, _, rfl, List.mem_singleton.1 hnode⟩
  | duplicateNode newId newStepId id original horiginal =>
    rcases List.mem_append.1 hnode with hnode | hnode
    · exact Or.inr ⟨node, hnode, .same _ node⟩
    · rw [List.mem_singleton.1 hnode]
      exact Or.inr ⟨original, (mem_and_id_eq_of_node? horiginal).1, .copied _ _ _ original _⟩
  | removeNode id removed hremoved =>
    obtain ⟨old, hold, rfl⟩ := List.mem_map.1 hnode
    exact Or.inr ⟨old, List.mem_of_mem_eraseP hold, .forgot _ old _⟩
  | moveNode id position moved hmoved =>
    exact Or.inr (exists_becomes_of_mem_updateNode (fun old _ => .placed _ old _) hnode)
  | connect newId source target handle sourceNode targetNode hsource htarget hne hnew hrange =>
    exact Or.inr (exists_becomes_of_mem_noteTarget hnode)
  | disconnect id edge hedge => exact Or.inr (exists_becomes_of_mem_noteTarget hnode)
  | setAction id actionId definition changed hchanged hkind =>
    refine Or.inr (exists_becomes_of_mem_updateNode (fun old hold => ?_) hnode)
    rw [hchanged] at hold
    cases hold
    exact .acting id actionId definition changed hkind
  | setConfigValue id key value changed hchanged hkind =>
    refine Or.inr (exists_becomes_of_mem_updateNode (fun old hold => ?_) hnode)
    rw [hchanged] at hold
    cases hold
    exact .configured id key value changed hkind
  | addBranchPath id name changed hchanged hkind =>
    refine Or.inr (exists_becomes_of_mem_updateNode (fun old hold => ?_) hnode)
    rw [hchanged] at hold
    cases hold
    exact .extended id name changed hkind
  | removeBranchPath id index changed hchanged hkind hleast hrange =>
    refine Or.inr (exists_becomes_of_mem_updateNode (fun old hold => ?_) hnode)
    rw [hchanged] at hold
    cases hold
    exact .shortened id index changed hkind hleast hrange
  | arrange => exact Or.inr (exists_becomes_of_mem_arrange hnode)

end Origin

end Graph

/-! ## Edges -/

/-- What no edit of an edge changes. -/
structure Link where
  id : String
  source : String
  target : String
deriving DecidableEq

/-- The link that an edge makes, whatever its handles. -/
def Edge.link (edge : Edge) : Link := ⟨edge.id, edge.source, edge.target⟩

/-- The link that an edit adds. -/
def Edit.newLink? : Edit α → Option Link
  | .connect newId source target _ => some ⟨newId, source, target⟩
  | _ => none

namespace Graph

/-- The links of the edges. -/
def links (g : Graph α) : List Link := g.edges.map (·.link)

theorem link_renumberHandle (index : Nat) (edge : Edge) :
    (renumberHandle index edge).link = edge.link := by
  rw [renumberHandle.eq_def]
  split
  · split <;> rfl
  · rfl

/-- Removing a path removes links and changes none. -/
theorem links_edgesWithoutPath_sublist (id : String) (index : Nat) (edges : List Edge) :
    ((edgesWithoutPath id index edges).map (·.link)).Sublist (edges.map (·.link)) := by
  have hlink := comp_renumberHandle Edge.link index (link_renumberHandle index) id
  unfold edgesWithoutPath
  rw [List.map_map, hlink]
  exact List.filter_sublist.map _

/-- No edit adds a link but that of its new edge. -/
theorem Rerouted.links_sublist {g g' : Graph α} {edit : Edit α} (h : g.Rerouted edit g') :
    g'.links.Sublist (g.links ++ edit.newLink?.toList) := by
  cases h with
  | push _ node hnew htargets => exact List.sublist_append_left _ _
  | keep _ _ hedges hroutes =>
    unfold links
    rw [hedges]
    exact List.sublist_append_left _ _
  | remove id node hnode =>
    exact (List.filter_sublist.map _).trans (List.sublist_append_left _ _)
  | connect newId source target handle sourceNode targetNode hsource htarget hnew hrange =>
    have hbeside := (sublist_edgesBeside ⟨newId, source, target, handle, none⟩
      (pathTaken? sourceNode handle).isSome g.edges).map (·.link)
    unfold links
    rw [List.map_append]
    exact hbeside.append (List.Sublist.refl _)
  | disconnect id edge hedge =>
    exact (List.eraseP_sublist.map _).trans (List.sublist_append_left _ _)
  | addPath id name => exact List.sublist_append_left _ _
  | removePath id index node hnode hkind hrange =>
    exact (links_edgesWithoutPath_sublist id index g.edges).trans (List.sublist_append_left _ _)

/-- After an edit, an edge has the ends of one that was there or is the new one. -/
theorem Rerouted.mem_edges_cases {g g' : Graph α} {edit : Edit α} (h : g.Rerouted edit g')
    {edge : Edge} (hedge : edge ∈ g'.edges) :
    (∃ old ∈ g.edges, old.source = edge.source ∧ old.target = edge.target) ∨
      edit.newLink? = some edge.link := by
  have hlink : edge.link ∈ g.links ++ edit.newLink?.toList :=
    h.links_sublist.mem (List.mem_map_of_mem hedge)
  rcases List.mem_append.1 hlink with hlink | hlink
  · obtain ⟨old, hold, hsame⟩ := List.mem_map.1 hlink
    simp only [Edge.link, Link.mk.injEq] at hsame
    exact Or.inl ⟨old, hold, hsame.2⟩
  · exact Or.inr (by simpa using hlink)

end Graph

end StepGraph
