import StepGraph.Proofs.Editing.Route

/-!
# Connecting two nodes

A connection is refused for the first of five reasons, in a fixed order, and is made otherwise.
`Graph.IsRefused` lists the reasons with all that is checked before, `Graph.IsConnectable` says that
none applies, and `Graph.IsConnected` says what a graph becomes, for any list of nodes and edges.

There are three groups.

* What is checked.
* What is changed.
* The outcome, `isConnected_connect`.
-/

namespace StepGraph.Graph

variable {α : Type}

/-! ## What is checked -/

/-- A connection takes a path when its source is a branch node and its handle is read as an index. -/
def TakesPath (g : Graph α) (source : String) (handle : Option String) (index : Nat) : Prop :=
  ∃ node, g.node? source = some node ∧ node.kind = .branch ∧
    ∃ text, handle = some text ∧ Handle.branchIndex? text = some index

/-- A connection takes a path that its source does not have. -/
def TakesNoPathAt (g : Graph α) (source : String) (handle : Option String) (index : Nat) : Prop :=
  g.TakesPath source handle index ∧
    ∃ node, g.node? source = some node ∧ node.data.branches.length ≤ index

/-- An edge joins the same nodes at the same handle. -/
def IsJoined (g : Graph α) (source target : String) (handle : Option String) : Prop :=
  ∃ edge ∈ g.edges, edge.source = source ∧ edge.target = target ∧ edge.sourceHandle = handle

/-- Why a connection is refused.  Each reason comes with all that was checked before it. -/
inductive IsRefused (g : Graph α) (source target : String) (handle : Option String) :
    EditError → Prop
  | source (hsource : g.hasNode source = false) :
    IsRefused g source target handle (.nodeNotFound source)
  | target (hsource : g.hasNode source = true) (htarget : g.hasNode target = false) :
    IsRefused g source target handle (.nodeNotFound target)
  | loop (hsource : g.hasNode source = true) (htarget : g.hasNode target = true)
    (hloop : source = target) : IsRefused g source target handle (.selfLoop source)
  | joined (hsource : g.hasNode source = true) (htarget : g.hasNode target = true)
    (hne : source ≠ target) (hjoined : g.IsJoined source target handle) :
    IsRefused g source target handle (.duplicateEdge source target (handle.getD ""))
  | range (hsource : g.hasNode source = true) (htarget : g.hasNode target = true)
    (hne : source ≠ target) (hnew : ¬g.IsJoined source target handle) (index : Nat)
    (hindex : g.TakesNoPathAt source handle index) :
    IsRefused g source target handle (.pathOutOfRange source index)

/-- A connection for which there is no reason to refuse it. -/
structure IsConnectable (g : Graph α) (source target : String) (handle : Option String) : Prop where
  hasSource : g.hasNode source = true
  hasTarget : g.hasNode target = true
  ne : source ≠ target
  new : ¬g.IsJoined source target handle
  range : ∀ index, ¬g.TakesNoPathAt source handle index

variable {g : Graph α} {source target : String} {handle : Option String}

/-- A connection is refused unless it can be made. -/
theorem isConnectable_or_isRefused (g : Graph α) (source target : String) (handle : Option String) :
    g.IsConnectable source target handle ∨ ∃ e, g.IsRefused source target handle e := by
  cases hsource : g.hasNode source with
  | false => exact Or.inr ⟨_, .source hsource⟩
  | true =>
    cases htarget : g.hasNode target with
    | false => exact Or.inr ⟨_, .target hsource htarget⟩
    | true =>
      by_cases hloop : source = target
      · exact Or.inr ⟨_, .loop hsource htarget hloop⟩
      by_cases hjoined : g.IsJoined source target handle
      · exact Or.inr ⟨_, .joined hsource htarget hloop hjoined⟩
      by_cases hrange : ∃ index, g.TakesNoPathAt source handle index
      · obtain ⟨index, hindex⟩ := hrange
        exact Or.inr ⟨_, .range hsource htarget hloop hjoined index hindex⟩
      · exact Or.inl ⟨hsource, htarget, hloop, hjoined, not_exists.1 hrange⟩

theorem getNode_eq_error {id : String} (h : g.hasNode id = false) :
    g.getNode id = .error (.nodeNotFound id) := by
  have hnone : g.node? id = none := by
    rw [← Option.not_isSome_iff_eq_none, Option.isSome_iff_exists]
    rintro ⟨node, hnode⟩
    rw [hasNode_of_node? hnode] at h
    cases h
  rw [getNode, hnone]

/-- The path taken is the one the source and the handle say. -/
theorem pathTaken?_eq_some_iff_takesPath {node : Node α} (h : g.node? source = some node)
    {index : Nat} :
    pathTaken? node handle = some index ↔ g.TakesPath source handle index := by
  rw [pathTaken?, TakesPath]
  cases hkind : node.kind with
  | action => simp [h, hkind, Node.isBranch]
  | branch => simp [h, hkind, Node.isBranch, Option.bind_eq_some_iff]

theorem takesNoPathAt_iff {node : Node α} (h : g.node? source = some node) {index : Nat} :
    g.TakesNoPathAt source handle index ↔
      pathTaken? node handle = some index ∧ node.data.branches.length ≤ index := by
  rw [TakesNoPathAt, pathTaken?_eq_some_iff_takesPath h]
  simp [h]

theorem any_sameConnection_iff {newId : String} :
    g.edges.any (sameConnection ⟨newId, source, target, handle, none⟩) = true ↔
      g.IsJoined source target handle := by
  simp only [List.any_eq_true, sameConnection, Bool.and_eq_true, beq_iff_eq, IsJoined, and_assoc,
    eq_comm (a := source), eq_comm (a := target), eq_comm (a := handle)]

/-- A connection fails for the reason that applies. -/
theorem connect_eq_error {e : EditError} (h : g.IsRefused source target handle e)
    (newId : String) : g.connect newId source target handle = .error e := by
  rw [connect]
  cases h with
  | source hsource =>
    rw [getNode_eq_error hsource]
    rfl
  | target hsource htarget =>
    obtain ⟨node, hnode⟩ := exists_node?_of_hasNode hsource
    rw [getNode_eq_ok.2 hnode, getNode_eq_error htarget]
    rfl
  | loop hsource htarget hloop =>
    obtain ⟨node, hnode⟩ := exists_node?_of_hasNode hsource
    obtain ⟨other, hother⟩ := exists_node?_of_hasNode htarget
    rw [getNode_eq_ok.2 hnode, getNode_eq_ok.2 hother]
    simp only [bind, Except.bind, if_pos hloop]
  | joined hsource htarget hne hjoined =>
    obtain ⟨node, hnode⟩ := exists_node?_of_hasNode hsource
    obtain ⟨other, hother⟩ := exists_node?_of_hasNode htarget
    rw [getNode_eq_ok.2 hnode, getNode_eq_ok.2 hother]
    simp only [bind, Except.bind, if_neg hne, if_pos (any_sameConnection_iff.2 hjoined)]
  | range hsource htarget hne hnew index hindex =>
    obtain ⟨node, hnode⟩ := exists_node?_of_hasNode hsource
    obtain ⟨other, hother⟩ := exists_node?_of_hasNode htarget
    obtain ⟨hpath, hlength⟩ := (takesNoPathAt_iff hnode).1 hindex
    rw [getNode_eq_ok.2 hnode, getNode_eq_ok.2 hother]
    simp only [bind, Except.bind, if_neg hne, if_neg (mt any_sameConnection_iff.1 hnew), hpath,
      if_pos hlength]

/-! ## What is changed -/

/-- A connection stands in for others when it takes a path or leaves through an approval handle. -/
def StandsIn (g : Graph α) (source : String) (handle : Option String) : Prop :=
  (∃ index, g.TakesPath source handle index) ∨ handle = some Handle.approve ∨
    handle = some Handle.reject

/-- What a connection makes of a graph. -/
structure IsConnected (g : Graph α) (edge : Edge) (g' : Graph α) : Prop where
  /-- The edge is the last one. -/
  added : ¬g.StandsIn edge.source edge.sourceHandle → g'.edges = g.edges ++ [edge]
  /-- An edge that stands in for others takes the place of those through its handle. -/
  replaced : g.StandsIn edge.source edge.sourceHandle →
    g'.edges = (g.edges.filter fun other =>
      !(other.source == edge.source && other.sourceHandle == edge.sourceHandle)) ++ [edge]
  /-- A path that is taken is noted, in the first node of the source. -/
  noted : ∀ index, g.TakesPath edge.source edge.sourceHandle index →
    ∃ before node after stepId, g.nodes = before ++ node :: after ∧ node.id = edge.source ∧
      (∀ other ∈ before, other.id ≠ edge.source) ∧ index < node.data.branches.length ∧
      g.stepIdAt? edge.target = some stepId ∧
      g'.nodes = before ++ node.updateBranches
        (·.modify index fun path => { path with target := some stepId }) :: after
  /-- Where no path is taken, the nodes stay as they are. -/
  kept : (∀ index, ¬g.TakesPath edge.source edge.sourceHandle index) → g'.nodes = g.nodes
  /-- The tables find an edge that stands in for others. -/
  found : g.StandsIn edge.source edge.sourceHandle → ∀ text, edge.sourceHandle = some text →
    g'.index.edgeFromHandle? edge.source text = some edge

/-- Whether a connection stands in for others is seen from its source and its handle. -/
theorem standsIn_iff {node : Node α} (h : g.node? source = some node) {newId : String} :
    ((pathTaken? node handle).isSome ||
        Edge.hasApprovalHandle ⟨newId, source, target, handle, none⟩) = true ↔
      g.StandsIn source handle := by
  have hpath : (pathTaken? node handle).isSome = true ↔ ∃ index, g.TakesPath source handle index := by
    rw [Option.isSome_iff_exists]
    exact exists_congr fun index => pathTaken?_eq_some_iff_takesPath h
  have happroval : Edge.hasApprovalHandle ⟨newId, source, target, handle, none⟩ = true ↔
      handle = some Handle.approve ∨ handle = some Handle.reject := by
    cases handle <;> simp [Edge.hasApprovalHandle, Handle.isApproval]
  rw [Bool.or_eq_true, hpath, happroval, StandsIn]

/-- The tables find an edge that is added after the others through its handle are gone. -/
theorem edgeFromHandle?_of_replaced {g' : Graph α} {edge : Edge}
    (hresolves : g'.resolves edge = true)
    (hedges : g'.edges = (g.edges.filter fun other =>
      !(other.source == edge.source && other.sourceHandle == edge.sourceHandle)) ++ [edge])
    {text : String} (htext : edge.sourceHandle = some text) :
    g'.index.edgeFromHandle? edge.source text = some edge := by
  have hnone : (((g.edges.filter fun other =>
      !(other.source == edge.source && other.sourceHandle == edge.sourceHandle)).filter
        g'.resolves).filter (·.source == edge.source)).find? (·.leavesThrough text) = none := by
    rw [List.find?_eq_none]
    intro other hother hleaves
    obtain ⟨hother, hsource⟩ := List.mem_filter.1 hother
    have hgone := (List.mem_filter.1 (List.mem_filter.1 hother).1).2
    rw [hsource, htext, Bool.true_and, Bool.not_eq_true'] at hgone
    exact Bool.false_ne_true (hgone.symm.trans hleaves)
  rw [Index.edgeFromHandle?, Index.outgoing_index, resolvedEdges, hedges, List.filter_append,
    List.filter_append, List.find?_append, hnone, Option.none_or]
  simp [hresolves, Edge.leavesThrough, htext]

/-- A connection that nothing speaks against is made. -/
theorem exists_isConnected (h : g.IsConnectable source target handle) (newId : String) :
    ∃ g', g.connect newId source target handle =
        .ok (⟨newId, source, target, handle, none⟩, g') ∧
      g.IsConnected ⟨newId, source, target, handle, none⟩ g' := by
  obtain ⟨node, hnode⟩ := exists_node?_of_hasNode h.hasSource
  obtain ⟨other, hother⟩ := exists_node?_of_hasNode h.hasTarget
  have hnew : ∀ existing ∈ g.edges,
      sameConnection ⟨newId, source, target, handle, none⟩ existing = false := by
    simpa using mt any_sameConnection_iff.1 h.new
  have hrange : ∀ index, pathTaken? node handle = some index →
      index < node.data.branches.length := fun index hpath =>
    Nat.lt_of_not_le fun hle => h.range index ((takesNoPathAt_iff hnode).2 ⟨hpath, hle⟩)
  refine ⟨_, connect_eq_ok hnode hother h.ne hnew hrange, ?_⟩
  have hreplaced : g.StandsIn source handle →
      edgesBeside ⟨newId, source, target, handle, none⟩ (pathTaken? node handle).isSome g.edges =
        g.edges.filter fun existing =>
          !(existing.source == source && existing.sourceHandle == handle) := fun hstands => by
    rw [edgesBeside, if_pos ((standsIn_iff hnode).2 hstands)]
  refine ⟨fun hstands => ?_, fun hstands => ?_, fun index hpath => ?_, fun hpath => ?_,
    fun hstands text htext => ?_⟩
  · rw [edgesBeside, if_neg (mt (standsIn_iff hnode).1 hstands)]
  · rw [hreplaced hstands]
  · have hpath := (pathTaken?_eq_some_iff_takesPath hnode).2 hpath
    obtain ⟨before, after, hnodes, hid, hbefore, hnoted⟩ :=
      exists_nodes_updateNode hnode (setPathTarget index (some other.data.stepId))
    refine ⟨before, node, after, other.data.stepId, hnodes, hid, hbefore, hrange index hpath, ?_, ?_⟩
    · rw [stepIdAt?, hother, Option.map_some]
    · rw [hpath]
      exact hnoted
  · have hnone : pathTaken? node handle = none := by
      rw [Option.eq_none_iff_forall_ne_some]
      exact fun index hsome => hpath index ((pathTaken?_eq_some_iff_takesPath hnode).1 hsome)
    rw [hnone, noteTarget]
  · refine edgeFromHandle?_of_replaced (g := g) ?_ (by rw [hreplaced hstands]) htext
    refine (congrFun (resolves_congr (g := g) ?_) _).trans ?_
    · exact identities_noteTarget g source (pathTaken? node handle) (some other.data.stepId)
    · rw [resolves, h.hasSource, h.hasTarget, Bool.and_self]

/-! ## The outcome -/

/-- Connecting fails exactly for the first reason that applies, and then changes nothing; otherwise
it makes the edge, and changes what it has to. -/
theorem isConnected_connect [Coordinate α] (g : Graph α) (newId source target : String)
    (handle : Option String) :
    (∀ e, g.connect newId source target handle = .error e ↔ g.IsRefused source target handle e) ∧
      ((∃ edge g', g.connect newId source target handle = .ok (edge, g')) ↔
        g.IsConnectable source target handle) ∧
      (∀ edge g', g.connect newId source target handle = .ok (edge, g') →
        edge = ⟨newId, source, target, handle, none⟩ ∧ g.IsConnected edge g' ∧
          g.apply (.connect newId source target handle) = g') ∧
      ∀ e, g.connect newId source target handle = .error e →
        g.apply (.connect newId source target handle) = g := by
  have hok : ∀ edge g', g.connect newId source target handle = .ok (edge, g') →
      g.IsConnectable source target handle := by
    intro edge g' h
    refine (isConnectable_or_isRefused g source target handle).resolve_right ?_
    rintro ⟨e, he⟩
    rw [connect_eq_error he] at h
    cases h
  refine ⟨fun e => ⟨fun h => ?_, fun h => connect_eq_error h newId⟩,
    ⟨fun ⟨edge, g', h⟩ => hok edge g' h, fun h => ?_⟩, fun edge g' h => ?_, fun e h => ?_⟩
  · rcases isConnectable_or_isRefused g source target handle with hable | ⟨e', he'⟩
    · obtain ⟨g', hg', _⟩ := exists_isConnected hable newId
      rw [hg'] at h
      cases h
    · rw [connect_eq_error he'] at h
      cases h
      exact he'
  · obtain ⟨g', hg', _⟩ := exists_isConnected h newId
    exact ⟨_, g', hg'⟩
  · obtain ⟨g'', hg'', hconnected⟩ := exists_isConnected (hok edge g' h) newId
    rw [h] at hg''
    cases hg''
    refine ⟨rfl, hconnected, ?_⟩
    rw [apply, perform, h]
    rfl
  · rw [apply, perform, h]
    rfl

end StepGraph.Graph
