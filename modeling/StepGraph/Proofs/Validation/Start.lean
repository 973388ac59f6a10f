import StepGraph.Proofs.Validation.Coverage

/-!
# What the start reaches

A validation counts the edges into each node and looks for a cycle; it never follows edges from the
start.  Nevertheless its verdict says what the start reaches: without a cycle, going back along
edges comes to an end, and it can only end at a node without an edge into it.

There are three groups.

* Going back to a start.  `exists_reflTransGen_startCandidates` is the descent.
* The findings about starts: `mem_warnings_disconnected_iff` says which nodes are reported as
  disconnected, and `severalStarts_mem_warnings` when a choice between starts is.
* The result, `reflTransGen_of_isValid`.
-/

namespace StepGraph

open Relation (ReflTransGen)
open Validation

variable {α : Type} {g : Graph α} {options : Options}

/-! ## Going back to a start -/

namespace Graph

/-- A node with an edge into it is no start candidate, and every other one is. -/
theorem mem_startCandidates_or_exists_follows {node : Node α} (hnode : node ∈ g.nodes) :
    node ∈ g.index.startCandidates ∨ ∃ id, g.Follows id node.id := by
  by_cases hno : ∀ edge ∈ g.resolvedEdges, edge.target ≠ node.id
  · exact Or.inl (Index.mem_startCandidates.2 ⟨hnode, hno⟩)
  · push Not at hno
    obtain ⟨edge, hedge, htarget⟩ := hno
    exact Or.inr ⟨edge.source, edge, hedge, rfl, htarget⟩

/-- Without a cycle, every node is reached from a start candidate. -/
theorem exists_reflTransGen_startCandidates (hacyclic : ¬g.HasCycle) {id : String}
    (hid : g.hasNode id = true) :
    ∃ start ∈ g.index.startCandidates, ReflTransGen g.Follows start.id id := by
  -- The induction goes back along edges, which ends because there is no cycle.
  induction id using (wellFounded_follows hacyclic).induction with
  | _ id ih =>
    obtain ⟨node, hnode, rfl⟩ := hasNode_iff.1 hid
    rcases mem_startCandidates_or_exists_follows hnode with hstart | ⟨before, hfollows⟩
    · exact ⟨node, hstart, .refl⟩
    · obtain ⟨start, hstart, hreach⟩ := ih before hfollows hfollows.hasNode_left
      exact ⟨start, hstart, hreach.tail hfollows⟩

/-- Where no edge leads to an id, it is reached from nowhere else. -/
theorem eq_of_reflTransGen {a b : String} (hno : ∀ edge ∈ g.resolvedEdges, edge.target ≠ b)
    (h : ReflTransGen g.Follows a b) : a = b := by
  rcases h.cases_tail with rfl | ⟨_, _, edge, hedge, -, htarget⟩
  · rfl
  · exact absurd htarget (hno edge hedge)

end Graph

/-! ## The findings about starts -/

namespace Validation

/-- What is reported as disconnected has no edge into it, and a run does not start there. -/
theorem mem_disconnectedFindings_iff {id : String} :
    disconnected id ∈ disconnectedFindings g.index ↔
      g.hasNode id = true ∧ (∀ edge ∈ g.resolvedEdges, edge.target ≠ id) ∧
        g.index.startNode?.map (·.id) ≠ some id := by
  simp only [disconnectedFindings, List.mem_map, List.mem_filter, Index.nodes_index,
    Index.incomingCount_index, Bool.and_eq_true, beq_iff_eq, bne_iff_ne, List.countP_eq_zero]
  constructor
  · rintro ⟨node, ⟨hnode, hno, hstart⟩, hsame⟩
    obtain rfl : node.id = id := by simpa [disconnected, Diagnostic.warning] using hsame
    exact ⟨Graph.hasNode_iff.2 ⟨node, hnode, rfl⟩, hno, Ne.symm hstart⟩
  · rintro ⟨hid, hno, hstart⟩
    obtain ⟨node, hnode, rfl⟩ := Graph.hasNode_iff.1 hid
    exact ⟨node, ⟨hnode, hno, Ne.symm hstart⟩, rfl⟩

/-- Only the rule about disconnected nodes says that a node is disconnected. -/
theorem mem_disconnectedFindings_of_mem {coverage : Coverage} {rule : Rule} {id : String}
    (h : disconnected id ∈ rule.findings coverage g.index) :
    disconnected id ∈ disconnectedFindings g.index := by
  cases rule with
  | start =>
    simp only [Rule.findings, startFindings] at h
    split at h <;>
      simp [disconnected, noStart, severalStarts, Diagnostic.warning, Diagnostic.graphError,
        Diagnostic.graphWarning] at h
  | configuration =>
    obtain ⟨node, -, h⟩ := List.mem_flatMap.1 h
    exfalso
    rcases List.mem_append.1 h with h | h
    · cases hkind : node.kind with
      | action => exact absurd (isError_of_mem_nodeFindings hkind h) (by simp)
      | branch =>
        have hother : ∀ c, (disconnected id).message.toList.head? = some c → c.isDigit = false := by
          simp [disconnected, Diagnostic.warning]
        exact message_ne_of_mem_nodeFindings hkind h hother rfl
    · split at h
      · obtain ⟨rest, hmessage⟩ := exists_message_of_mem_coverageFindings h
        have hhead := congrArg (·.toList.head?) hmessage
        simp [disconnected, Diagnostic.warning, openPathsStart] at hhead
      · cases h
  | disconnected => exact h
  | cycle =>
    obtain ⟨id, name, h⟩ := eq_cycleClosed_of_mem_cycleFindings h
    exact absurd (congrArg Diagnostic.isError h) (by simp)
  | dangling =>
    obtain ⟨edge, -, h⟩ := List.mem_map.1 h
    exact absurd (congrArg Diagnostic.isError h) (by simp [isError_danglingFinding])
  | duplicate =>
    obtain ⟨node, -, message, h⟩ := eq_error_of_mem_duplicateFindings h
    exact absurd (congrArg Diagnostic.isError h) (by simp)

end Validation

namespace Graph

/-- The nodes that are reported as disconnected. -/
theorem mem_warnings_disconnected_iff (hnodes : g.nodes ≠ []) {id : String} :
    disconnected id ∈ (g.validate options).warnings ↔
      disconnected id ∈ disconnectedFindings g.index := by
  rw [validate, mem_warnings_ofDiagnostics, mem_findings hnodes,
    and_iff_left (isError_disconnected id)]
  constructor
  · rintro ⟨rule, -, h⟩
    exact mem_disconnectedFindings_of_mem h
  · intro h
    exact ⟨.disconnected, by simp [Options.rules], h⟩

/-- More than one start candidate is reported. -/
theorem severalStarts_mem_warnings {first second : Node α} {rest : List (Node α)}
    (h : g.index.startCandidates = first :: second :: rest) :
    severalStarts first.displayName ∈ (g.validate options).warnings := by
  have hfirst : first ∈ g.index.startCandidates := h ▸ List.mem_cons_self
  have hnodes : g.nodes ≠ [] := List.ne_nil_of_mem (Index.mem_startCandidates.1 hfirst).1
  rw [validate, mem_warnings_ofDiagnostics, mem_findings hnodes]
  refine ⟨⟨.start, by simp [Options.rules], ?_⟩, isError_severalStarts _⟩
  simp [Rule.findings, startFindings, h]

/-! ## The result -/

/-- In a graph with nodes that a validation accepts, every node is reached from a start candidate,
and one that is reported as disconnected is reached from no other id.  Where no choice between
starts is reported there is one start candidate, and it reaches every node. -/
theorem reflTransGen_of_isValid (g : Graph α) (options : Options) (hnodes : g.nodes ≠ [])
    (hvalid : (g.validate options).isValid = true) :
    (∀ node ∈ g.nodes, ∃ start ∈ g.index.startCandidates,
        ReflTransGen g.Follows start.id node.id) ∧
      (∀ node ∈ g.nodes, disconnected node.id ∈ (g.validate options).warnings →
        ∀ other ∈ g.nodes, other.id ≠ node.id → ¬ReflTransGen g.Follows other.id node.id) ∧
      ((∀ name, severalStarts name ∉ (g.validate options).warnings) →
        ∃ start, g.index.startCandidates = [start] ∧
          ∀ node ∈ g.nodes, ReflTransGen g.Follows start.id node.id) := by
  have hacyclic : ¬g.HasCycle := by
    rw [validate, isValid_ofDiagnostics, errorFree_findings_iff_isSound hnodes] at hvalid
    exact hvalid.acyclic
  have hreached : ∀ node ∈ g.nodes, ∃ start ∈ g.index.startCandidates,
      ReflTransGen g.Follows start.id node.id := fun node hnode =>
    exists_reflTransGen_startCandidates hacyclic (hasNode_iff.2 ⟨node, hnode, rfl⟩)
  refine ⟨hreached, fun node _ hflagged other _ hne hreach => ?_, fun hsingle => ?_⟩
  · rw [mem_warnings_disconnected_iff hnodes, mem_disconnectedFindings_iff] at hflagged
    exact hne (eq_of_reflTransGen hflagged.2.1 hreach)
  · cases hstarts : g.index.startCandidates with
    | nil => exact absurd hstarts (startCandidates_ne_nil hnodes hacyclic)
    | cons start rest =>
      cases rest with
      | cons second rest => exact absurd (severalStarts_mem_warnings hstarts) (hsingle _)
      | nil =>
        refine ⟨start, rfl, fun node hnode => ?_⟩
        obtain ⟨first, hfirst, hreach⟩ := hreached node hnode
        rw [hstarts, List.mem_singleton] at hfirst
        exact hfirst ▸ hreach

/-- A branch whose paths join again at an id that two nodes share, beside further nodes.  Two edges
are left over, one of them at the id that is shared. -/
def joinedGraph (further : List (Node Rat)) : Graph Rat where
  nodes := [
    .fresh "n1" "s1" .branch ⟨0, 0⟩,
    .fresh "n2" "s2" .branch ⟨0, 0⟩,
    .fresh "n3" "s3" .branch ⟨0, 0⟩,
    .fresh "n3" "s4" .branch ⟨0, 0⟩] ++ further
  edges := [
    ⟨"e1", "n1", "n2", some "branch-0", none⟩,
    ⟨"e2", "n1", "n3", some "branch-1", none⟩,
    ⟨"e3", "n2", "n3", none, none⟩,
    ⟨"e4", "n3", "n8", none, none⟩,
    ⟨"e5", "n9", "n1", none, none⟩]

/-- The branch reaches all, until a node is added that nothing reaches. -/
theorem reflTransGen_joinedGraph :
    (∀ node ∈ (joinedGraph []).nodes, ReflTransGen (joinedGraph []).Follows "n1" node.id) ∧
      ¬ReflTransGen (joinedGraph [.fresh "n4" "s5" .branch ⟨0, 0⟩]).Follows "n1" "n4" := by
  obtain ⟨-, -, hsingle⟩ :=
    (joinedGraph []).reflTransGen_of_isValid .live (by decide) (by decide +kernel)
  obtain ⟨-, hflagged, -⟩ :=
    (joinedGraph [.fresh "n4" "s5" .branch ⟨0, 0⟩]).reflTransGen_of_isValid .live (by decide)
      (by decide +kernel)
  constructor
  · have hnone : ∀ name, severalStarts name ∉ ((joinedGraph []).validate .live).warnings := by
      have hgraph : ∀ d ∈ ((joinedGraph []).validate .live).warnings, d.nodeId ≠ none := by
        decide +kernel
      exact fun name hname => hgraph _ hname rfl
    obtain ⟨start, hstart, hreach⟩ := hsingle hnone
    have hid : start.id = "n1" := by
      have hids : (joinedGraph []).index.startCandidates.map (·.id) = ["n1"] := by decide +kernel
      simpa [hstart] using hids
    exact hid ▸ hreach
  · exact hflagged (.fresh "n4" "s5" .branch ⟨0, 0⟩) (by decide) (by decide +kernel)
      (.fresh "n1" "s1" .branch ⟨0, 0⟩) (by decide) (by decide)

end Graph

end StepGraph
