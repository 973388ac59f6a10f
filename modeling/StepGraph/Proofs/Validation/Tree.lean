import StepGraph.Proofs.Validation.Coverage
import StepGraph.Proofs.Validation.Start

/-!
# Trees

A graph is a tree with its nodes in order when every node but the first has one edge into it, from a
node before it.  Where nothing is wrong with the nodes themselves, there is nothing to find in such
a graph except paths of branches that have no edge yet.

There are three groups.

* `Graph.IsTree`, and the edges into a node.
* Edges lead forward, so there is no cycle.
* What a validation finds.
-/

namespace StepGraph

open Relation (TransGen)
open Validation

variable {α : Type} {g : Graph α}

/-! ## Trees -/

/-- The edges lead to the nodes after the first, in their order, each from an earlier node. -/
structure Graph.IsTree (g : Graph α) : Prop where
  distinct : (g.nodes.map (·.id)).Nodup
  targets : g.edges.map (·.target) = (g.nodes.map (·.id)).tail
  sources : ∀ i edge, g.edges[i]? = some edge → edge.source ∈ (g.nodes.map (·.id)).take (i + 1)

namespace Graph.IsTree

variable (h : g.IsTree)

/-- A single node is a tree. -/
theorem of_singleton {node : Node α} (hnodes : g.nodes = [node]) (hedges : g.edges = []) :
    g.IsTree where
  distinct := by simp [hnodes]
  targets := by simp [hnodes, hedges]
  sources i edge hedge := by simp [hedges] at hedge

include h

theorem length_edges (hnodes : g.nodes ≠ []) : g.edges.length + 1 = g.nodes.length := by
  have hlength := congrArg List.length h.targets
  have hpos := List.length_pos_iff.2 hnodes
  simp only [List.length_map, List.length_tail] at hlength
  omega

/-- A tree stays one when a new node hangs off one of its nodes. -/
theorem append {g' : Graph α} {edge : Edge} (hnodes : g.nodes ≠ [])
    (hids : g'.nodes.map (·.id) = g.nodes.map (·.id) ++ [edge.target])
    (hedges : g'.edges = g.edges ++ [edge]) (hfresh : edge.target ∉ g.nodes.map (·.id))
    (hsource : edge.source ∈ g.nodes.map (·.id)) : g'.IsTree where
  distinct := by
    rw [hids]
    exact List.nodup_append'.2 ⟨h.distinct, List.nodup_singleton _, by simpa using hfresh⟩
  targets := by
    rw [hids, hedges, List.map_append, h.targets,
      List.tail_append_of_ne_nil (by simpa using hnodes)]
    rfl
  sources i other hother := by
    rw [hids]
    rw [hedges] at hother
    by_cases hlt : i < g.edges.length
    · rw [List.getElem?_append_left hlt] at hother
      have hlength := h.length_edges hnodes
      rw [List.take_append_of_le_length (by rw [List.length_map]; omega)]
      exact h.sources i other hother
    · have hi : i = g.edges.length := by
        have hbound := (List.getElem?_eq_some_iff.1 hother).1
        rw [List.length_append, List.length_singleton] at hbound
        omega
      obtain rfl : edge = other := by simpa [hi] using hother
      have hlength : (g.nodes.map (·.id)).length = i + 1 := by
        rw [List.length_map, hi, h.length_edges hnodes]
      rwa [← hlength, List.take_left]

/-- Both ends of every edge are nodes. -/
theorem resolvedEdges_eq : g.resolvedEdges = g.edges := by
  refine List.filter_eq_self.2 fun edge hedge => ?_
  obtain ⟨i, hi⟩ := List.getElem?_of_mem hedge
  have hsource : edge.source ∈ g.nodes.map (·.id) := List.mem_of_mem_take (h.sources i edge hi)
  have htarget : edge.target ∈ g.nodes.map (·.id) :=
    List.mem_of_mem_tail (h.targets ▸ List.mem_map_of_mem hedge)
  rw [resolves, Bool.and_eq_true, hasNode_iff, hasNode_iff]
  exact ⟨List.mem_map.1 hsource, List.mem_map.1 htarget⟩

theorem hasNode_source : ∀ edge ∈ g.edges, g.hasNode edge.source = true := by
  intro edge hedge
  rw [← h.resolvedEdges_eq] at hedge
  exact (mem_resolvedEdges.1 hedge).2.1

/-- No edge leads to the first node. -/
theorem target_ne {first : Node α} {rest : List (Node α)} (hnodes : g.nodes = first :: rest) :
    ∀ edge ∈ g.edges, edge.target ≠ first.id := by
  have hdistinct := h.distinct
  have htargets := h.targets
  rw [hnodes, List.map_cons] at hdistinct htargets
  rw [List.tail_cons] at htargets
  intro edge hedge heq
  have hmem : edge.target ∈ rest.map (·.id) := htargets ▸ List.mem_map_of_mem hedge
  exact (List.nodup_cons.1 hdistinct).1 (heq ▸ hmem)

/-- One edge leads to every other node, and it comes from an earlier one. -/
theorem exists_filter_target_eq {slot : Nat} {node : Node α}
    (hnode : g.nodes[slot + 1]? = some node) :
    ∃ edge, g.edges.filter (·.target == node.id) = [edge] ∧
      ∃ earlier ∈ g.nodes.take (slot + 1), earlier.id = edge.source := by
  have htarget : (g.edges.map (·.target))[slot]? = some node.id := by
    rw [h.targets, List.getElem?_tail, List.getElem?_map, hnode]
    rfl
  rw [List.getElem?_map, Option.map_eq_some_iff] at htarget
  obtain ⟨edge, hedge, hid⟩ := htarget
  refine ⟨edge, ?_, ?_⟩
  · rw [← hid]
    refine filter_eq_singleton ?_ (List.mem_of_getElem? hedge)
    rw [h.targets]
    exact h.distinct.sublist (List.tail_sublist _)
  · have hsource := h.sources slot edge hedge
    rwa [← List.map_take, List.mem_map] at hsource

/-! ## Edges lead forward -/

theorem idxOf_lt_of_follows {a b : String} (hfollows : g.Follows a b) :
    (g.nodes.map (·.id)).idxOf a < (g.nodes.map (·.id)).idxOf b := by
  obtain ⟨edge, hedge, rfl, rfl⟩ := hfollows
  rw [h.resolvedEdges_eq] at hedge
  obtain ⟨i, hi⟩ := List.getElem?_of_mem hedge
  have hsource := h.sources i edge hi
  have htarget : (g.nodes.map (·.id))[i + 1]? = some edge.target := by
    rw [← List.getElem?_tail, ← h.targets, List.getElem?_map, hi]
    rfl
  obtain ⟨hlt, htarget⟩ := List.getElem?_eq_some_iff.1 htarget
  rw [← htarget, h.distinct.idxOf_getElem]
  exact (List.mem_take_iff_idxOf_lt (List.mem_of_mem_take hsource)).1 hsource

theorem not_hasCycle : ¬g.HasCycle := by
  rintro ⟨id, hcycle⟩
  have hlt : ∀ b, TransGen g.Follows id b →
      (g.nodes.map (·.id)).idxOf id < (g.nodes.map (·.id)).idxOf b := by
    intro b hway
    induction hway with
    | single hstep => exact h.idxOf_lt_of_follows hstep
    | tail _ hstep ih => exact ih.trans (h.idxOf_lt_of_follows hstep)
  exact lt_irrefl _ (hlt id hcycle)

/-! ## What a validation finds -/

/-- A run can start at the first node only. -/
theorem startCandidates_eq {first : Node α} {rest : List (Node α)}
    (hnodes : g.nodes = first :: rest) : g.index.startCandidates = [first] := by
  have hfirst : g.index.incomingCount first.id = 0 := by
    rw [Index.incomingCount_index, h.resolvedEdges_eq, List.countP_eq_zero]
    intro edge hedge
    simpa using h.target_ne hnodes edge hedge
  have hrest : ∀ node ∈ rest, g.index.incomingCount node.id = 1 := by
    intro node hnode
    obtain ⟨slot, hslot⟩ := List.getElem?_of_mem hnode
    have hnode : g.nodes[slot + 1]? = some node := by rwa [hnodes]
    obtain ⟨edge, hedge, -⟩ := h.exists_filter_target_eq hnode
    rw [Index.incomingCount_index, h.resolvedEdges_eq, List.countP_eq_length_filter, hedge]
    rfl
  rw [Index.startCandidates, Index.nodes_index, hnodes, List.filter_cons_of_pos (by simp [hfirst]),
    List.filter_eq_nil_iff.2]
  intro node hnode
  simp [hrest node hnode]

/-- Where nothing is wrong with the nodes themselves, a live validation looks for edges of branch
paths and finds nothing else. -/
theorem mem_coverageFindings_of_mem_findings (hnodes : g.nodes ≠ [])
    (hsound : ∀ node ∈ g.nodes, nodeFindings node = []) {d : Diagnostic}
    (hd : d ∈ g.findings .live) :
    ∃ node ∈ g.nodes, node.kind = .branch ∧ d ∈ coverageFindings .count g.index node := by
  obtain ⟨first, rest, hfirst⟩ := List.exists_cons_of_ne_nil hnodes
  have hstarts := h.startCandidates_eq hfirst
  obtain ⟨rule, hrule, hd⟩ := (mem_findings hnodes).1 hd
  cases rule with
  | start => simp [Rule.findings, startFindings, hstarts] at hd
  | configuration =>
    obtain ⟨node, hnode, hd⟩ := List.mem_flatMap.1 hd
    rw [hsound node hnode, List.nil_append] at hd
    split at hd
    · rename_i hbranch
      exact ⟨node, hnode, by simpa [Node.isBranch] using hbranch, hd⟩
    · cases hd
  | disconnected =>
    obtain ⟨node, hnode, rfl⟩ := List.mem_map.1 hd
    obtain ⟨-, hno, hstart⟩ := mem_disconnectedFindings_iff.1 hd
    have hcandidate : node ∈ g.index.startCandidates :=
      Index.mem_startCandidates.2 ⟨(List.mem_filter.1 hnode).1, hno⟩
    rw [hstarts, List.mem_singleton] at hcandidate
    simp [Index.startNode?, hstarts, hcandidate] at hstart
  | cycle =>
    obtain ⟨id, name, rfl⟩ := eq_cycleClosed_of_mem_cycleFindings hd
    cases errorFree_cycleFindings.2 h.not_hasCycle _ hd
  | dangling | duplicate => simp [Options.rules, Options.live] at hrule

/-- So there is no error, and all that is warned of are branch paths without edges. -/
theorem validate_live (hnodes : g.nodes ≠ [])
    (hsound : ∀ node ∈ g.nodes, nodeFindings node = []) :
    (g.validate .live).errors = [] ∧ ∀ d ∈ (g.validate .live).warnings,
      ∃ node ∈ g.nodes, node.kind = .branch ∧ d.nodeId = some node.id ∧
        ∃ rest, d.message = openPathsStart ++ rest := by
  constructor
  · refine List.eq_nil_iff_forall_not_mem.2 fun d hd => ?_
    obtain ⟨hd, herror⟩ := mem_errors_ofDiagnostics.1 hd
    obtain ⟨node, -, -, hd⟩ := h.mem_coverageFindings_of_mem_findings hnodes hsound hd
    rw [errorFree_coverageFindings _ _ _ d hd] at herror
    cases herror
  · intro d hd
    obtain ⟨hd, -⟩ := mem_warnings_ofDiagnostics.1 hd
    obtain ⟨node, hnode, hkind, hd⟩ := h.mem_coverageFindings_of_mem_findings hnodes hsound hd
    exact ⟨node, hnode, hkind, nodeId_of_mem_coverageFindings hd,
      exists_message_of_mem_coverageFindings hd⟩

end Graph.IsTree

end StepGraph
