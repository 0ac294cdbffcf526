import Vre.Verification.Grounding.Requirements

/-! # Rearranged subgraphs

A backend returns the nodes and the edges of a subgraph in an order of its own. The answer to
a query depends on that order only by the order in which it lists gaps, primitives and steps.
-/

namespace Vre

/-- Two responses to the same query, up to the order of what they list. -/
structure EpistemicResponse.Agrees (a b : EpistemicResponse) : Prop where
  query : a.query = b.query
  primitives : a.result.primitives.Perm b.result.primitives
  gaps : a.result.gaps.Perm b.result.gaps
  pathway : a.result.pathway.Perm b.result.pathway

/-- Two results of the same check, up to the order of what they list. -/
structure GroundingResult.Agrees (a b : GroundingResult) : Prop where
  grounded : a.grounded = b.grounded
  resolved : a.resolved = b.resolved
  gaps : a.gaps.Perm b.gaps
  trace : ∃ response response', a.trace = some response ∧ b.trace = some response' ∧
    response.Agrees response'
  agentId : a.agentId = b.agentId

theorem GroundingResult.Agrees.primitives {a b : GroundingResult} (h : a.Agrees b) :
    a.getPrimitives.Perm b.getPrimitives := by
  obtain ⟨response, response', ha, hb, hagrees⟩ := h.trace
  rw [GroundingResult.getPrimitives, ha, GroundingResult.getPrimitives, hb]
  exact hagrees.primitives

theorem GroundingResult.Agrees.pathway {a b : GroundingResult} (h : a.Agrees b) :
    a.getPathwaySteps.Perm b.getPathwaySteps := by
  obtain ⟨response, response', ha, hb, hagrees⟩ := h.trace
  rw [GroundingResult.getPathwaySteps, ha, GroundingResult.getPathwaySteps, hb]
  exact hagrees.pathway

namespace GroundingEngine

/-- The roots depend on the resolved ones only through the name of each. -/
theorem identifyRoots_congr [NameFolding] {rs rs' : List Primitive}
    (h : ∀ k, (OrderedDict.ofItems (rs.map fun r => (foldName r.name, r))).get? k =
      (OrderedDict.ofItems (rs'.map fun r => (foldName r.name, r))).get? k)
    (draw : Draw) (names : List String) :
    identifyRoots draw names rs = identifyRoots draw names rs' := by
  have hstep : identifyRoot draw (OrderedDict.ofItems (rs.map fun r => (foldName r.name, r))) =
      identifyRoot draw (OrderedDict.ofItems (rs'.map fun r => (foldName r.name, r))) := by
    funext st name
    simp only [identifyRoot, h]
  simp only [identifyRoots, hstep]

namespace Inquiry

/-- No two primitives of a response share a name. -/
theorem Apart.nodup_nameLower [NameFolding] {q : Inquiry} (h : q.Apart) :
    (q.response.result.primitives.map Primitive.nameLower).Nodup := by
  have hnames : (q.allNodes.map Primitive.nameLower).Nodup := by
    obtain ⟨hnodup, hmem⟩ := names_transients h.coherent
    rw [allNodes, List.map_append]
    apply List.nodup_append.mpr
    refine ⟨h.coherent.nodup_names, hnodup, ?_⟩
    intro k hk k' hk' heq
    obtain ⟨n, hn, rfl⟩ := List.mem_map.mp hk
    exact ((hmem k').mp hk').2 n hn heq
  have hkept : q.response.result.primitives.map Primitive.nameLower =
      (q.allNodes.filter fun n => n.id ∈ q.frontier).map Primitive.nameLower := by
    rw [response, filterDepths, List.map_map]
    rfl
  rw [hkept]
  exact hnames.sublist (List.filter_sublist.map _)

/-- The same query over the same subgraph, its nodes and edges in another order. -/
structure Rearranged [NameFolding] (q q' : Inquiry) : Prop where
  apart : q.Apart
  apart' : q'.Apart
  draw : q'.draw = q.draw
  concepts : q'.concepts = q.concepts
  minDepth : q'.minDepth = q.minDepth
  nodes : q'.subgraph.nodes.Perm q.subgraph.nodes
  edges : q'.subgraph.edges.Perm q.subgraph.edges

section

variable [NameFolding] {q q' : Inquiry} (h : q.Rearranged q')
include h

/-! ## The roots and the frontier -/

theorem Rearranged.mem_roots {r : Primitive} :
    r ∈ q'.subgraph.roots ↔ r ∈ q.subgraph.roots := by
  rw [h.apart'.coherent.mem_roots, h.apart.coherent.mem_roots, h.nodes.mem_iff, h.concepts]

theorem Rearranged.identifyRoots_eq :
    identifyRoots q'.draw q'.concepts q'.subgraph.roots =
      identifyRoots q.draw q.concepts q.subgraph.roots := by
  rw [h.draw, h.concepts]
  apply identifyRoots_congr
  intro k
  apply Option.ext
  intro r
  rw [get?_byName h.apart'.coherent, get?_byName h.apart.coherent, h.mem_roots]

theorem Rearranged.roots_eq : q'.roots = q.roots :=
  congrArg Prod.fst h.identifyRoots_eq

theorem Rearranged.transients_eq : q'.transients = q.transients :=
  congrArg Prod.snd h.identifyRoots_eq

theorem Rearranged.storedRoots_eq : q'.storedRoots = q.storedRoots := by
  rw [storedRoots, storedRoots, transientIds, transientIds, h.roots_eq, h.transients_eq]

theorem Rearranged.depthAt_eq : q'.subgraph.depthAt = q.subgraph.depthAt := by
  funext id
  by_cases hid : ∃ n ∈ q.subgraph.nodes, n.id = id
  · obtain ⟨n, hn, rfl⟩ := hid
    rw [h.apart.coherent.depthAt_eq hn, h.apart'.coherent.depthAt_eq (h.nodes.mem_iff.mpr hn)]
  · have hnone : ∀ sg : ResolvedSubgraph, (∀ n ∈ sg.nodes, n.id ≠ id) → sg.depthAt id = none := by
      intro sg hsg
      have hfind : sg.nodes.find? (fun n => n.id = id) = none :=
        List.find?_eq_none.mpr fun n hn => by simpa using hsg n hn
      rw [ResolvedSubgraph.depthAt, hfind]
      rfl
    rw [hnone q.subgraph fun n hn heq => hid ⟨n, hn, heq⟩,
      hnone q'.subgraph fun n hn heq => hid ⟨n, h.nodes.mem_iff.mp hn, heq⟩]

theorem Rearranged.sees_eq : q'.subgraph.Sees = q.subgraph.Sees := by
  funext e
  rw [ResolvedSubgraph.Sees, ResolvedSubgraph.Sees, h.depthAt_eq]

theorem Rearranged.visibleEdge_eq : q'.subgraph.VisibleEdge = q.subgraph.VisibleEdge := by
  funext a b
  simp only [ResolvedSubgraph.VisibleEdge, h.sees_eq, h.edges.mem_iff]

theorem Rearranged.onFrontier_eq : q'.subgraph.OnFrontier = q.subgraph.OnFrontier := by
  funext id
  simp only [ResolvedSubgraph.OnFrontier, h.visibleEdge_eq, h.mem_roots]

theorem Rearranged.shownEdge_eq : q'.subgraph.ShownEdge = q.subgraph.ShownEdge := by
  funext a b
  rw [ResolvedSubgraph.ShownEdge, ResolvedSubgraph.ShownEdge, h.onFrontier_eq, h.visibleEdge_eq]

theorem Rearranged.mem_frontier {id : UUID} : id ∈ q'.frontier ↔ id ∈ q.frontier := by
  rw [h.apart'.mem_frontier_iff, h.apart.mem_frontier_iff, h.onFrontier_eq, transientIds,
    transientIds, h.transients_eq]

/-! ## The gaps -/

theorem Rearranged.existence_eq : q'.gapsOf .existence = q.gapsOf .existence := by
  rw [gapsOf, gapsOf, h.apart'.existenceGaps_eq, h.apart.existenceGaps_eq, h.transients_eq]

theorem Rearranged.perm_depth : (q'.gapsOf .depth).Perm (q.gapsOf .depth) := by
  have hdemands : q'.subgraph.depthDemands q'.minDepth =
      q.subgraph.depthDemands q.minDepth := by
    funext n
    simp only [ResolvedSubgraph.depthDemands, h.onFrontier_eq, h.edges.mem_iff, h.sees_eq,
      h.mem_roots, h.minDepth]
  apply (List.perm_ext_iff_of_nodup h.apart'.nodup_depth h.apart.nodup_depth).mpr
  intro gap
  cases gap with
  | depth g =>
      have hleft : .depth g ∈ q'.gaps ↔ .depth g ∈ q'.gapsOf .depth := mem_gaps
      have hright : .depth g ∈ q.gaps ↔ .depth g ∈ q.gapsOf .depth := mem_gaps
      rw [← hleft, ← hright, h.apart'.mem_depth_iff, h.apart.mem_depth_iff, h.nodes.mem_iff,
        hdemands]
  | _ => exact iff_of_false (notMem_gapsOf GapKind.noConfusion) (notMem_gapsOf GapKind.noConfusion)

theorem Rearranged.perm_relational : (q'.gapsOf .relational).Perm (q.gapsOf .relational) := by
  have hdemands : q'.subgraph.targetDemands = q.subgraph.targetDemands := by
    funext s t
    simp only [ResolvedSubgraph.targetDemands, h.onFrontier_eq, h.edges.mem_iff, h.sees_eq]
  apply (List.perm_ext_iff_of_nodup h.apart'.nodup_relational h.apart.nodup_relational).mpr
  intro gap
  cases gap with
  | relational g =>
      have hleft : .relational g ∈ q'.gaps ↔ .relational g ∈ q'.gapsOf .relational := mem_gaps
      have hright : .relational g ∈ q.gaps ↔ .relational g ∈ q.gapsOf .relational := mem_gaps
      rw [← hleft, ← hright, h.apart'.mem_relational_iff, h.apart.mem_relational_iff,
        h.nodes.mem_iff, h.nodes.mem_iff, hdemands]
  | _ => exact iff_of_false (notMem_gapsOf GapKind.noConfusion) (notMem_gapsOf GapKind.noConfusion)

/-- The anchor is chosen by component size and submission, not by the order of the nodes. -/
theorem Rearranged.leads_iff {lead : Primitive} : q'.Leads lead ↔ q.Leads lead := by
  have hsize : q'.componentSize = q.componentSize := by
    funext id
    have hjoined : ∀ n : Primitive, decide (q'.Joined id n.id) = decide (q.Joined id n.id) := by
      intro n
      rw [decide_eq_decide, Joined, h.shownEdge_eq]
    simp only [componentSize, hjoined]
    exact (h.nodes.filter _).length_eq
  have hprecedes : q'.Precedes = q.Precedes := by
    funext a b
    rw [Precedes, Precedes, hsize, h.concepts]
  constructor
  · intro hlead
    refine ⟨h.mem_roots.mp hlead.root, ?_⟩
    intro r hr hne
    exact hprecedes ▸ hlead.first r (h.mem_roots.mpr hr) hne
  · intro hlead
    refine ⟨h.mem_roots.mpr hlead.root, ?_⟩
    intro r hr hne
    exact hprecedes.symm ▸ hlead.first r (h.mem_roots.mp hr) hne

theorem Rearranged.reachability_eq : q'.gapsOf .reachability = q.gapsOf .reachability := by
  rw [gapsOf, gapsOf]
  by_cases hroots : q.storedRoots = []
  · rw [h.storedRoots_eq, hroots]
    rfl
  · obtain ⟨lead, hlead, heq⟩ := h.apart.exists_lead hroots
    obtain ⟨lead', hlead', heq'⟩ := h.apart'.exists_lead (h.storedRoots_eq ▸ hroots)
    obtain rfl := (h.leads_iff.mp hlead').unique hlead
    rw [heq, heq', h.storedRoots_eq]
    congr 1
    apply List.filter_congr
    intro r _
    simp only [Joined, h.shownEdge_eq]

theorem Rearranged.perm_gaps : q'.gaps.Perm q.gaps := by
  rw [gaps_eq, gaps_eq, h.existence_eq, h.reachability_eq]
  exact ((h.perm_depth.append_left _).append h.perm_relational).append_right _

/-! ## The response -/

theorem Rearranged.perm_primitives :
    q'.response.result.primitives.Perm q.response.result.primitives := by
  have hall : q'.allNodes.Perm q.allNodes := by
    rw [allNodes, allNodes, h.transients_eq]
    exact h.nodes.append_right _
  have hsurviving : (q'.allNodes.filter fun n => n.id ∈ q'.frontier).Perm
      (q.allNodes.filter fun n => n.id ∈ q.frontier) := by
    simp only [h.mem_frontier]
    exact hall.filter _
  have hfilter : filterNode ((q'.allNodes.filter fun n => n.id ∈ q'.frontier).map Primitive.id) =
      filterNode ((q.allNodes.filter fun n => n.id ∈ q.frontier).map Primitive.id) := by
    funext p
    simp only [filterNode, (hsurviving.map Primitive.id).mem_iff]
  rw [response, response, filterDepths, filterDepths, hfilter]
  exact hsurviving.map _

theorem Rearranged.perm_pathway : q'.frontierVisible.Perm q.frontierVisible := by
  have hvisible : ∀ p : Inquiry, p.Apart → p.frontierVisible =
      p.subgraph.edges.filter fun e => p.subgraph.Sees e ∧ e.sourceId ∈ p.frontier := by
    intro p hp
    rw [frontierVisible, visible, partitionEdges, List.filter_filter]
    apply List.filter_congr
    intro e he
    have hdepth : depthOf (idToPrim p.allNodes) e.sourceId = p.subgraph.depthAt e.sourceId :=
      hp.depth_source he
    rw [isVisible, hdepth, Bool.decide_and]
    exact Bool.and_comm _ _
  rw [hvisible q h.apart, hvisible q' h.apart']
  simp only [h.sees_eq, h.mem_frontier]
  exact h.edges.filter _

theorem Rearranged.resolved_eq : q'.resolved = q.resolved := by
  have hget : ∀ k, (OrderedDict.ofItems
      (q'.response.result.primitives.map fun p => (p.nameLower, p.name))).get? k =
        (OrderedDict.ofItems
          (q.response.result.primitives.map fun p => (p.nameLower, p.name))).get? k := by
    intro k
    apply OrderedDict.get?_ofItems_perm (h.perm_primitives.map _)
    rw [List.map_map]
    exact h.apart'.nodup_nameLower
  simp only [resolved, hget, h.concepts]

theorem Rearranged.agrees_response : q'.response.Agrees q.response where
  query := by simp only [response, rootIds, h.roots_eq]
  primitives := h.perm_primitives
  gaps := h.perm_gaps
  pathway := h.perm_pathway

theorem Rearranged.agrees : q'.result.Agrees q.result where
  grounded := by
    rw [result, result, Bool.eq_iff_iff, List.isEmpty_iff, List.isEmpty_iff,
      ← List.length_eq_zero_iff, ← List.length_eq_zero_iff, h.perm_gaps.length_eq]
  resolved := h.resolved_eq
  gaps := h.perm_gaps
  trace := ⟨_, _, rfl, rfl, h.agrees_response⟩
  agentId := rfl

end

end Inquiry

end GroundingEngine

end Vre
