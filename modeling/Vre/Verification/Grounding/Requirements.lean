import Mathlib.Order.Bounds.Basic
import Vre.Verification.Grounding.Connectivity

/-! # The gaps the graph calls for

The requirements that gated edges, the override and unmet targets make of a primitive form a
set of depths, read off the resolved subgraph. A query reports one gap for each such set that
is not empty, at its greatest element.
-/

namespace Vre

namespace ResolvedSubgraph

/-- The depths that the graph and the override require of a node: the source depths of its
gated edges, if it is on the frontier, and the floor, if it is a root below it. -/
def depthDemands (sg : ResolvedSubgraph) (minDepth : Option DepthLevel) (n : Primitive) :
    Set DepthLevel :=
  {d | (sg.OnFrontier n.id ∧ ∃ e ∈ sg.edges, ¬ sg.Sees e ∧ e.sourceId = n.id ∧ e.sourceDepth = d) ∨
    n ∈ sg.roots ∧ minDepth = some d ∧ ¬ Meets n.contiguousMaxDepth d}

/-- The target depths that the visible edges from `s` to `t` require of `t`, and that it does
not have. -/
def targetDemands (sg : ResolvedSubgraph) (s t : Primitive) : Set DepthLevel :=
  {d | sg.OnFrontier s.id ∧ ∃ e ∈ sg.edges, sg.Sees e ∧ e.sourceId = s.id ∧ e.targetId = t.id ∧
    ¬ Meets t.contiguousMaxDepth d ∧ e.targetDepth = d}

end ResolvedSubgraph

namespace GroundingEngine

/-! ## What a gap is about -/

def isExistenceOf [NameFolding] (fold : String) : KnowledgeGap → Bool
  | .existence g => g.primitive.nameLower = fold
  | _ => false

def isDepthOf (id : UUID) : KnowledgeGap → Bool
  | .depth g => g.primitive.id = id
  | _ => false

def isRelationalOf (source target : UUID) : KnowledgeGap → Bool
  | .relational g => g.source.id = source ∧ g.target.id = target
  | _ => false

theorem kind_of_isExistenceOf [NameFolding] {fold : String} (gap : KnowledgeGap)
    (h : isExistenceOf fold gap = true) : gap.kind = .existence := by
  cases gap <;> first | rfl | cases h

theorem kind_of_isDepthOf {id : UUID} (gap : KnowledgeGap) (h : isDepthOf id gap = true) :
    gap.kind = .depth := by
  cases gap <;> first | rfl | cases h

theorem kind_of_isRelationalOf {s t : UUID} (gap : KnowledgeGap)
    (h : isRelationalOf s t gap = true) : gap.kind = .relational := by
  cases gap <;> first | rfl | cases h

namespace Inquiry

/-! ## Existence gaps -/

theorem Apart.existenceGaps_eq [NameFolding] {q : Inquiry} (h : q.Apart) :
    existenceGaps q.allNodes q.transientIds = q.transients.map fun r => .existence ⟨r⟩ := by
  have hnodes : q.subgraph.nodes.filter (fun n => n.id ∈ q.transientIds) = [] :=
    List.filter_eq_nil_iff.mpr fun n hn => by simpa using h.stored n hn
  have htransients : q.transients.filter (fun r => r.id ∈ q.transientIds) = q.transients :=
    List.filter_eq_self.mpr fun r hr => decide_eq_true (List.mem_map_of_mem hr)
  rw [existenceGaps, allNodes, List.filter_append, hnodes, htransients, List.nil_append]

/-- One existence gap for each submitted name that no node has. -/
theorem Apart.filter_existenceGaps [NameFolding] {q : Inquiry} (h : q.Apart) (fold : String) :
    (fold ∈ q.transients.map Primitive.nameLower ∧ ∃ g : ExistenceGap,
      (existenceGaps q.allNodes q.transientIds).filter (isExistenceOf fold) =
        [.existence g]) ∨
    fold ∉ q.transients.map Primitive.nameLower ∧
      (existenceGaps q.allNodes q.transientIds).filter (isExistenceOf fold) = [] := by
  have habout : (isExistenceOf fold ∘ fun r => .existence ⟨r⟩) =
      fun r : Primitive => decide (r.nameLower = fold) := rfl
  rw [h.existenceGaps_eq, List.filter_map, habout]
  by_cases hfold : fold ∈ q.transients.map Primitive.nameLower
  · obtain ⟨r, hr, rfl⟩ := List.mem_map.mp hfold
    rw [filter_transients h.coherent hr]
    exact Or.inl ⟨hfold, ⟨r⟩, rfl⟩
  · refine Or.inr ⟨hfold, List.map_eq_nil_iff.mpr (List.filter_eq_nil_iff.mpr fun r hr heq => ?_)⟩
    exact hfold (List.mem_map.mpr ⟨r, hr, of_decide_eq_true heq⟩)

/-! ## Depth gaps -/

theorem Apart.mem_depthRequirements [NameFolding] {q : Inquiry} (h : q.Apart) {n : Primitive}
    (hn : n ∈ q.subgraph.nodes) {need : DepthLevel × Option DepthLevel} :
    (n.id, need) ∈
        depthRequirements q.allNodes q.frontierGated q.rootIds q.transientIds q.minDepth ↔
      need.1 ∈ q.subgraph.depthDemands q.minDepth n ∧ need.2 = n.contiguousMaxDepth := by
  rw [Inquiry.mem_depthRequirements]
  constructor
  · rintro (⟨e, he, -, hid, rfl⟩ | ⟨floor, hfloor, n', hn', hstored, hroot, hunmet, hid, rfl⟩)
    · obtain ⟨hedge, hfrontier, hgated⟩ := h.mem_frontierGated.mp he
      exact ⟨Or.inl ⟨hid ▸ hfrontier, e, hedge, hgated, hid, rfl⟩, hid ▸ h.depth_eq hn⟩
    · have hn' := (List.mem_append.mp hn').resolve_right fun ht =>
        hstored (List.mem_map_of_mem ht)
      obtain rfl := h.node_unique hn' hn hid
      exact ⟨Or.inr ⟨(h.mem_rootIds hn).mp hroot, hfloor, hunmet⟩, rfl⟩
  · rintro ⟨⟨hfrontier, e, he, hgated, hid, hdepth⟩ | ⟨hroot, hfloor, hunmet⟩, hcurrent⟩
    · refine Or.inl ⟨e, h.mem_frontierGated.mpr ⟨he, hid ▸ hfrontier, hgated⟩, ?_, hid, ?_⟩
      · exact hid ▸ h.stored n hn
      · rw [hid, h.depth_eq hn, hdepth, ← hcurrent]
    · refine Or.inr ⟨need.1, hfloor, n, List.mem_append_left _ hn, h.stored n hn,
        (h.mem_rootIds hn).mpr hroot, hunmet, rfl, ?_⟩
      rw [← hcurrent]

/-- One depth gap for each node of which something is required, at the strictest depth. -/
theorem Apart.filter_depthGaps [NameFolding] {q : Inquiry} (h : q.Apart) {n : Primitive}
    (hn : n ∈ q.subgraph.nodes) :
    (∃ d, IsGreatest (q.subgraph.depthDemands q.minDepth n) d ∧
      (depthGaps q.allNodes q.frontierGated q.rootIds q.transientIds q.minDepth).filter
        (isDepthOf n.id) = [.depth ⟨n, d, n.contiguousMaxDepth⟩]) ∨
    q.subgraph.depthDemands q.minDepth n = ∅ ∧
      (depthGaps q.allNodes q.frontierGated q.rootIds q.transientIds q.minDepth).filter
        (isDepthOf n.id) = [] := by
  have habout : ∀ (e : UUID × DepthLevel × Option DepthLevel) (gap : KnowledgeGap),
      ((idToPrim q.allNodes).get? e.1).map (fun p => .depth ⟨p, e.2.1, e.2.2⟩) = some gap →
        (isDepthOf n.id gap = true ↔ e.1 = n.id) := by
    intro e gap hgap
    obtain ⟨p, hp, rfl⟩ := Option.map_eq_some_iff.mp hgap
    simp [isDepthOf, id_of_get?_prims hp]
  simp only [depthGaps, OrderedDict.filterMap_entries_key habout, h.get?_prims hn]
  cases hget : (OrderedDict.empty.mergeMax Prod.fst (depthRequirements q.allNodes q.frontierGated
      q.rootIds q.transientIds q.minDepth)).get? n.id with
  | none =>
      refine Or.inr ⟨Set.eq_empty_iff_forall_notMem.mpr fun d hd => ?_, rfl⟩
      have hmem : (n.id, (d, n.contiguousMaxDepth)) ∈ depthRequirements q.allNodes q.frontierGated
          q.rootIds q.transientIds q.minDepth := (h.mem_depthRequirements hn).mpr ⟨hd, rfl⟩
      obtain ⟨w, hw, -⟩ := OrderedDict.get?_mergeMax_of_mem Prod.fst .empty hmem
      cases hget.symm.trans hw
  | some w =>
      obtain ⟨hmem, hbest⟩ := OrderedDict.best_of_mergeMax hget
      obtain ⟨hdemand, hcurrent⟩ := (h.mem_depthRequirements hn).mp hmem
      refine Or.inl ⟨w.1, ⟨hdemand, fun d hd => ?_⟩, by simp [hcurrent]⟩
      exact hbest (d, n.contiguousMaxDepth) ((h.mem_depthRequirements hn).mpr ⟨hd, rfl⟩)

/-! ## Relational gaps -/

theorem Apart.mem_relatumRequirements [NameFolding] {q : Inquiry} (h : q.Apart)
    {s t : Primitive} (ht : t ∈ q.subgraph.nodes) {d : DepthLevel} :
    ((s.id, t.id), d) ∈ relatumRequirements q.allNodes q.frontierVisible q.transientIds ↔
      d ∈ q.subgraph.targetDemands s t := by
  rw [Inquiry.mem_relatumRequirements]
  constructor
  · rintro ⟨e, he, -, hunmet, hpair, rfl⟩
    obtain ⟨hedge, hfrontier, hsees⟩ := h.mem_frontierVisible.mp he
    obtain ⟨hsource, htarget⟩ := Prod.mk.inj hpair
    rw [htarget, h.depth_eq ht] at hunmet
    exact ⟨hsource ▸ hfrontier, e, hedge, hsees, hsource, htarget, hunmet, rfl⟩
  · rintro ⟨hfrontier, e, he, hsees, hsource, htarget, hunmet, rfl⟩
    refine ⟨e, h.mem_frontierVisible.mpr ⟨he, hsource ▸ hfrontier, hsees⟩, ?_, ?_, ?_, rfl⟩
    · exact htarget ▸ h.stored t ht
    · rwa [htarget, h.depth_eq ht]
    · rw [hsource, htarget]

/-- One relational gap for each ordered pair with an unmet target, at the strictest depth. -/
theorem Apart.filter_relationalGaps [NameFolding] {q : Inquiry} (h : q.Apart) {s t : Primitive}
    (hs : s ∈ q.subgraph.nodes) (ht : t ∈ q.subgraph.nodes) :
    (∃ d, IsGreatest (q.subgraph.targetDemands s t) d ∧
      (relationalGaps q.allNodes q.frontierVisible q.transientIds).filter
        (isRelationalOf s.id t.id) = [.relational ⟨s, t, d, t.contiguousMaxDepth⟩]) ∨
    q.subgraph.targetDemands s t = ∅ ∧
      (relationalGaps q.allNodes q.frontierVisible q.transientIds).filter
        (isRelationalOf s.id t.id) = [] := by
  have habout : ∀ (e : (UUID × UUID) × DepthLevel) (gap : KnowledgeGap),
      (((idToPrim q.allNodes).get? e.1.1).bind fun source =>
        ((idToPrim q.allNodes).get? e.1.2).map fun target =>
          .relational ⟨source, target, e.2, target.contiguousMaxDepth⟩) = some gap →
        (isRelationalOf s.id t.id gap = true ↔ e.1 = (s.id, t.id)) := by
    intro e gap hgap
    obtain ⟨source, hsource, hmap⟩ := Option.bind_eq_some_iff.mp hgap
    obtain ⟨target, htarget, rfl⟩ := Option.map_eq_some_iff.mp hmap
    simp [isRelationalOf, id_of_get?_prims hsource, id_of_get?_prims htarget, Prod.ext_iff]
  simp only [relationalGaps, OrderedDict.filterMap_entries_key habout, h.get?_prims hs,
    h.get?_prims ht]
  cases hget : (OrderedDict.empty.mergeMax id (relatumRequirements q.allNodes q.frontierVisible
      q.transientIds)).get? (s.id, t.id) with
  | none =>
      refine Or.inr ⟨Set.eq_empty_iff_forall_notMem.mpr fun d hd => ?_, rfl⟩
      obtain ⟨w, hw, -⟩ := OrderedDict.get?_mergeMax_of_mem id .empty
        ((h.mem_relatumRequirements ht).mpr hd)
      cases hget.symm.trans hw
  | some d =>
      obtain ⟨hmem, hbest⟩ := OrderedDict.best_of_mergeMax hget
      refine Or.inl ⟨d, ⟨(h.mem_relatumRequirements ht).mp hmem, fun d' hd' => ?_⟩, rfl⟩
      exact hbest d' ((h.mem_relatumRequirements ht).mpr hd')

/-! ## The gaps of the response -/

/-- The nodes that a depth or a relational gap names are resolved ones. -/
theorem Apart.nodes_of_gap [NameFolding] {q : Inquiry} (h : q.Apart) {gap : KnowledgeGap}
    (hgap : gap ∈ q.gaps) :
    (∀ g, gap = .depth g → g.primitive ∈ q.subgraph.nodes) ∧
      ∀ g, gap = .relational g → g.source ∈ q.subgraph.nodes ∧ g.target ∈ q.subgraph.nodes := by
  rw [mem_gaps] at hgap
  constructor
  · rintro g rfl
    obtain ⟨g', heq, howes⟩ := owesDepth_of_mem h.coherent hgap
    cases heq
    exact howes.mem
  · rintro g rfl
    obtain ⟨g', heq, howes⟩ := owesTarget_of_mem h.coherent hgap
    cases heq
    obtain ⟨e, he, hsource, -⟩ := howes.demand
    obtain ⟨n, hn, hid⟩ := h.source_stored (Inquiry.mem_frontierVisible.mp he).1
    obtain ⟨⟨pair, need⟩, -, hbind⟩ := List.mem_filterMap.mp hgap
    obtain ⟨source, hget, hmap⟩ := Option.bind_eq_some_iff.mp hbind
    obtain ⟨target, -, hgap⟩ := Option.map_eq_some_iff.mp hmap
    cases hgap
    have hnode : (idToPrim q.allNodes).get? pair.1 = some n := by
      rw [← id_of_get?_prims hget, ← hsource, ← hid]
      exact h.get?_prims hn
    cases hget.symm.trans hnode
    exact ⟨hn, howes.mem⟩

theorem Apart.mem_depth_iff [NameFolding] {q : Inquiry} (h : q.Apart) {g : DepthGap} :
    .depth g ∈ q.gaps ↔ g.primitive ∈ q.subgraph.nodes ∧
      IsGreatest (q.subgraph.depthDemands q.minDepth g.primitive) g.requiredDepth ∧
      g.currentDepth = g.primitive.contiguousMaxDepth := by
  constructor
  · intro hgap
    have hn := (h.nodes_of_gap hgap).1 g rfl
    have hmem : .depth g ∈ (q.gapsOf .depth).filter (isDepthOf g.primitive.id) :=
      List.mem_filter.mpr ⟨mem_gaps.mp hgap, decide_eq_true rfl⟩
    rcases h.filter_depthGaps hn with ⟨d, hd, heq⟩ | ⟨-, heq⟩
    · have hg := KnowledgeGap.depth.inj (List.mem_singleton.mp (heq ▸ hmem))
      have hrequired : g.requiredDepth = d := congrArg DepthGap.requiredDepth hg
      exact ⟨hn, hrequired ▸ hd, congrArg DepthGap.currentDepth hg⟩
    · exact absurd (heq ▸ hmem) List.not_mem_nil
  · rintro ⟨hn, hd, hcurrent⟩
    rcases h.filter_depthGaps hn with ⟨d, hd', heq⟩ | ⟨hempty, -⟩
    · have hg : (⟨g.primitive, d, g.primitive.contiguousMaxDepth⟩ : DepthGap) = g := by
        rw [hd'.unique hd, ← hcurrent]
      rw [hg] at heq
      exact mem_gaps.mpr (List.mem_filter.mp (heq.symm ▸ List.mem_cons_self)).1
    · exact absurd hd.1 (hempty ▸ Set.notMem_empty _)

theorem Apart.mem_relational_iff [NameFolding] {q : Inquiry} (h : q.Apart) {g : RelationalGap} :
    .relational g ∈ q.gaps ↔ (g.source ∈ q.subgraph.nodes ∧ g.target ∈ q.subgraph.nodes) ∧
      IsGreatest (q.subgraph.targetDemands g.source g.target) g.requiredDepth ∧
      g.currentDepth = g.target.contiguousMaxDepth := by
  constructor
  · intro hgap
    have hnodes := (h.nodes_of_gap hgap).2 g rfl
    have hmem : .relational g ∈
        (q.gapsOf .relational).filter (isRelationalOf g.source.id g.target.id) :=
      List.mem_filter.mpr ⟨mem_gaps.mp hgap, decide_eq_true ⟨rfl, rfl⟩⟩
    rcases h.filter_relationalGaps hnodes.1 hnodes.2 with ⟨d, hd, heq⟩ | ⟨-, heq⟩
    · have hg := KnowledgeGap.relational.inj (List.mem_singleton.mp (heq ▸ hmem))
      have hrequired : g.requiredDepth = d := congrArg RelationalGap.requiredDepth hg
      exact ⟨hnodes, hrequired ▸ hd, congrArg RelationalGap.currentDepth hg⟩
    · exact absurd (heq ▸ hmem) List.not_mem_nil
  · rintro ⟨hnodes, hd, hcurrent⟩
    rcases h.filter_relationalGaps hnodes.1 hnodes.2 with ⟨d, hd', heq⟩ | ⟨hempty, -⟩
    · have hg : (⟨g.source, g.target, d, g.target.contiguousMaxDepth⟩ : RelationalGap) = g := by
        rw [hd'.unique hd, ← hcurrent]
      rw [hg] at heq
      exact mem_gaps.mpr (List.mem_filter.mp (heq.symm ▸ List.mem_cons_self)).1
    · exact absurd hd.1 (hempty ▸ Set.notMem_empty _)

/-- Gaps of which each is the only one about its subject are distinct. -/
theorem nodup_of_about {gaps : List KnowledgeGap} (h : ∀ gap ∈ gaps, ∃ about : KnowledgeGap → Bool,
    about gap = true ∧ (gaps.filter about).length ≤ 1) : gaps.Nodup := by
  apply List.nodup_iff_count_le_one.mpr
  intro gap
  by_cases hmem : gap ∈ gaps
  · obtain ⟨about, habout, hone⟩ := h gap hmem
    refine le_trans ?_ hone
    rw [← List.countP_eq_length_filter, List.count]
    apply List.countP_mono_left
    intro other _ heq
    rwa [eq_of_beq heq]
  · rw [List.count_eq_zero_of_not_mem hmem]
    exact Nat.zero_le 1

theorem Apart.nodup_depth [NameFolding] {q : Inquiry} (h : q.Apart) :
    (q.gapsOf .depth).Nodup := by
  apply nodup_of_about
  intro gap hgap
  obtain ⟨g, rfl, howes⟩ := owesDepth_of_mem h.coherent hgap
  refine ⟨isDepthOf g.primitive.id, decide_eq_true rfl, ?_⟩
  rcases h.filter_depthGaps howes.mem with ⟨d, -, heq⟩ | ⟨-, heq⟩ <;> simp [gapsOf, heq]

theorem Apart.nodup_relational [NameFolding] {q : Inquiry} (h : q.Apart) :
    (q.gapsOf .relational).Nodup := by
  apply nodup_of_about
  intro gap hgap
  obtain ⟨g, rfl, -⟩ := owesTarget_of_mem h.coherent hgap
  have hnodes := (h.nodes_of_gap (mem_gaps.mpr hgap)).2 g rfl
  refine ⟨isRelationalOf g.source.id g.target.id, decide_eq_true ⟨rfl, rfl⟩, ?_⟩
  rcases h.filter_relationalGaps hnodes.1 hnodes.2 with ⟨d, -, heq⟩ | ⟨-, heq⟩ <;>
    simp [gapsOf, heq]

end Inquiry

/-- The gaps but those of the connectivity check are the ones that the graph calls for, each
once and at the strictest depth. -/
structure CalledFor [NameFolding] (db : SqliteRepository) (concepts : List String)
    (minDepth : Option DepthLevel) (sg : ResolvedSubgraph) (gaps : List KnowledgeGap) : Prop where
  unknown : ∀ c ∈ concepts, Repository.findByName db c = .ok none →
    ∃ g, gaps.filter (isExistenceOf (foldName c)) = [.existence g]
  known : ∀ g, .existence g ∈ gaps → ∃ c ∈ concepts, g.primitive.nameLower = foldName c ∧
    Repository.findByName db c = .ok none
  depth : ∀ n ∈ sg.nodes, (∃ d, IsGreatest (sg.depthDemands minDepth n) d ∧
      gaps.filter (isDepthOf n.id) = [.depth ⟨n, d, n.contiguousMaxDepth⟩]) ∨
    sg.depthDemands minDepth n = ∅ ∧ gaps.filter (isDepthOf n.id) = []
  relational : ∀ s ∈ sg.nodes, ∀ t ∈ sg.nodes, (∃ d, IsGreatest (sg.targetDemands s t) d ∧
      gaps.filter (isRelationalOf s.id t.id) = [.relational ⟨s, t, d, t.contiguousMaxDepth⟩]) ∨
    sg.targetDemands s t = ∅ ∧ gaps.filter (isRelationalOf s.id t.id) = []
  nodes : ∀ gap ∈ gaps, (∀ g, gap = .depth g → g.primitive ∈ sg.nodes) ∧
    ∀ g, gap = .relational g → g.source ∈ sg.nodes ∧ g.target ∈ sg.nodes

/-- A query reports exactly the existence, depth and relational gaps that the resolved
subgraph calls for. -/
theorem query_calledFor [NameFolding] {db : SqliteRepository} (h : db.tables.Schema) {draw : Draw}
    (hfresh : draw.Fresh db.tables) (concepts : List String) (minDepth : Option DepthLevel) :
    ∃ sg response, Repository.resolveSubgraph db concepts = .ok sg ∧
      query draw db concepts minDepth = .ok response ∧
      CalledFor db concepts minDepth sg response.result.gaps := by
  refine ⟨_, _, resolveSubgraph_eq h concepts, query_eq h draw concepts minDepth, ?_⟩
  have hapart := hfresh.apart h concepts minDepth
  refine ⟨fun c hc hnone => ?_, fun g hg => ?_, fun n hn => ?_, fun s hs t ht => ?_, fun gap hgap =>
    hapart.nodes_of_gap hgap⟩
  · have hmem := (unknown_iff h draw minDepth hc).mpr hnone
    rw [Inquiry.response, Inquiry.filter_gaps _ kind_of_isExistenceOf]
    exact ((hapart.filter_existenceGaps (foldName c)).resolve_right fun hno => hno.1 hmem).2
  · have hg := Inquiry.mem_gaps.mp hg
    rw [KnowledgeGap.kind, Inquiry.gapsOf, hapart.existenceGaps_eq] at hg
    obtain ⟨r, hr, heq⟩ := List.mem_map.mp hg
    cases heq
    exact unknown_of_transient h hr
  · rw [Inquiry.response, Inquiry.filter_gaps _ kind_of_isDepthOf]
    exact hapart.filter_depthGaps hn
  · rw [Inquiry.response, Inquiry.filter_gaps _ kind_of_isRelationalOf]
    exact hapart.filter_relationalGaps hs ht

/-- In `outlyingLog`, `Copy` has no D1 and `Paper` is unknown. -/
theorem query_calledFor_outlyingLog : letI := asciiFolding
    ∃ sg response, Repository.resolveSubgraph outlyingLog ["copy", "Paper", "paper"] = .ok sg ∧
      query ⟨fun i => i + 5, 0⟩ outlyingLog ["copy", "Paper", "paper"] (some .identity) =
        .ok response ∧
      CalledFor outlyingLog ["copy", "Paper", "paper"] (some .identity) sg
        response.result.gaps := by
  let _ := asciiFolding
  have hfresh : Draw.Fresh ⟨fun i => i + 5, 0⟩ outlyingLog.tables :=
    Draw.fresh_above 0 (by decide)
  exact query_calledFor sound_outlyingLog.2.toSchema hfresh _ _

end GroundingEngine

end Vre
