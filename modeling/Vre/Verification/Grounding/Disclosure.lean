import Vre.Verification.Grounding.DepthGate

/-! # What a response discloses

The primitives of a trace are cut down to what they are grounded to, but a gap carries its
primitives as they were resolved. A response discloses nothing above a contiguous max depth
exactly when no gap is about a primitive with a record above its own.
-/

namespace Vre

/-- The primitives that a gap carries. -/
def KnowledgeGap.primitives : KnowledgeGap → List Primitive
  | .depth g => [g.primitive]
  | .existence g => [g.primitive]
  | .relational g => [g.source, g.target]
  | .reachability g => [g.primitive]

/-- Every primitive that the result carries. -/
def EpistemicResult.embedded (result : EpistemicResult) : List Primitive :=
  result.primitives ++ result.gaps.flatMap KnowledgeGap.primitives

/-- The result shows depths that their primitives are grounded to, and leads to nothing but
its own primitives. -/
structure EpistemicResult.Justified (sg : ResolvedSubgraph) (result : EpistemicResult) :
    Prop where
  depths : ∀ p ∈ result.embedded, ∀ d ∈ p.depths, Meets (sg.depthAt p.id) d.level
  relata : ∀ p ∈ result.embedded, ∀ d ∈ p.depths, ∀ r ∈ d.relata,
    r.targetId ∈ result.primitives.map Primitive.id
  shown : ∀ p ∈ result.embedded, p.id ∈ result.primitives.map Primitive.id
  pathway : ∀ e ∈ result.pathway, e.sourceId ∈ result.primitives.map Primitive.id ∧
    e.targetId ∈ result.primitives.map Primitive.id

/-- No record of the primitive stands above its contiguous max depth. -/
def Primitive.Contiguous (p : Primitive) : Prop :=
  ∀ d ∈ p.depths, Meets p.contiguousMaxDepth d.level

instance (p : Primitive) : Decidable p.Contiguous :=
  inferInstanceAs (Decidable (∀ d ∈ p.depths, Meets p.contiguousMaxDepth d.level))

namespace GroundingEngine

namespace Inquiry

/-! ## Which nodes a gap is about -/

/-- The graph calls the node into question: something is required of it, a visible edge out of
it or into it has an unmet target, or it is a root outside the class of the anchor. -/
inductive Questioned [NameFolding] (q : Inquiry) (n : Primitive) : Prop where
  | required {d : DepthLevel} (hd : d ∈ q.subgraph.depthDemands q.minDepth n) : Questioned q n
  | source {t : Primitive} {d : DepthLevel} (ht : t ∈ q.subgraph.nodes)
      (hd : d ∈ q.subgraph.targetDemands n t) : Questioned q n
  | target {s : Primitive} {d : DepthLevel} (hs : s ∈ q.subgraph.nodes)
      (hd : d ∈ q.subgraph.targetDemands s n) : Questioned q n
  | isolated {lead : Primitive} (hlead : q.Leads lead) (hroot : n ∈ q.subgraph.roots)
      (hapart : ¬ q.Joined lead.id n.id) : Questioned q n

theorem Apart.mem_reachability_iff [NameFolding] {q : Inquiry} (h : q.Apart) {r : Primitive} :
    .reachability ⟨r⟩ ∈ q.gaps ↔
      r ∈ q.subgraph.roots ∧ ∃ lead, q.Leads lead ∧ ¬ q.Joined lead.id r.id := by
  have hkind : .reachability ⟨r⟩ ∈ q.gaps ↔ .reachability ⟨r⟩ ∈ q.gapsOf .reachability := mem_gaps
  rw [hkind, gapsOf]
  by_cases hnil : q.storedRoots = []
  · have hroots : ∀ r, r ∉ q.subgraph.roots := by
      intro r hr
      have hr := h.mem_storedRoots.mpr hr
      rw [hnil] at hr
      cases hr
    rw [hnil]
    exact iff_of_false (by simp [reachabilityGaps]) fun hr => hroots r hr.1
  · obtain ⟨lead, hlead, hgaps⟩ := h.exists_lead hnil
    rw [hgaps]
    simp only [List.mem_map, List.mem_filter, decide_eq_true_eq]
    constructor
    · rintro ⟨r', ⟨hr', hnot⟩, heq⟩
      cases heq
      exact ⟨h.mem_storedRoots.mp hr', lead, hlead, hnot⟩
    · rintro ⟨hr, lead', hlead', hnot⟩
      cases hlead.unique hlead'
      exact ⟨r, ⟨h.mem_storedRoots.mpr hr, hnot⟩, rfl⟩

theorem Questioned.exists_gap [NameFolding] {q : Inquiry} (h : q.Apart) {n : Primitive}
    (hn : n ∈ q.subgraph.nodes) (hquestioned : q.Questioned n) :
    ∃ gap ∈ q.gaps, n ∈ gap.primitives := by
  cases hquestioned with
  | @required d hd =>
      rcases h.filter_depthGaps hn with ⟨d', hgreatest, -⟩ | ⟨hempty, -⟩
      · refine ⟨.depth ⟨n, d', n.contiguousMaxDepth⟩, ?_, by simp [KnowledgeGap.primitives]⟩
        exact h.mem_depth_iff.mpr ⟨hn, hgreatest, rfl⟩
      · exact absurd hd (hempty ▸ Set.notMem_empty d)
  | @source t d ht hd =>
      rcases h.filter_relationalGaps hn ht with ⟨d', hgreatest, -⟩ | ⟨hempty, -⟩
      · refine ⟨.relational ⟨n, t, d', t.contiguousMaxDepth⟩, ?_, by simp [KnowledgeGap.primitives]⟩
        exact h.mem_relational_iff.mpr ⟨⟨hn, ht⟩, hgreatest, rfl⟩
      · exact absurd hd (hempty ▸ Set.notMem_empty d)
  | @target s d hs hd =>
      rcases h.filter_relationalGaps hs hn with ⟨d', hgreatest, -⟩ | ⟨hempty, -⟩
      · refine ⟨.relational ⟨s, n, d', n.contiguousMaxDepth⟩, ?_, by simp [KnowledgeGap.primitives]⟩
        exact h.mem_relational_iff.mpr ⟨⟨hs, hn⟩, hgreatest, rfl⟩
      · exact absurd hd (hempty ▸ Set.notMem_empty d)
  | isolated hlead hroot hapart =>
      exact ⟨.reachability ⟨n⟩, h.mem_reachability_iff.mpr ⟨hroot, _, hlead, hapart⟩,
        by simp [KnowledgeGap.primitives]⟩

/-- What a gap carries is a placeholder or a node that the graph calls into question. -/
theorem Apart.questioned_of_gap [NameFolding] {q : Inquiry} (h : q.Apart) {gap : KnowledgeGap}
    (hgap : gap ∈ q.gaps) {p : Primitive} (hp : p ∈ gap.primitives) :
    p ∈ q.transients ∨ p ∈ q.subgraph.nodes ∧ q.Questioned p := by
  cases gap with
  | existence g =>
      obtain rfl := List.mem_singleton.mp hp
      have hgap := mem_gaps.mp hgap
      rw [KnowledgeGap.kind, gapsOf, h.existenceGaps_eq] at hgap
      obtain ⟨r, hr, heq⟩ := List.mem_map.mp hgap
      cases heq
      exact Or.inl hr
  | depth g =>
      obtain rfl := List.mem_singleton.mp hp
      obtain ⟨hn, hgreatest, -⟩ := h.mem_depth_iff.mp hgap
      exact Or.inr ⟨hn, .required hgreatest.1⟩
  | relational g =>
      obtain ⟨⟨hs, ht⟩, hgreatest, -⟩ := h.mem_relational_iff.mp hgap
      rcases List.mem_pair.mp hp with rfl | rfl
      · exact Or.inr ⟨hs, .source ht hgreatest.1⟩
      · exact Or.inr ⟨ht, .target hs hgreatest.1⟩
  | reachability g =>
      obtain rfl := List.mem_singleton.mp hp
      obtain ⟨hr, lead, hlead, hapart⟩ := h.mem_reachability_iff.mp hgap
      exact Or.inr ⟨h.node_of_root hr, .isolated hlead hr hapart⟩

/-- Only nodes of the frontier are called into question. -/
theorem Questioned.onFrontier [NameFolding] {q : Inquiry} {n : Primitive}
    (h : q.Questioned n) : q.subgraph.OnFrontier n.id := by
  cases h with
  | required hd =>
      rcases hd with ⟨hfrontier, -⟩ | ⟨hroot, -⟩
      · exact hfrontier
      · exact ⟨n, hroot, .refl⟩
  | source _ hd => exact hd.1
  | target _ hd =>
      obtain ⟨⟨r, hr, hpath⟩, e, he, hsees, hsource, htarget, -⟩ := hd
      exact ⟨r, hr, hpath.tail ⟨e, he, hsees, hsource, htarget⟩⟩
  | isolated _ hroot _ => exact ⟨n, hroot, .refl⟩

/-! ## What the response shows -/

theorem Apart.shown_of_step [NameFolding] {q : Inquiry} (h : q.Apart) {e : EpistemicStep}
    (he : e ∈ q.frontierVisible) :
    e.sourceId ∈ q.response.result.primitives.map Primitive.id ∧
      e.targetId ∈ q.response.result.primitives.map Primitive.id := by
  obtain ⟨hedge, ⟨r, hr, hpath⟩, hsees⟩ := h.mem_frontierVisible.mp he
  exact ⟨h.mem_primitives.mpr (Or.inl ⟨r, hr, hpath⟩),
    h.mem_primitives.mpr (Or.inl ⟨r, hr, hpath.tail ⟨e, hedge, hsees, rfl, rfl⟩⟩)⟩

/-- A node of the frontier shows nothing that is hidden, up to its contiguous max depth. -/
theorem Apart.relata_shown [NameFolding] {q : Inquiry} (h : q.Apart)
    (hhydrated : q.subgraph.Hydrated) {n : Primitive} (hn : n ∈ q.subgraph.nodes)
    (hfrontier : q.subgraph.OnFrontier n.id) {d : Depth} (hd : d ∈ n.depths)
    (hmeets : Meets n.contiguousMaxDepth d.level) {r : Relatum} (hr : r ∈ d.relata) :
    r.targetId ∈ q.response.result.primitives.map Primitive.id :=
  (h.shown_of_step (h.toStep_mem hhydrated hn hfrontier hd hmeets hr)).2

/-- The nodes that are called into question have no record above their contiguous max
depth. -/
def Undisclosing [NameFolding] (q : Inquiry) : Prop :=
  ∀ n ∈ q.subgraph.nodes, q.Questioned n → n.Contiguous

/-- What a response carries is a placeholder, or has the id of a frontier node and some of the
records that ground it. -/
theorem Apart.carried_cases [NameFolding] {q : Inquiry} (h : q.Apart)
    (hhydrated : q.subgraph.Hydrated) (hundisclosing : q.Undisclosing) {p : Primitive}
    (hp : p ∈ q.response.result.embedded) : p ∈ q.transients ∨
      ∃ n ∈ q.subgraph.nodes, q.subgraph.OnFrontier n.id ∧ n.id = p.id ∧
        ∀ d ∈ p.depths, d ∈ n.depths ∧ Meets n.contiguousMaxDepth d.level := by
  rcases List.mem_append.mp hp with hshown | hcarried
  · rcases (h.shown_iff hhydrated).mp hshown with ⟨n, hn, hfrontier, rfl⟩ | htransient
    · refine Or.inr ⟨n, hn, hfrontier, rfl, fun d hd => ?_⟩
      exact ⟨(List.mem_filter.mp hd).1, of_decide_eq_true (List.mem_filter.mp hd).2⟩
    · exact Or.inl htransient
  · obtain ⟨gap, hgap, hmem⟩ := List.mem_flatMap.mp hcarried
    apply (h.questioned_of_gap hgap hmem).imp_right
    intro hquestioned
    obtain ⟨hn, hquestioned⟩ := hquestioned
    exact ⟨p, hn, hquestioned.onFrontier, rfl,
      fun d hd => ⟨hd, hundisclosing p hn hquestioned d hd⟩⟩

theorem Apart.justified_iff [NameFolding] {q : Inquiry} (h : q.Apart)
    (hhydrated : q.subgraph.Hydrated) :
    q.response.result.Justified q.subgraph ↔ q.Undisclosing := by
  constructor
  · intro hjustified n hn hquestioned d hd
    obtain ⟨gap, hgap, hmem⟩ := hquestioned.exists_gap h hn
    have hmeets := hjustified.depths n
      (List.mem_append_right _ (List.mem_flatMap.mpr ⟨gap, hgap, hmem⟩)) d hd
    rwa [h.coherent.depthAt_eq hn] at hmeets
  · intro hundisclosing
    refine ⟨fun p hp d hd => ?_, fun p hp d hd r hr => ?_, fun p hp => ?_,
      fun e he => h.shown_of_step he⟩
    all_goals rcases h.carried_cases hhydrated hundisclosing hp with
      ht | ⟨n, hn, hfrontier, hid, hdepths⟩
    · rw [(mem_transients h.coherent ht).2.2] at hd
      cases hd
    · rw [← hid, h.coherent.depthAt_eq hn]
      exact (hdepths d hd).2
    · rw [(mem_transients h.coherent ht).2.2] at hd
      cases hd
    · exact h.relata_shown hhydrated hn hfrontier (hdepths d hd).1 (hdepths d hd).2 hr
    · exact h.mem_primitives.mpr (Or.inr (List.mem_map_of_mem ht))
    · exact h.mem_primitives.mpr (Or.inl (hid ▸ hfrontier))

end Inquiry

/-- A response surfaces only what is grounded exactly when no node that the graph calls into
question has a record above its contiguous max depth. -/
theorem query_justified_iff [NameFolding] {db : SqliteRepository} (h : db.tables.Schema)
    {draw : Draw} (hfresh : draw.Fresh db.tables) (concepts : List String)
    (minDepth : Option DepthLevel) :
    ∃ sg response, Repository.resolveSubgraph db concepts = .ok sg ∧
      query draw db concepts minDepth = .ok response ∧
      (response.result.Justified sg ↔
        (db.tables.inquiry draw concepts minDepth).Undisclosing) :=
  ⟨_, _, resolveSubgraph_eq h concepts, query_eq h draw concepts minDepth,
    (hfresh.apart h concepts minDepth).justified_iff (db.tables.hydrated_subgraph concepts)⟩

/-- `Delete`, grounded to D0, is constrained by `Permission` from D3. -/
def gatedDelete [NameFolding] : SqliteRepository :=
  List.foldl Operation.next .fresh
    [.save (sample 0 "Permission" [.existence] []),
      .save (sample 1 "Delete" [.existence, .constraints]
        [⟨.constrainedBy, 0, .existence, [], some authored⟩])]

theorem sound_gatedDelete [NameFolding] : gatedDelete.Sound := Operation.sound_foldl _

def askDelete [NameFolding] (concepts : List String) : Inquiry :=
  gatedDelete.tables.inquiry ⟨fun i => i + 5, 0⟩ concepts none

/-- The depth gap about `Delete` carries its D3, and with it the id of `Permission`. -/
theorem not_query_justified_gatedDelete : letI := asciiFolding
    ∃ sg response, Repository.resolveSubgraph gatedDelete ["delete"] = .ok sg ∧
      query ⟨fun i => i + 5, 0⟩ gatedDelete ["delete"] none = .ok response ∧
      ¬ response.result.Justified sg := by
  have hleak : letI := asciiFolding
      ∃ p ∈ (askDelete ["delete"]).response.result.embedded, ∃ d ∈ p.depths, ∃ r ∈ d.relata,
        r.targetId ∉ (askDelete ["delete"]).response.result.primitives.map Primitive.id := by
    decide +kernel
  let _ := asciiFolding
  have hschema := sound_gatedDelete.2.toSchema
  refine ⟨_, _, resolveSubgraph_eq hschema _, query_eq hschema _ _ _, fun hjustified => ?_⟩
  obtain ⟨p, hp, d, hd, r, hr, hhidden⟩ := hleak
  exact hhidden (hjustified.relata p hp d hd r hr)

/-- `Permission` on its own hides nothing. -/
theorem query_justified_gatedDelete : letI := asciiFolding
    ∃ sg response, Repository.resolveSubgraph gatedDelete ["permission"] = .ok sg ∧
      query ⟨fun i => i + 5, 0⟩ gatedDelete ["permission"] none = .ok response ∧
      response.result.Justified sg := by
  have hcontiguous : letI := asciiFolding
      ∀ n ∈ (askDelete ["permission"]).subgraph.nodes, n.Contiguous := by decide +kernel
  let _ := asciiFolding
  have hfresh : Draw.Fresh ⟨fun i => i + 5, 0⟩ gatedDelete.tables :=
    Draw.fresh_above 0 (by decide)
  obtain ⟨sg, response, hsg, hquery, hiff⟩ :=
    query_justified_iff sound_gatedDelete.2.toSchema hfresh ["permission"] none
  exact ⟨sg, response, hsg, hquery, hiff.mpr fun n hn _ => hcontiguous n hn⟩

end GroundingEngine

end Vre
