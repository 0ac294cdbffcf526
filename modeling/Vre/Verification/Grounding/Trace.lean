import Vre.Verification.Grounding.Envelope
import Vre.Verification.Grounding.Requirements

/-! # The trace of a query

The primitives of a response are the frontier, each cut down to the depths it is grounded to,
and the placeholders. The relata they show are the steps of the pathway.
-/

namespace Vre

/-! ## The envelope of a primitive -/

/-- The primitive with the depths that it is grounded to. -/
def Primitive.envelope (p : Primitive) : Primitive :=
  { p with depths := p.depths.filter fun d => Meets p.contiguousMaxDepth d.level }

/-- Cutting a primitive down to its envelope leaves its contiguous max depth. -/
theorem contiguousMaxDepth_envelope (p : Primitive) :
    p.envelope.contiguousMaxDepth = p.contiguousMaxDepth := by
  have hlevels : ∀ l, l ∈ p.envelope.groundingLevels ↔
      l ∈ p.groundingLevels ∧ Meets p.contiguousMaxDepth l := by
    intro l
    simp only [mem_groundingLevels, Primitive.envelope, List.mem_filter, decide_eq_true_eq]
    constructor
    · rintro ⟨d, ⟨hd, hmeets⟩, hgrounds, rfl⟩
      exact ⟨⟨d, hd, hgrounds, rfl⟩, hmeets⟩
    · rintro ⟨⟨d, hd, hgrounds, rfl⟩, hmeets⟩
      exact ⟨d, ⟨hd, hmeets⟩, hgrounds, rfl⟩
  apply eq_of_meets
  intro d
  rw [meets_contiguousMaxDepth]
  constructor
  · intro hall
    exact ((hlevels d).mp (hall d le_rfl)).2
  · intro hmeets l hl
    exact (hlevels l).mpr ⟨meets_contiguousMaxDepth.mp hmeets l hl, hmeets.of_le hl⟩

/-! ## The steps a primitive shows -/

/-- The step that a relatum of a primitive stands for. -/
def Relatum.toStep (source : UUID) (level : DepthLevel) (r : Relatum) : EpistemicStep :=
  ⟨source, r.targetId, r.relationType, level, r.targetDepth⟩

def Primitive.steps (p : Primitive) : List EpistemicStep :=
  p.depths.flatMap fun d => d.relata.map (Relatum.toStep p.id d.level)

/-- Each node has one record at a level, and shows there the edges that leave it from there. -/
structure ResolvedSubgraph.Hydrated (sg : ResolvedSubgraph) : Prop where
  ascending : ∀ n ∈ sg.nodes, n.depths.Pairwise fun a b => a.level < b.level
  relata : ∀ n ∈ sg.nodes, ∀ d ∈ n.depths, d.relata.map (Relatum.toStep n.id d.level) =
    sg.edges.filter fun e => e.sourceId = n.id ∧ e.sourceDepth = d.level

/-- The subgraph of a store shows every relatum of the closure at its node. -/
theorem Tables.hydrated_subgraph [NameFolding] (t : Tables) (names : List String) :
    (t.subgraph names).Hydrated := by
  constructor
  · intro n hn
    obtain ⟨row, -, -, rfl⟩ := mem_closureNodes.mp hn
    exact pairwise_depths_load row _
  · intro n hn d hd
    obtain ⟨row, -, hinside, rfl⟩ := mem_closureNodes.mp hn
    have hid : row.id ∈ Sqlite.reachableIds t names := mem_reachableIds.mpr hinside
    rw [relata_of_mem_load hd, relataAt, List.map_map]
    have hedges : ((t.subgraph names).edges.filter fun e =>
        e.sourceId = row.id ∧ e.sourceDepth = d.level) =
          ((t.inner names row.id).filter fun rel => rel.sourceDepth = d.level).map
            RelatumRow.toStep := by
      rw [subgraph, List.filter_map, closureRelata, inner, outgoing, List.filter_filter,
        List.filter_filter, List.filter_filter]
      refine congrArg _ (List.filter_congr fun rel _ => ?_)
      by_cases hsource : rel.sourceId = row.id
      · simp [RelatumRow.toStep, hsource, hid]
      · simp [RelatumRow.toStep, hsource]
    rw [nodeRow_id, hedges]
    apply List.map_congr_left
    intro rel hrel
    obtain ⟨hmem, hlevel⟩ := List.mem_filter.mp hrel
    rw [← of_decide_eq_true hlevel, ← (mem_inner.mp hmem).2.1]
    rfl

namespace GroundingEngine

namespace Inquiry

/-! ## The surviving nodes -/

/-- The ids of the nodes that survive. -/
def survivingIds [NameFolding] (q : Inquiry) : List UUID :=
  (q.allNodes.filter fun n => n.id ∈ q.frontier).map Primitive.id

theorem mem_survivingIds [NameFolding] {q : Inquiry} {id : UUID} :
    id ∈ q.survivingIds ↔ id ∈ q.allNodes.map Primitive.id ∧ id ∈ q.frontier := by
  simp only [survivingIds, List.mem_map, List.mem_filter, decide_eq_true_eq]
  constructor
  · rintro ⟨n, ⟨hn, hfrontier⟩, rfl⟩
    exact ⟨⟨n, hn, rfl⟩, hfrontier⟩
  · rintro ⟨⟨n, hn, rfl⟩, hfrontier⟩
    exact ⟨n, ⟨hn, hfrontier⟩, rfl⟩

/-- What a node shows at a depth it is grounded to is in the pathway. -/
theorem Apart.toStep_mem [NameFolding] {q : Inquiry} (h : q.Apart)
    (hhydrated : q.subgraph.Hydrated) {n : Primitive} (hn : n ∈ q.subgraph.nodes)
    (hfrontier : q.subgraph.OnFrontier n.id) {d : Depth} (hd : d ∈ n.depths)
    (hmeets : Meets n.contiguousMaxDepth d.level) {r : Relatum} (hr : r ∈ d.relata) :
    r.toStep n.id d.level ∈ q.frontierVisible := by
  have hmem := List.mem_map_of_mem (f := Relatum.toStep n.id d.level) hr
  rw [hhydrated.relata n hn d hd] at hmem
  refine h.mem_frontierVisible.mpr ⟨(List.mem_filter.mp hmem).1, hfrontier, ?_⟩
  rwa [ResolvedSubgraph.Sees, Relatum.toStep, h.coherent.depthAt_eq hn]

/-- A node on the frontier loses no relatum at the depths it is grounded to. -/
theorem Apart.filterNode_eq [NameFolding] {q : Inquiry} (h : q.Apart)
    (hhydrated : q.subgraph.Hydrated) {n : Primitive} (hn : n ∈ q.subgraph.nodes)
    (hfrontier : q.subgraph.OnFrontier n.id) : filterNode q.survivingIds n = n.envelope := by
  have hkept : ∀ d ∈ n.depths, Meets n.contiguousMaxDepth d.level →
      d.relata.filter (fun r => r.targetId ∈ q.survivingIds) = d.relata := by
    intro d hd hmeets
    refine List.filter_eq_self.mpr fun r hr => decide_eq_true (mem_survivingIds.mpr ?_)
    have hstep := h.toStep_mem hhydrated hn hfrontier hd hmeets hr
    obtain ⟨n', hn', hid⟩ := h.target_stored (Inquiry.mem_frontierVisible.mp hstep).1
    exact ⟨List.mem_map.mpr ⟨n', List.mem_append_left _ hn', hid⟩, target_mem_frontier hstep⟩
  unfold filterNode Primitive.envelope
  cases hmax : n.contiguousMaxDepth with
  | none => simp
  | some cmax =>
      simp only [meets_some, Primitive.mk.injEq, true_and, and_true]
      refine (List.map_congr_left fun d hd => ?_).trans (List.map_id _)
      obtain ⟨hd, hle⟩ := List.mem_filter.mp hd
      rw [hkept d hd (hmax ▸ of_decide_eq_true hle)]
      rfl

theorem filterNode_of_bare {ids : List UUID} {p : Primitive} (h : p.depths = []) :
    filterNode ids p = p := by
  obtain ⟨id, name, depths, provenance, metrics⟩ := p
  cases h
  rfl

/-- The primitives of the response: the frontier, cut down to what it is grounded to, and the
placeholders. -/
theorem Apart.primitives_eq [NameFolding] {q : Inquiry} (h : q.Apart)
    (hhydrated : q.subgraph.Hydrated) : q.response.result.primitives =
      (q.subgraph.nodes.filter fun n => n.id ∈ q.frontier).map Primitive.envelope ++
        q.transients := by
  have htransients : q.transients.filter (fun r => r.id ∈ q.frontier) = q.transients :=
    List.filter_eq_self.mpr fun r hr => decide_eq_true
      (root_mem_frontier (mem_rootIds_of_transient h.coherent (List.mem_map_of_mem hr)))
  change (q.allNodes.filter fun n => n.id ∈ q.frontier).map (filterNode q.survivingIds) = _
  rw [allNodes, List.filter_append, htransients, List.map_append]
  refine congrArg₂ _ (List.map_congr_left fun n hn => ?_) ?_
  · obtain ⟨hn, hfrontier⟩ := List.mem_filter.mp hn
    exact h.filterNode_eq hhydrated hn ((h.onFrontier_iff hn).mp (of_decide_eq_true hfrontier))
  · refine (List.map_congr_left fun r hr => ?_).trans (List.map_id _)
    exact filterNode_of_bare (mem_transients h.coherent hr).2.2

/-- What a query shows: the frontier nodes, cut down, and the placeholders. -/
theorem Apart.shown_iff [NameFolding] {q : Inquiry} (h : q.Apart)
    (hhydrated : q.subgraph.Hydrated) {p : Primitive} : p ∈ q.response.result.primitives ↔
      (∃ n ∈ q.subgraph.nodes, q.subgraph.OnFrontier n.id ∧ p = n.envelope) ∨
        p ∈ q.transients := by
  rw [h.primitives_eq hhydrated, List.mem_append, List.mem_map]
  refine or_congr_left (exists_congr fun n => ?_)
  rw [List.mem_filter, decide_eq_true_eq, and_assoc]
  apply and_congr_right
  intro hn
  rw [h.onFrontier_iff hn, eq_comm (a := p)]

theorem Apart.nodup_primitives [NameFolding] {q : Inquiry} (h : q.Apart)
    (hhydrated : q.subgraph.Hydrated) :
    (q.response.result.primitives.map Primitive.id).Nodup := by
  rw [h.primitives_eq hhydrated, List.map_append, List.map_map]
  refine List.nodup_append.mpr
    ⟨h.coherent.nodup_ids.sublist (List.filter_sublist.map _), h.distinct, ?_⟩
  rintro a ha b hb rfl
  obtain ⟨n, hn, rfl⟩ := List.mem_map.mp ha
  exact h.stored n (List.mem_filter.mp hn).1 hb

/-- No node shares the name of a placeholder. -/
theorem Apart.filter_primitives [NameFolding] {q : Inquiry} (h : q.Apart)
    (hhydrated : q.subgraph.Hydrated) {r : Primitive} (hr : r ∈ q.transients) :
    (q.response.result.primitives.filter fun p => p.nameLower = r.nameLower) = [r] := by
  have hothers : ((q.subgraph.nodes.filter fun n => n.id ∈ q.frontier).map
      Primitive.envelope).filter (fun p => p.nameLower = r.nameLower) = [] := by
    apply List.filter_eq_nil_iff.mpr
    intro p hp hsame
    obtain ⟨n, hn, rfl⟩ := List.mem_map.mp hp
    exact (mem_transients h.coherent hr).2.1 n (List.mem_filter.mp hn).1
      (of_decide_eq_true hsame)
  rw [h.primitives_eq hhydrated, List.filter_append, hothers, List.nil_append,
    filter_transients h.coherent hr]

/-! ## The pathway, read off the primitives -/

/-- The edges out of a frontier node at a depth it is grounded to are all in the pathway. -/
theorem Apart.filter_frontierVisible [NameFolding] {q : Inquiry} (h : q.Apart) {n : Primitive}
    (hn : n ∈ q.subgraph.nodes) (hfrontier : q.subgraph.OnFrontier n.id) {level : DepthLevel}
    (hmeets : Meets n.contiguousMaxDepth level) :
    ((q.frontierVisible.filter fun e => e.sourceId = n.id).filter
      fun e => e.sourceDepth = level) =
        q.subgraph.edges.filter fun e => e.sourceId = n.id ∧ e.sourceDepth = level := by
  rw [frontierVisible, visible, partitionEdges, List.filter_filter, List.filter_filter,
    List.filter_filter]
  apply List.filter_congr
  intro e _
  by_cases hsource : e.sourceId = n.id
  · by_cases hdepth : e.sourceDepth = level
    · have hsees : isVisible (idToPrim q.allNodes) e = true := by
        rw [← h.depth_eq hn, depth] at hmeets
        exact decide_eq_true (hsource.symm ▸ hdepth.symm ▸ hmeets)
      simp [hsource, hdepth, (h.onFrontier_iff hn).mpr hfrontier, hsees]
    · simp [hdepth]
  · simp [hsource]

/-- A node shows the steps of the pathway that leave it. -/
theorem Apart.perm_steps_envelope [NameFolding] {q : Inquiry} (h : q.Apart)
    (hhydrated : q.subgraph.Hydrated) {n : Primitive} (hn : n ∈ q.subgraph.nodes)
    (hfrontier : q.subgraph.OnFrontier n.id) :
    n.envelope.steps.Perm (q.frontierVisible.filter fun e => e.sourceId = n.id) := by
  have hlevels : n.envelope.steps = (n.envelope.depths.map Depth.level).flatMap fun level =>
      (q.frontierVisible.filter fun e => e.sourceId = n.id).filter
        fun e => e.sourceDepth = level := by
    rw [Primitive.steps, List.flatMap_map]
    apply List.flatMap_congr
    intro d hd
    obtain ⟨hd, hmeets⟩ := List.mem_filter.mp hd
    rw [h.filter_frontierVisible hn hfrontier (of_decide_eq_true hmeets)]
    exact hhydrated.relata n hn d hd
  have hdistinct : (n.envelope.depths.map Depth.level).Nodup :=
    List.pairwise_map.mpr (((hhydrated.ascending n hn).filter _).imp fun hlt => hlt.ne)
  rw [hlevels]
  apply OrderedDict.perm_flatMap_filter EpistemicStep.sourceDepth hdistinct
  intro e he
  obtain ⟨he, hsource⟩ := List.mem_filter.mp he
  have hsees := (h.mem_frontierVisible.mp he).2.2
  rw [ResolvedSubgraph.Sees, of_decide_eq_true hsource, h.coherent.depthAt_eq hn] at hsees
  -- a level that the depth meets has a record
  obtain ⟨d, hd, -, hlevel⟩ :=
    mem_groundingLevels.mp (meets_contiguousMaxDepth.mp hsees e.sourceDepth le_rfl)
  exact List.mem_map.mpr ⟨d, List.mem_filter.mpr ⟨hd, decide_eq_true (hlevel ▸ hsees)⟩, hlevel⟩

/-- The relata that the primitives show are the steps of the pathway. -/
theorem Apart.perm_steps [NameFolding] {q : Inquiry} (h : q.Apart)
    (hhydrated : q.subgraph.Hydrated) :
    (q.response.result.primitives.flatMap Primitive.steps).Perm q.frontierVisible := by
  have hbare : q.transients.flatMap Primitive.steps = [] := by
    apply List.flatMap_eq_nil_iff.mpr
    intro r hr
    rw [Primitive.steps, (mem_transients h.coherent hr).2.2, List.flatMap_nil]
  rw [h.primitives_eq hhydrated, List.flatMap_append, hbare, List.append_nil, List.flatMap_map]
  have hnodes : ((q.subgraph.nodes.filter fun n => n.id ∈ q.frontier).flatMap
      fun n => n.envelope.steps).Perm
        (((q.subgraph.nodes.filter fun n => n.id ∈ q.frontier).map Primitive.id).flatMap
          fun id => q.frontierVisible.filter fun e => e.sourceId = id) := by
    rw [List.flatMap_map]
    apply List.Perm.flatMap_left _
    intro n hn
    obtain ⟨hn, hfrontier⟩ := List.mem_filter.mp hn
    exact h.perm_steps_envelope hhydrated hn
      ((h.onFrontier_iff hn).mp (of_decide_eq_true hfrontier))
  have hdistinct : ((q.subgraph.nodes.filter fun n => n.id ∈ q.frontier).map Primitive.id).Nodup :=
    h.coherent.nodup_ids.sublist (List.filter_sublist.map _)
  refine hnodes.trans (OrderedDict.perm_flatMap_filter EpistemicStep.sourceId hdistinct ?_)
  intro e he
  obtain ⟨hedge, hfrontier, -⟩ := Inquiry.mem_frontierVisible.mp he
  obtain ⟨n, hn, hid⟩ := h.source_stored hedge
  exact List.mem_map.mpr ⟨n, List.mem_filter.mpr ⟨hn, decide_eq_true (hid ▸ hfrontier)⟩, hid⟩

end Inquiry

/-- The trace of a query: the frontier of the resolved subgraph, each primitive cut down to
what it is grounded to, a placeholder for each unknown concept, and the pathway that the
relata of these spell out. -/
structure FaithfulTrace [NameFolding] (db : SqliteRepository) (concepts : List String)
    (sg : ResolvedSubgraph) (response : EpistemicResponse) : Prop where
  once : (response.result.primitives.map Primitive.id).Nodup
  frontier : ∀ id, sg.OnFrontier id ↔
    ∃ n ∈ sg.nodes, n.id = id ∧ n.envelope ∈ response.result.primitives
  depth : ∀ n ∈ sg.nodes, n.envelope.contiguousMaxDepth = n.contiguousMaxDepth
  placeholder : ∀ c ∈ concepts, Repository.findByName db c = .ok none →
    ∃ p, (response.result.primitives.filter fun p => p.nameLower = foldName c) = [p] ∧
      p.depths = [] ∧ ∀ n ∈ sg.nodes, n.id ≠ p.id
  origin : ∀ p ∈ response.result.primitives, (∃ n ∈ sg.nodes, sg.OnFrontier n.id ∧
      p = n.envelope) ∨
    ∃ c ∈ concepts, p.nameLower = foldName c ∧ Repository.findByName db c = .ok none
  closed : response.Closed
  twice : (response.result.primitives.flatMap Primitive.steps).Perm response.result.pathway

/-- Every query shows such a trace. -/
theorem query_faithfulTrace [NameFolding] {db : SqliteRepository} (h : db.tables.Schema)
    {draw : Draw} (hfresh : draw.Fresh db.tables) (concepts : List String)
    (minDepth : Option DepthLevel) :
    ∃ sg response, Repository.resolveSubgraph db concepts = .ok sg ∧
      query draw db concepts minDepth = .ok response ∧
      FaithfulTrace db concepts sg response := by
  have hquery := query_eq h draw concepts minDepth
  refine ⟨_, _, resolveSubgraph_eq h concepts, hquery, ?_⟩
  have hapart := hfresh.apart h concepts minDepth
  have hhydrated := db.tables.hydrated_subgraph concepts
  refine ⟨hapart.nodup_primitives hhydrated, fun id => ⟨fun hid => ?_, ?_⟩,
    fun n _ => contiguousMaxDepth_envelope n, fun c hc hnone => ?_, fun p hp => ?_,
    closed_of_query hquery, hapart.perm_steps hhydrated⟩
  · obtain ⟨n, hn, rfl⟩ := hapart.onFrontier_stored hid
    exact ⟨n, hn, rfl, (hapart.shown_iff hhydrated).mpr (Or.inl ⟨n, hn, hid, rfl⟩)⟩
  · rintro ⟨n, hn, rfl, hmem⟩
    rcases (hapart.shown_iff hhydrated).mp hmem with ⟨n', -, hfrontier, hsame⟩ | hmem
    · have hid : n.envelope.id = n'.envelope.id := congrArg Primitive.id hsame
      exact (hid : n.id = n'.id) ▸ hfrontier
    · exact absurd (List.mem_map_of_mem hmem) (hapart.stored n hn)
  · obtain ⟨r, hr, hname⟩ := List.mem_map.mp ((unknown_iff h draw minDepth hc).mpr hnone)
    have hbare := (Inquiry.mem_transients hapart.coherent hr).2.2
    refine ⟨r, hname ▸ hapart.filter_primitives hhydrated hr, hbare, fun n hn hid => ?_⟩
    exact hapart.stored n hn (hid ▸ List.mem_map_of_mem hr)
  · exact ((hapart.shown_iff hhydrated).mp hp).imp_right (unknown_of_transient h)

theorem query_faithfulTrace_outlyingLog : letI := asciiFolding
    ∃ sg response, Repository.resolveSubgraph outlyingLog ["copy", "Paper"] = .ok sg ∧
      query ⟨fun i => i + 5, 0⟩ outlyingLog ["copy", "Paper"] (some .identity) = .ok response ∧
      FaithfulTrace outlyingLog ["copy", "Paper"] sg response := by
  let _ := asciiFolding
  have hfresh : Draw.Fresh ⟨fun i => i + 5, 0⟩ outlyingLog.tables :=
    Draw.fresh_above 0 (by decide)
  exact query_faithfulTrace sound_outlyingLog.2.toSchema hfresh _ _

end GroundingEngine

end Vre
