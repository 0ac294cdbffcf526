import Vre.Verification.Grounding.Gaps
import Vre.Verification.Store.Closure
import Vre.Verification.Store.Runs

/-! # Grounding is closure-strict

The engine looks for gaps on the frontier it can see. A query without gaps has nevertheless
seen the whole transitive closure, and every relatum inside it is satisfied.
-/

namespace Vre

namespace GroundingEngine

/-! ## Connectivity -/

theorem mem_neighborsOf {edges : List EpistemicStep} {a b : UUID} :
    b ∈ neighborsOf edges a ↔ Digraph.Linked (StepEdge edges) a b := by
  simp only [neighborsOf, List.mem_flatMap, List.mem_append, List.mem_ite_nil_right,
    List.mem_singleton, Digraph.Linked, StepEdge, and_or_left, exists_or]
  simp only [eq_comm (a := b), and_comm (a := (_ : UUID) = b)]

/-- A neighbour is an end of some edge. -/
theorem end_of_mem_neighborsOf {edges : List EpistemicStep} {a b : UUID}
    (h : b ∈ neighborsOf edges a) : b ∈ edges.flatMap fun e => [e.sourceId, e.targetId] := by
  rcases mem_neighborsOf.mp h with ⟨e, he, -, rfl⟩ | ⟨e, he, rfl, -⟩
  · exact List.mem_flatMap.mpr ⟨e, he, by simp⟩
  · exact List.mem_flatMap.mpr ⟨e, he, by simp⟩

/-- The undirected search finds the connected component. -/
theorem mem_reachableUndirected {edges : List EpistemicStep} {root id : UUID} :
    id ∈ reachableUndirected root edges ↔ Digraph.Connected (StepEdge edges) root id := by
  have hrel : (fun a b => b ∈ neighborsOf edges a) = Digraph.Linked (StepEdge edges) := by
    funext a b
    exact propext mem_neighborsOf
  rw [reachableUndirected, Worklist.mem_search fun _ _ _ => end_of_mem_neighborsOf,
    Worklist.Reach, hrel]
  simp [Digraph.Connected]

theorem nodup_reachableUndirected (root : UUID) (edges : List EpistemicStep) :
    (reachableUndirected root edges).Nodup :=
  Worklist.nodup_search fun _ _ _ => end_of_mem_neighborsOf

theorem firstMax_mem {α : Type} (key : α → ℕ) (best : α) (rest : List α) :
    firstMax key best rest ∈ best :: rest := by
  induction rest generalizing best with
  | nil => simp [firstMax]
  | cons x rest ih =>
      unfold firstMax
      split
      · exact List.mem_cons_of_mem best (ih x)
      · rcases List.mem_cons.mp (ih best) with hbest | hrest
        · simp [hbest]
        · exact List.mem_cons_of_mem best (List.mem_cons_of_mem x hrest)

/-- No root is reported as unreachable exactly when all roots share one component: the
choice of the anchor does not matter. -/
theorem reachabilityGaps_eq_nil {roots : List Primitive} {edges : List EpistemicStep} :
    reachabilityGaps roots edges = [] ↔
      ∀ r ∈ roots, ∀ r' ∈ roots, Digraph.Connected (StepEdge edges) r.id r'.id := by
  match roots with
  | [] => simp [reachabilityGaps]
  | [r] =>
      simp only [reachabilityGaps, List.mem_singleton, forall_eq, true_iff]
      exact .refl
  | first :: second :: rest =>
      have hanchor := firstMax_mem (fun r => (reachableUndirected r.id edges).length) first
        (second :: rest)
      simp only [reachabilityGaps, List.map_eq_nil_iff, List.filter_eq_nil_iff, decide_eq_true_eq,
        mem_reachableUndirected]
      generalize firstMax (fun r => (reachableUndirected r.id edges).length) first
        (second :: rest) = anchor at hanchor ⊢
      constructor
      · intro hall
        have hjoin : ∀ r ∈ first :: second :: rest,
            Digraph.Connected (StepEdge edges) anchor.id r.id := by
          intro r hr
          by_contra hnot
          refine hall r hr ⟨fun heq => hnot ?_, hnot⟩
          rw [heq]
          exact .refl
        exact fun r hr r' hr' => (hjoin r hr).symm.trans (hjoin r' hr')
      · exact fun hall r hr hnot => hnot.2 (hall anchor hanchor r hr)

end GroundingEngine

/-! ## The subgraph of a store -/

/-- The contiguous max depth of a node, as the subgraph returns it. -/
def ResolvedSubgraph.depthAt (sg : ResolvedSubgraph) (id : UUID) : Option DepthLevel :=
  (sg.nodes.find? fun n => n.id = id).bind Primitive.contiguousMaxDepth

theorem ResolvedSubgraph.Coherent.depthAt_eq [NameFolding] {sg : ResolvedSubgraph}
    {concepts : List String} (h : sg.Coherent concepts) {n : Primitive} (hn : n ∈ sg.nodes) :
    sg.depthAt n.id = n.contiguousMaxDepth := by
  cases hfind : sg.nodes.find? fun m => m.id = n.id with
  | none =>
      have hne := List.find?_eq_none.mp hfind n hn
      simp at hne
  | some found =>
      have hid : found.id = n.id := by simpa using List.find?_some hfind
      have heq := List.inj_on_of_nodup_map h.nodup_ids (List.mem_of_find?_eq_some hfind) hn hid
      rw [ResolvedSubgraph.depthAt, hfind, heq]
      rfl

namespace Tables

theorem Schema.coherent [NameFolding] {t : Tables} (h : t.Schema) (names : List String) :
    (t.subgraph names).Coherent names := by
  have hids : (t.closureNodes names).map Primitive.id =
      (t.primitives.filter fun row => row.id ∈ Sqlite.reachableIds t names).map
        PrimitiveRow.id := by
    simp [closureNodes, Function.comp_def]
  have hnames : (t.closureNodes names).map Primitive.nameLower =
      (t.primitives.filter fun row => row.id ∈ Sqlite.reachableIds t names).map
        PrimitiveRow.nameLower := by
    rw [closureNodes, List.map_map]
    apply List.map_congr_left
    intro row hrow
    exact h.nameLower_nodeRow names (List.mem_filter.mp hrow).1
  have hnode : ∀ id, t.InClosure names id → id ∈ (t.closureNodes names).map Primitive.id := by
    intro id hid
    obtain ⟨row, hrow, rfl⟩ := hid.stored h
    exact List.mem_map.mpr ⟨_, mem_closureNodes.mpr ⟨row, hrow, hid, rfl⟩, rfl⟩
  refine ⟨?_, ?_, rfl, ?_, ?_⟩
  · exact hids ▸ h.nodup_ids.sublist (List.filter_sublist.map _)
  · exact hnames ▸ h.nodup_names.sublist (List.filter_sublist.map _)
  · intro e he
    obtain ⟨rel, hrel, rfl⟩ := List.mem_map.mp he
    exact hnode _ (mem_closureRelata.mp hrel).2.1
  · intro e he
    obtain ⟨rel, hrel, rfl⟩ := List.mem_map.mp he
    exact hnode _ (mem_closureRelata.mp hrel).2.2

/-- A relatum between two primitives of the closure. -/
def ClosureEdge [NameFolding] (t : Tables) (names : List String) (a b : UUID) : Prop :=
  ∃ rel ∈ t.closureRelata names, rel.sourceId = a ∧ rel.targetId = b

/-- The verdict that the documentation promises, over the whole closure of the concepts and
the depths `m`. -/
structure ClosureStrict [NameFolding] (t : Tables) (concepts : List String)
    (minDepth : Option DepthLevel) (m : UUID → Option DepthLevel) : Prop where
  nonempty : concepts ≠ []
  stored : ∀ c ∈ concepts, ∃ row ∈ t.primitives, row.nameLower = foldName c
  edges : ∀ rel ∈ t.relata, t.InClosure concepts rel.sourceId → t.InClosure concepts rel.targetId →
    Meets (m rel.sourceId) rel.sourceDepth ∧ Meets (m rel.targetId) rel.targetDepth
  floor : ∀ floor, minDepth = some floor → ∀ id, t.Named concepts id → Meets (m id) floor
  connected : ∀ a b, t.Named concepts a → t.Named concepts b →
    Digraph.Connected (t.ClosureEdge concepts) a b

/-! ## Queries of a store -/

/-- A query of the store, after its subgraph is resolved. -/
def inquiry [NameFolding] (t : Tables) (draw : Draw) (concepts : List String)
    (minDepth : Option DepthLevel) : GroundingEngine.Inquiry :=
  ⟨draw, concepts, minDepth, t.subgraph concepts⟩

theorem mem_roots_subgraph [NameFolding] {t : Tables} (h : t.Schema) {names : List String}
    {r : Primitive} : r ∈ (t.subgraph names).roots ↔
      ∃ row ∈ t.primitives, row.nameLower ∈ names.map foldName ∧ t.nodeRow names row = r := by
  simp only [subgraph, List.mem_filter, mem_closureNodes, decide_eq_true_eq]
  constructor
  · rintro ⟨⟨row, hrow, -, rfl⟩, hname⟩
    exact ⟨row, hrow, h.nameLower_nodeRow names hrow ▸ hname, rfl⟩
  · rintro ⟨row, hrow, hname, rfl⟩
    have hnamed : t.Named names row.id := ⟨row, hrow, rfl, hname⟩
    exact ⟨⟨row, hrow, hnamed.inClosure, rfl⟩, (h.nameLower_nodeRow names hrow).symm ▸ hname⟩

theorem named_iff_root [NameFolding] {t : Tables} (h : t.Schema) {names : List String}
    {id : UUID} : t.Named names id ↔ id ∈ (t.subgraph names).roots.map Primitive.id := by
  constructor
  · rintro ⟨row, hrow, rfl, hname⟩
    exact List.mem_map.mpr ⟨_, (mem_roots_subgraph h).mpr ⟨row, hrow, hname, rfl⟩, rfl⟩
  · intro hid
    obtain ⟨r, hr, rfl⟩ := List.mem_map.mp hid
    obtain ⟨row, hrow, hname, rfl⟩ := (mem_roots_subgraph h).mp hr
    exact ⟨row, hrow, rfl, hname⟩

end Tables

namespace GroundingEngine

open Tables

/-- Without placeholders the roots of the query are the named primitives. -/
theorem mem_rootIds [NameFolding] {t : Tables} (h : t.Schema) {draw : Draw}
    {concepts : List String} {minDepth : Option DepthLevel}
    (hknown : (t.inquiry draw concepts minDepth).transients = []) {id : UUID} :
    id ∈ (t.inquiry draw concepts minDepth).rootIds ↔ t.Named concepts id := by
  have hspec := (identifyRoots_spec (h.coherent concepts) draw).1
  have hroots : ∀ r, r ∈ (t.inquiry draw concepts minDepth).roots ↔
      r ∈ (t.subgraph concepts).roots := by
    intro r
    refine (hspec r).trans ⟨fun hr => hr.elim (fun ht => ?_) fun hr => hr, Or.inr⟩
    have ht : r ∈ (t.inquiry draw concepts minDepth).transients := ht
    rw [hknown] at ht
    cases ht
  simp only [Inquiry.rootIds, named_iff_root h, List.mem_map, hroots]

/-- A submitted name is missing from the subgraph exactly when it is not stored. -/
theorem absent_iff [NameFolding] {t : Tables} (h : t.Schema) {concepts : List String} {c : String}
    (hc : foldName c ∈ concepts.map foldName) :
    (∀ n ∈ (t.subgraph concepts).nodes, n.nameLower ≠ foldName c) ↔ t.named c = none := by
  rw [named_eq_none]
  constructor
  · intro habsent row hrow hname
    have hnamed : t.Named concepts row.id := ⟨row, hrow, rfl, hname ▸ hc⟩
    exact habsent _ (mem_closureNodes.mpr ⟨row, hrow, hnamed.inClosure, rfl⟩)
      ((h.nameLower_nodeRow concepts hrow).trans hname)
  · intro hnone n hn
    obtain ⟨row, hrow, -, rfl⟩ := mem_closureNodes.mp hn
    exact h.nameLower_nodeRow concepts hrow ▸ hnone row hrow

/-- Every concept is stored exactly when the query needs no placeholder. -/
theorem transients_eq_nil [NameFolding] {t : Tables} (h : t.Schema) {draw : Draw}
    {concepts : List String} {minDepth : Option DepthLevel} :
    (t.inquiry draw concepts minDepth).transients = [] ↔
      ∀ c ∈ concepts, ∃ row ∈ t.primitives, row.nameLower = foldName c := by
  obtain ⟨-, htransients, hmissing⟩ := identifyRoots_spec (h.coherent concepts) draw
  constructor
  · intro hnil c hc
    by_contra hnone
    push Not at hnone
    obtain ⟨r, hr, -⟩ := hmissing c hc
      ((absent_iff h (List.mem_map_of_mem hc)).mpr (named_eq_none.mpr hnone))
    have hr : r ∈ (t.inquiry draw concepts minDepth).transients := hr
    rw [hnil] at hr
    cases hr
  · intro hstored
    apply List.eq_nil_iff_forall_not_mem.mpr
    intro r hr
    obtain ⟨hname, habsent, -⟩ := htransients r hr
    obtain ⟨row, hrow, hfold⟩ := hstored r.name hname
    exact named_eq_none.mp ((absent_iff h (List.mem_map_of_mem hname)).mp habsent) row hrow hfold

/-- The frontier never leaves the closure. -/
theorem inClosure_of_mem_frontier [NameFolding] {t : Tables} (h : t.Schema) {draw : Draw}
    {concepts : List String} {minDepth : Option DepthLevel}
    (hknown : (t.inquiry draw concepts minDepth).transients = []) {id : UUID}
    (hid : id ∈ (t.inquiry draw concepts minDepth).frontier) : t.InClosure concepts id := by
  obtain ⟨r, hr, hpath⟩ := Inquiry.mem_frontier.mp hid
  cases hpath with
  | refl => exact ((mem_rootIds h hknown).mp hr).inClosure
  | tail _ hedge =>
      obtain ⟨e, he, -, rfl⟩ := hedge
      obtain ⟨rel, hrel, rfl⟩ := List.mem_map.mp (Inquiry.mem_visible.mp he).1
      exact (mem_closureRelata.mp hrel).2.2

/-- When nothing on the frontier is owed, every transitive relatum out of the frontier is
visible, so the frontier is the whole closure. -/
theorem mem_frontier_of_satisfied [NameFolding] {t : Tables} (h : t.Schema) {draw : Draw}
    {concepts : List String} {minDepth : Option DepthLevel}
    (hsat : (t.inquiry draw concepts minDepth).Satisfied) {id : UUID} :
    id ∈ (t.inquiry draw concepts minDepth).frontier ↔ t.InClosure concepts id := by
  refine ⟨inClosure_of_mem_frontier h hsat.known, ?_⟩
  rintro ⟨root, hroot, hpath⟩
  have hopen : ∀ a b, (∃ r, r ∈ (t.inquiry draw concepts minDepth).rootIds ∧
      Relation.ReflTransGen (t.inquiry draw concepts minDepth).VisibleEdge r a) →
      t.TransEdge a b → (t.inquiry draw concepts minDepth).VisibleEdge a b := by
    intro a b hreach hedge
    have hfrontier := Inquiry.mem_frontier.mpr hreach
    have ha := inClosure_of_mem_frontier h hsat.known hfrontier
    obtain ⟨rel, hrel, rfl, rfl, htype⟩ := hedge
    have hmem : rel.toStep ∈ (t.subgraph concepts).edges :=
      List.mem_map_of_mem (mem_closureRelata.mpr ⟨hrel, ha, ha.step ⟨rel, hrel, rfl, rfl, htype⟩⟩)
    exact ⟨rel.toStep, Inquiry.mem_visible.mpr ⟨hmem, (hsat.edges _ hmem hfrontier).1⟩, rfl, rfl⟩
  have hroot' := (mem_rootIds h hsat.known).mpr hroot
  exact Inquiry.mem_frontier.mpr ⟨root, hroot', Digraph.reach_of_open_gate hroot' hopen hpath⟩

/-- The depth the query sees in the closure is the one the subgraph returned. -/
theorem depth_inquiry [NameFolding] {t : Tables} (h : t.Schema) {draw : Draw}
    {concepts : List String} {minDepth : Option DepthLevel}
    (hknown : (t.inquiry draw concepts minDepth).transients = []) {id : UUID}
    (hid : t.InClosure concepts id) :
    (t.inquiry draw concepts minDepth).depth id = (t.subgraph concepts).depthAt id := by
  have hcoh := h.coherent concepts
  obtain ⟨row, hrow, rfl⟩ := hid.stored h
  have hnode : t.nodeRow concepts row ∈ (t.subgraph concepts).nodes :=
    mem_closureNodes.mpr ⟨row, hrow, hid, rfl⟩
  have hstored : (t.nodeRow concepts row).id ∉ (t.inquiry draw concepts minDepth).transientIds := by
    simp [Inquiry.transientIds, hknown]
  exact (Inquiry.depth_eq hcoh hnode hstored).trans (hcoh.depthAt_eq hnode).symm

/-- With nothing owed, the pathway is every edge of the closure. -/
theorem frontierVisible_of_satisfied [NameFolding] {t : Tables} (h : t.Schema) {draw : Draw}
    {concepts : List String} {minDepth : Option DepthLevel}
    (hsat : (t.inquiry draw concepts minDepth).Satisfied) :
    (t.inquiry draw concepts minDepth).frontierVisible = (t.subgraph concepts).edges := by
  have hall : ∀ e ∈ (t.subgraph concepts).edges,
      e.sourceId ∈ (t.inquiry draw concepts minDepth).frontier := by
    intro e he
    obtain ⟨rel, hrel, rfl⟩ := List.mem_map.mp he
    exact (mem_frontier_of_satisfied h hsat).mpr (mem_closureRelata.mp hrel).2.1
  have hvisible : (t.inquiry draw concepts minDepth).visible = (t.subgraph concepts).edges :=
    List.filter_eq_self.mpr fun e he => decide_eq_true (hsat.edges e he (hall e he)).1
  rw [Inquiry.frontierVisible, hvisible]
  exact List.filter_eq_self.mpr fun e he => decide_eq_true (hall e he)

/-- A query that owes nothing shows the whole closure. -/
theorem primitives_of_satisfied [NameFolding] {t : Tables} (h : t.Schema) {draw : Draw}
    {concepts : List String} {minDepth : Option DepthLevel}
    (hsat : (t.inquiry draw concepts minDepth).Satisfied) :
    (t.inquiry draw concepts minDepth).response.result.primitives =
      filterDepths (t.closureNodes concepts) := by
  have hall : (t.inquiry draw concepts minDepth).allNodes = t.closureNodes concepts := by
    rw [Inquiry.allNodes, hsat.known, List.append_nil]
    rfl
  have hfilter : (t.closureNodes concepts).filter
      (fun n => n.id ∈ (t.inquiry draw concepts minDepth).frontier) = t.closureNodes concepts := by
    apply List.filter_eq_self.mpr
    intro n hn
    obtain ⟨row, -, hinside, rfl⟩ := mem_closureNodes.mp hn
    exact decide_eq_true ((mem_frontier_of_satisfied h hsat).mpr hinside)
  rw [Inquiry.response, hall, hfilter]

/-! ## The verdict -/

theorem stepEdge_subgraph [NameFolding] {t : Tables} {concepts : List String} :
    StepEdge (t.subgraph concepts).edges = t.ClosureEdge concepts := by
  funext a b
  simp [StepEdge, ClosureEdge, subgraph, RelatumRow.toStep]

theorem mem_storedRoots [NameFolding] {t : Tables} (h : t.Schema) {draw : Draw}
    {concepts : List String} {minDepth : Option DepthLevel}
    (hknown : (t.inquiry draw concepts minDepth).transients = []) {id : UUID} :
    (∃ r ∈ (t.inquiry draw concepts minDepth).storedRoots, r.id = id) ↔ t.Named concepts id := by
  have hall : (t.inquiry draw concepts minDepth).storedRoots =
      (t.inquiry draw concepts minDepth).roots :=
    List.filter_eq_self.mpr fun r _ => by simp [Inquiry.transientIds, hknown]
  rw [hall, ← mem_rootIds h hknown]
  exact List.mem_map.symm

/-- The knowledge part of the verdict: no existence, depth or relational gap is reported
exactly when every name is stored and every relatum and root of the closure is satisfied. -/
theorem satisfied_iff [NameFolding] {t : Tables} (h : t.Schema) {draw : Draw}
    {concepts : List String} {minDepth : Option DepthLevel} :
    (t.inquiry draw concepts minDepth).Satisfied ↔
      (∀ c ∈ concepts, ∃ row ∈ t.primitives, row.nameLower = foldName c) ∧
      (∀ rel ∈ t.relata, t.InClosure concepts rel.sourceId → t.InClosure concepts rel.targetId →
        Meets ((t.subgraph concepts).depthAt rel.sourceId) rel.sourceDepth ∧
          Meets ((t.subgraph concepts).depthAt rel.targetId) rel.targetDepth) ∧
      ∀ floor, minDepth = some floor → ∀ id, t.Named concepts id →
        Meets ((t.subgraph concepts).depthAt id) floor := by
  have hcoh := h.coherent concepts
  constructor
  · intro hsat
    refine ⟨(transients_eq_nil h).mp hsat.known, fun rel hrel hsource htarget => ?_,
      fun floor hfloor id hid => ?_⟩
    · have hmem : rel.toStep ∈ (t.subgraph concepts).edges :=
        List.mem_map_of_mem (mem_closureRelata.mpr ⟨hrel, hsource, htarget⟩)
      have hmet := hsat.edges _ hmem ((mem_frontier_of_satisfied h hsat).mpr hsource)
      rw [← depth_inquiry h hsat.known hsource, ← depth_inquiry h hsat.known htarget]
      exact hmet
    · obtain ⟨r, hr, rfl⟩ := List.mem_map.mp ((named_iff_root h).mp hid)
      rw [hcoh.depthAt_eq (hcoh.mem_roots.mp hr).1]
      exact hsat.floor floor hfloor r hr
  · rintro ⟨hstored, hedges, hfloor⟩
    have hknown : (t.inquiry draw concepts minDepth).transients = [] :=
      (transients_eq_nil h).mpr hstored
    refine ⟨hknown, fun e he _ => ?_, fun floor hmin r hr => ?_⟩
    · obtain ⟨rel, hrel, rfl⟩ := List.mem_map.mp he
      obtain ⟨hmem, hsource, htarget⟩ := mem_closureRelata.mp hrel
      have hmet := hedges rel hmem hsource htarget
      rw [← depth_inquiry h hknown hsource, ← depth_inquiry h hknown htarget] at hmet
      exact hmet
    · have hid := (named_iff_root h).mpr (List.mem_map_of_mem hr)
      rw [← hcoh.depthAt_eq (hcoh.mem_roots.mp hr).1]
      exact hfloor floor hmin r.id hid

/-- The gap list is empty exactly when the closure is strict. -/
theorem gaps_eq_nil_iff [NameFolding] {t : Tables} (h : t.Schema) {draw : Draw}
    {concepts : List String} (hne : concepts ≠ []) {minDepth : Option DepthLevel} :
    (t.inquiry draw concepts minDepth).gaps = [] ↔
      t.ClosureStrict concepts minDepth (t.subgraph concepts).depthAt := by
  rw [Inquiry.gaps, List.append_eq_nil_iff, Inquiry.knowledgeGaps_eq_nil (h.coherent concepts),
    reachabilityGaps_eq_nil]
  constructor
  · rintro ⟨hsat, hconnected⟩
    obtain ⟨hstored, hedges, hfloor⟩ := (satisfied_iff h).mp hsat
    refine ⟨hne, hstored, hedges, hfloor, fun a b ha hb => ?_⟩
    obtain ⟨r, hr, rfl⟩ := (mem_storedRoots h hsat.known).mpr ha
    obtain ⟨r', hr', rfl⟩ := (mem_storedRoots h hsat.known).mpr hb
    have hjoin := hconnected r hr r' hr'
    rwa [frontierVisible_of_satisfied h hsat, stepEdge_subgraph] at hjoin
  · intro hstrict
    have hsat : (t.inquiry draw concepts minDepth).Satisfied :=
      (satisfied_iff h).mpr ⟨hstrict.stored, hstrict.edges, hstrict.floor⟩
    refine ⟨hsat, fun r hr r' hr' => ?_⟩
    rw [frontierVisible_of_satisfied h hsat, stepEdge_subgraph]
    exact hstrict.connected _ _ ((mem_storedRoots h hsat.known).mp ⟨r, hr, rfl⟩)
      ((mem_storedRoots h hsat.known).mp ⟨r', hr', rfl⟩)

/-! ## `ground` -/

/-- The canonical names that `ground` resolves the concepts to. -/
def Inquiry.resolved [NameFolding] (q : Inquiry) : List String :=
  let canonicalByLower := OrderedDict.ofItems
    (q.response.result.primitives.map fun p => (p.nameLower, p.name))
  q.concepts.map fun c => (canonicalByLower.get? (foldName c)).getD c

def Inquiry.result [NameFolding] (q : Inquiry) : GroundingResult :=
  ⟨q.gaps.isEmpty, q.resolved, q.gaps, some q.response, none⟩

theorem response_nil [NameFolding] (t : Tables) (draw : Draw) (minDepth : Option DepthLevel) :
    (t.inquiry draw [] minDepth).response = emptyResponse := by
  have hnone : t.subgraph [] = ⟨[], [], []⟩ := by
    apply subgraph_eq_empty
    rintro id ⟨root, ⟨row, -, -, hname⟩, -⟩
    cases hname
  rw [inquiry, hnone]
  cases minDepth <;> rfl

/-- A query of a stamped store never fails. -/
theorem query_eq [NameFolding] {db : SqliteRepository} (h : db.tables.Schema) (draw : Draw)
    (concepts : List String) (minDepth : Option DepthLevel) :
    query draw db concepts minDepth =
      .ok (db.tables.inquiry draw concepts minDepth).response := by
  by_cases hne : concepts = []
  · subst hne
    exact congrArg Except.ok (response_nil db.tables draw minDepth).symm
  · simp only [query, List.isEmpty_iff, hne, if_false]
    exact Loops.except_bind_ok.mpr ⟨_, resolveSubgraph_eq h concepts,
      Inquiry.respond_eq (db.tables.inquiry draw concepts minDepth) (h.coherent concepts)⟩

theorem ground_eq [NameFolding] {db : SqliteRepository} (h : db.tables.Schema) (draw : Draw)
    {concepts : List String} (hne : concepts ≠ []) (minDepth : Option DepthLevel) :
    ground draw db concepts minDepth = .ok (db.tables.inquiry draw concepts minDepth).result := by
  simp only [ground, List.isEmpty_iff, hne, if_false, query_eq h, Loops.ok_bind]
  rfl

theorem ground_nil [NameFolding] (draw : Draw) (db : SqliteRepository)
    (minDepth : Option DepthLevel) :
    ground draw db [] minDepth = .ok ⟨false, [], [], some emptyResponse, none⟩ := rfl

/-- A grounded result is that of a query that owes nothing. -/
theorem satisfied_of_grounded [NameFolding] {db : SqliteRepository} (h : db.tables.Schema)
    {draw : Draw} {concepts : List String} {minDepth : Option DepthLevel} {r : GroundingResult}
    (hground : ground draw db concepts minDepth = .ok r) (hgrounded : r.grounded = true) :
    concepts ≠ [] ∧ r = (db.tables.inquiry draw concepts minDepth).result ∧
      (db.tables.inquiry draw concepts minDepth).Satisfied := by
  have hne : concepts ≠ [] := by
    rintro rfl
    cases (ground_nil draw db minDepth).symm.trans hground
    cases hgrounded
  cases (ground_eq h draw hne minDepth).symm.trans hground
  have hnil := List.append_eq_nil_iff.mp (List.isEmpty_iff.mp hgrounded)
  exact ⟨hne, rfl, (Inquiry.knowledgeGaps_eq_nil (h.coherent concepts)).mp hnil.1⟩

/-- Grounding never fails on a stored graph, and its verdict, computed on the frontier, is
the closure-strict one: the depths are those of the resolved subgraph, the closure and its
relata are those of the store. -/
theorem ground_grounded_iff [NameFolding] {db : SqliteRepository} (h : db.tables.Schema)
    (draw : Draw) (concepts : List String) (minDepth : Option DepthLevel) :
    ∃ sg r, Repository.resolveSubgraph db concepts = .ok sg ∧
      ground draw db concepts minDepth = .ok r ∧
      (r.grounded = true ↔ db.tables.ClosureStrict concepts minDepth sg.depthAt) := by
  by_cases hne : concepts = []
  · subst hne
    refine ⟨_, _, resolveSubgraph_eq h [], ground_nil draw db minDepth, ?_⟩
    exact ⟨fun hfalse => (nomatch hfalse), fun hstrict => absurd rfl hstrict.nonempty⟩
  · refine ⟨_, _, resolveSubgraph_eq h concepts, ground_eq h draw hne minDepth, ?_⟩
    exact List.isEmpty_iff.trans (gaps_eq_nil_iff h hne)

/-- A grounded store: `Write` requires `File` at D1, and `File` has it. -/
def writeFile [NameFolding] : SqliteRepository :=
  List.foldl Operation.next .fresh
    [.save ⟨0, "File", [⟨.existence, [], [], some authored⟩,
        ⟨.identity, [("kind", .json "1")], [], some authored⟩], some authored, none⟩,
      .save (sample 1 "Write" [.existence] [⟨.requires, 0, .identity, [], some authored⟩])]

theorem ground_grounded_iff_writeFile : letI := asciiFolding
    ∃ sg, Repository.resolveSubgraph writeFile ["write"] = .ok sg ∧
      writeFile.tables.ClosureStrict ["write"] none sg.depthAt := by
  let _ := asciiFolding
  have hschema : writeFile.tables.Schema := (Operation.sound_foldl _).2.toSchema
  obtain ⟨sg, r, hsg, hr, hiff⟩ := ground_grounded_iff hschema ⟨fun i => i, 0⟩ ["write"] none
  have hgrounded : (ground ⟨fun i => i, 0⟩ writeFile ["write"] none).map GroundingResult.grounded =
      .ok true := by decide
  rw [hr] at hgrounded
  exact ⟨sg, hsg, hiff.mp (Except.ok.inj hgrounded)⟩

end GroundingEngine

end Vre
