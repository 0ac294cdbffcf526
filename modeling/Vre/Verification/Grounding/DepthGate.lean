import Vre.Verification.Grounding.Trace

/-! # The depth gate in the traversal

A traversal that checks the depth of each source before it follows a transitive relatum, set
against the frontier, which the engine cuts out of the closure by following the visible
relata of every type.
-/

namespace Vre

namespace Tables

/-- A transitive relatum whose source is grounded deeply enough to see it. -/
def GatedEdge (t : Tables) (sg : ResolvedSubgraph) (a b : UUID) : Prop :=
  ∃ rel ∈ t.relata, rel.sourceId = a ∧ rel.targetId = b ∧
    rel.relType ∈ transitiveRelationTypes ∧ Meets (sg.depthAt a) rel.sourceDepth

/-- What a traversal with the depth gate reaches from the named primitives. -/
def GatedClosure [NameFolding] (t : Tables) (concepts : List String) (sg : ResolvedSubgraph)
    (id : UUID) : Prop :=
  ∃ root, t.Named concepts root ∧ Relation.ReflTransGen (t.GatedEdge sg) root id

/-- Every visible relatum of another type that leads from the gated closure to a primitive of
the closure leads back into the gated closure. -/
def SidewaysClosed [NameFolding] (t : Tables) (concepts : List String)
    (sg : ResolvedSubgraph) : Prop :=
  ∀ rel ∈ t.relata, rel.relType ∉ transitiveRelationTypes →
    t.GatedClosure concepts sg rel.sourceId → Meets (sg.depthAt rel.sourceId) rel.sourceDepth →
      t.InClosure concepts rel.targetId → t.GatedClosure concepts sg rel.targetId

/-- A primitive with a depth in the subgraph is in the closure. -/
theorem inClosure_of_meets [NameFolding] {t : Tables} {concepts : List String} {id : UUID}
    {d : DepthLevel} (h : Meets ((t.subgraph concepts).depthAt id) d) :
    t.InClosure concepts id := by
  cases hfind : (t.subgraph concepts).nodes.find? fun n => n.id = id with
  | none =>
      rw [ResolvedSubgraph.depthAt, hfind] at h
      exact h.elim
  | some n =>
      have hid : n.id = id := by simpa using List.find?_some hfind
      obtain ⟨row, -, hinside, rfl⟩ := mem_closureNodes.mp (List.mem_of_find?_eq_some hfind)
      exact hid ▸ hinside

theorem visibleEdge_subgraph [NameFolding] {t : Tables} {concepts : List String} {a b : UUID} :
    (t.subgraph concepts).VisibleEdge a b ↔ ∃ rel ∈ t.relata, rel.sourceId = a ∧
      rel.targetId = b ∧ t.InClosure concepts b ∧
      Meets ((t.subgraph concepts).depthAt a) rel.sourceDepth := by
  constructor
  · rintro ⟨e, he, hsees, rfl, rfl⟩
    obtain ⟨rel, hrel, rfl⟩ := List.mem_map.mp he
    obtain ⟨hmem, -, htarget⟩ := mem_closureRelata.mp hrel
    exact ⟨rel, hmem, rfl, rfl, htarget, hsees⟩
  · rintro ⟨rel, hrel, rfl, rfl, htarget, hmeets⟩
    have hmem := mem_closureRelata.mpr ⟨hrel, inClosure_of_meets hmeets, htarget⟩
    exact ⟨rel.toStep, List.mem_map_of_mem hmem, hmeets, rfl, rfl⟩

theorem GatedEdge.visible [NameFolding] {t : Tables} {concepts : List String} {a b : UUID}
    (h : t.GatedEdge (t.subgraph concepts) a b) : (t.subgraph concepts).VisibleEdge a b := by
  obtain ⟨rel, hrel, rfl, rfl, htype, hmeets⟩ := h
  have htarget := (inClosure_of_meets hmeets).step ⟨rel, hrel, rfl, rfl, htype⟩
  exact visibleEdge_subgraph.mpr ⟨rel, hrel, rfl, rfl, htarget, hmeets⟩

theorem onFrontier_iff_named [NameFolding] {t : Tables} (h : t.Schema) {concepts : List String}
    {id : UUID} : (t.subgraph concepts).OnFrontier id ↔
      ∃ root, t.Named concepts root ∧
        Relation.ReflTransGen (t.subgraph concepts).VisibleEdge root id := by
  constructor
  · rintro ⟨r, hr, hpath⟩
    exact ⟨r.id, (named_iff_root h).mpr (List.mem_map_of_mem hr), hpath⟩
  · rintro ⟨root, hroot, hpath⟩
    obtain ⟨r, hr, rfl⟩ := List.mem_map.mp ((named_iff_root h).mp hroot)
    exact ⟨r, hr, hpath⟩

/-- The frontier is the gated closure exactly when nothing leaves that one sideways. -/
theorem onFrontier_eq_iff [NameFolding] {t : Tables} (h : t.Schema) (concepts : List String) :
    (∀ id, (t.subgraph concepts).OnFrontier id ↔
      t.GatedClosure concepts (t.subgraph concepts) id) ↔
        t.SidewaysClosed concepts (t.subgraph concepts) := by
  have hsub : ∀ a b, t.GatedEdge (t.subgraph concepts) a b →
      (t.subgraph concepts).VisibleEdge a b := fun _ _ => GatedEdge.visible
  simp only [onFrontier_iff_named h, GatedClosure]
  rw [Digraph.reach_eq_iff hsub]
  constructor
  · intro hclosed rel hrel _ hsource hmeets htarget
    exact hclosed rel.sourceId rel.targetId hsource
      (visibleEdge_subgraph.mpr ⟨rel, hrel, rfl, rfl, htarget, hmeets⟩)
  · intro hsideways a b ha hab
    obtain ⟨rel, hrel, rfl, rfl, htarget, hmeets⟩ := visibleEdge_subgraph.mp hab
    by_cases htype : rel.relType ∈ transitiveRelationTypes
    · obtain ⟨root, hroot, hpath⟩ := ha
      exact ⟨root, hroot, hpath.tail ⟨rel, hrel, rfl, rfl, htype, hmeets⟩⟩
    · exact hsideways rel hrel htype ha hmeets htarget

/-- What the gated closure holds is named, or a gated edge leads to it. -/
theorem GatedClosure.cases [NameFolding] {t : Tables} {concepts : List String}
    {sg : ResolvedSubgraph} {id : UUID} (h : t.GatedClosure concepts sg id) :
    t.Named concepts id ∨ ∃ a, t.GatedEdge sg a id := by
  obtain ⟨root, hroot, hpath⟩ := h
  rcases Relation.ReflTransGen.cases_tail hpath with rfl | ⟨a, -, hedge⟩
  · exact Or.inl hroot
  · exact Or.inr ⟨a, hedge⟩

/-- Where no source sees its transitive relata, only the named primitives are reached. -/
theorem GatedClosure.named [NameFolding] {t : Tables} {concepts : List String}
    {sg : ResolvedSubgraph} (hblind : ∀ rel ∈ t.relata, rel.relType ∈ transitiveRelationTypes →
      ¬ Meets (sg.depthAt rel.sourceId) rel.sourceDepth)
    {id : UUID} (hid : t.GatedClosure concepts sg id) : t.Named concepts id := by
  rcases hid.cases with hnamed | ⟨a, rel, hrel, rfl, -, htype, hmeets⟩
  · exact hnamed
  · exact absurd hmeets (hblind rel hrel htype)

theorem GatedClosure.stored [NameFolding] {t : Tables} (h : t.Schema) {concepts : List String}
    {sg : ResolvedSubgraph} {id : UUID} (hid : t.GatedClosure concepts sg id) : t.Stored id := by
  rcases hid.cases with ⟨row, hrow, hroot, -⟩ | ⟨a, rel, hrel, -, rfl, -⟩
  · exact ⟨row, hrow, hroot⟩
  · exact h.targets rel hrel

end Tables

namespace GroundingEngine

/-- The ids in the trace: the frontier and the placeholders. -/
theorem Inquiry.Apart.mem_primitives [NameFolding] {q : Inquiry} (h : q.Apart) {id : UUID} :
    id ∈ q.response.result.primitives.map Primitive.id ↔
      q.subgraph.OnFrontier id ∨ id ∈ q.transientIds := by
  have hids : q.response.result.primitives.map Primitive.id = q.survivingIds :=
    map_id_filterDepths _
  rw [hids, mem_survivingIds, ← h.mem_frontier_iff, and_iff_right_iff_imp, h.mem_frontier_iff,
    allNodes, List.map_append, List.mem_append]
  exact Or.imp (fun hid => List.mem_map.mpr (h.onFrontier_stored hid)) fun hid => hid

/-- The stored primitives of the trace are what a traversal with the depth gate would return
exactly when no visible relatum of another type leads out of it. -/
theorem query_depthAware_iff [NameFolding] {db : SqliteRepository} (h : db.tables.Schema)
    {draw : Draw} (hfresh : draw.Fresh db.tables) (concepts : List String)
    (minDepth : Option DepthLevel) :
    ∃ sg response, Repository.resolveSubgraph db concepts = .ok sg ∧
      query draw db concepts minDepth = .ok response ∧
      ((∀ id, db.tables.Stored id → (id ∈ response.result.primitives.map Primitive.id ↔
        db.tables.GatedClosure concepts sg id)) ↔ db.tables.SidewaysClosed concepts sg) := by
  refine ⟨_, _, resolveSubgraph_eq h concepts, query_eq h draw concepts minDepth, ?_⟩
  have hapart := hfresh.apart h concepts minDepth
  rw [← Tables.onFrontier_eq_iff h concepts]
  have hshown : ∀ id, db.tables.Stored id →
      (id ∈ (db.tables.inquiry draw concepts minDepth).response.result.primitives.map
        Primitive.id ↔ (db.tables.subgraph concepts).OnFrontier id) :=
    fun id hid => hapart.mem_primitives.trans (or_iff_left (hfresh.notMem_transientIds h hid))
  constructor
  · intro hsame id
    refine ⟨fun hfrontier => ?_, fun hgated => ?_⟩
    · obtain ⟨n, hn, rfl⟩ := hapart.onFrontier_stored hfrontier
      obtain ⟨row, hrow, -, rfl⟩ := Tables.mem_closureNodes.mp hn
      have hid : db.tables.Stored row.id := ⟨row, hrow, rfl⟩
      exact (hsame _ hid).mp ((hshown _ hid).mpr hfrontier)
    · have hid := hgated.stored h
      exact (hshown id hid).mp ((hsame id hid).mpr hgated)
  · exact fun hsame id hid => (hshown id hid).trans (hsame id)

/-- `Copy`, grounded to D0, applies to `File` there, and requires it only from D2. -/
def sidewaysCopy [NameFolding] : SqliteRepository :=
  List.foldl Operation.next .fresh
    [.save (sample 0 "File" [.existence] []),
      .save ⟨1, "Copy", [⟨.existence, [], [⟨.appliesTo, 0, .existence, [], some authored⟩],
          some authored⟩, ⟨.capabilities, [], [⟨.requires, 0, .existence, [], some authored⟩],
          some authored⟩], some authored, none⟩]

theorem sound_sidewaysCopy [NameFolding] : sidewaysCopy.Sound := Operation.sound_foldl _

/-- `File` is in the trace of `Copy`, by its `APPLIES_TO` relatum alone. -/
theorem not_query_depthAware_sidewaysCopy : letI := asciiFolding
    ∃ sg response, Repository.resolveSubgraph sidewaysCopy ["copy"] = .ok sg ∧
      query ⟨fun i => i + 5, 0⟩ sidewaysCopy ["copy"] none = .ok response ∧
      sidewaysCopy.tables.Stored 0 ∧ 0 ∈ response.result.primitives.map Primitive.id ∧
      ¬ sidewaysCopy.tables.GatedClosure ["copy"] sg 0 := by
  have hshown : letI := asciiFolding
      0 ∈ (sidewaysCopy.tables.inquiry ⟨fun i => i + 5, 0⟩ ["copy"]
        none).response.result.primitives.map Primitive.id := by decide +kernel
  have hblind : letI := asciiFolding
      ∀ rel ∈ sidewaysCopy.tables.relata, rel.relType ∈ transitiveRelationTypes →
        ¬ Meets ((sidewaysCopy.tables.subgraph ["copy"]).depthAt rel.sourceId)
          rel.sourceDepth := by decide +kernel
  have hnamed : letI := asciiFolding
      ∀ row ∈ sidewaysCopy.tables.primitives, row.id = 0 →
        row.nameLower ∉ ["copy"].map foldName := by decide +kernel
  let _ := asciiFolding
  have hschema := sound_sidewaysCopy.2.toSchema
  refine ⟨_, _, resolveSubgraph_eq hschema _, query_eq hschema _ _ _, ?_, hshown, ?_⟩
  · rw [Tables.stored_iff_mem]
    decide
  · intro hclosure
    obtain ⟨row, hrow, hid, hname⟩ := hclosure.named hblind
    exact hnamed row hrow hid hname

/-- With `File` submitted too, nothing leads out of the gated closure. -/
theorem sidewaysClosed_sidewaysCopy (sg : ResolvedSubgraph) : letI := asciiFolding
    sidewaysCopy.tables.SidewaysClosed ["copy", "file"] sg := by
  have hnamed : letI := asciiFolding
      ∀ rel ∈ sidewaysCopy.tables.relata, ∃ row ∈ sidewaysCopy.tables.primitives,
        row.id = rel.targetId ∧ row.nameLower ∈ ["copy", "file"].map foldName := by decide +kernel
  intro rel hrel _ _ _ _
  exact ⟨rel.targetId, hnamed rel hrel, .refl⟩

theorem query_depthAware_sidewaysCopy : letI := asciiFolding
    ∃ sg response, Repository.resolveSubgraph sidewaysCopy ["copy", "file"] = .ok sg ∧
      query ⟨fun i => i + 5, 0⟩ sidewaysCopy ["copy", "file"] none = .ok response ∧
      ∀ id, sidewaysCopy.tables.Stored id → (id ∈ response.result.primitives.map Primitive.id ↔
        sidewaysCopy.tables.GatedClosure ["copy", "file"] sg id) := by
  let _ := asciiFolding
  have hfresh : Draw.Fresh ⟨fun i => i + 5, 0⟩ sidewaysCopy.tables :=
    Draw.fresh_above 0 (by decide)
  obtain ⟨sg, response, hsg, hquery, hiff⟩ :=
    query_depthAware_iff sound_sidewaysCopy.2.toSchema hfresh ["copy", "file"] none
  exact ⟨sg, response, hsg, hquery, hiff.mpr (sidewaysClosed_sidewaysCopy sg)⟩

end GroundingEngine

end Vre
