import Vre.Verification.Grounding.Strict
import Vre.Verification.Store.Live

/-! # Resolution is exact

`resolve_subgraph` shows every primitive of the transitive closure once, every relatum inside
the closure, and each of these relata on its source, at its depth.
-/

namespace Vre

/-- The primitive with those of its relata that lead to one of the ids. -/
def Primitive.within (ids : List UUID) (p : Primitive) : Primitive :=
  { p with depths := p.depths.map fun d =>
      { d with relata := d.relata.filter fun r => r.targetId ∈ ids } }

def ResolvedSubgraph.ids (sg : ResolvedSubgraph) : List UUID :=
  sg.nodes.map Primitive.id

/-- What a subgraph of the store has to show for a list of names: each primitive of the
transitive closure as it is stored, but for the relata that lead out; the named ones as roots;
the relata of the store inside the closure; and at each node the edges that leave it, each at
its level. -/
structure ResolvedSubgraph.Exact [NameFolding] (sg : ResolvedSubgraph) (t : Tables)
    (names : List String) : Prop where
  nodup : sg.ids.Nodup
  mem_ids : ∀ id, id ∈ sg.ids ↔ t.InClosure names id
  nodes : ∀ node ∈ sg.nodes, ∃ p, t.live node.id = some p ∧ node = p.within sg.ids
  roots_nodup : (sg.roots.map Primitive.id).Nodup
  mem_roots : ∀ p, p ∈ sg.roots ↔ p ∈ sg.nodes ∧ t.Named names p.id
  edges : sg.edges.Perm ((t.relata.filter fun rel =>
    rel.sourceId ∈ sg.ids ∧ rel.targetId ∈ sg.ids).map RelatumRow.toStep)
  carried : ∀ node ∈ sg.nodes, (node.toRelata.map RelatumRow.toStep).Perm
    (sg.edges.filter fun e => e.sourceId = node.id)

/-! ## The nodes -/

theorem relataAt_filter_target (relata : List RelatumRow) (ids : List UUID) (level : DepthLevel) :
    relataAt (relata.filter fun rel => rel.targetId ∈ ids) level =
      (relataAt relata level).filter fun r => r.targetId ∈ ids := by
  rw [relataAt, relataAt, List.filter_map, List.filter_filter, List.filter_filter]
  exact congrArg _ (List.filter_congr fun rel _ => Bool.and_comm _ _)

/-- Hydration with fewer relata drops these relata and nothing else. -/
theorem load_filter_target (row : PrimitiveRow) (relata : List RelatumRow) (ids : List UUID) :
    row.load (relata.filter fun rel => rel.targetId ∈ ids) = (row.load relata).within ids := by
  have hdepth : ∀ level, row.depthAt (relata.filter fun rel => rel.targetId ∈ ids) level =
      (row.depthAt relata level).map fun d =>
        { d with relata := d.relata.filter fun r => r.targetId ∈ ids } := by
    intro level
    simp only [PrimitiveRow.depthAt, relataAt_filter_target, Option.map_map]
    rfl
  simp only [PrimitiveRow.load, Primitive.within, List.map_filterMap, hdepth]

namespace Tables

theorem ids_subgraph [NameFolding] (t : Tables) (names : List String) :
    (t.subgraph names).ids = (t.closureNodes names).map Primitive.id := rfl

theorem mem_ids_subgraph [NameFolding] {t : Tables} (h : t.Schema) {names : List String}
    {id : UUID} : id ∈ (t.subgraph names).ids ↔ id ∈ Sqlite.reachableIds t names := by
  rw [ids_subgraph, mem_ids_closureNodes h, mem_reachableIds]

/-- A node is the stored primitive, cut down to the closure. -/
theorem nodeRow_eq_within [NameFolding] {t : Tables} (h : t.Schema) (names : List String)
    (row : PrimitiveRow) : t.nodeRow names row = (t.loadRow row).within (t.subgraph names).ids := by
  have hids : (fun rel : RelatumRow => decide (rel.targetId ∈ (t.subgraph names).ids)) =
      fun rel => decide (rel.targetId ∈ Sqlite.reachableIds t names) := by
    funext rel
    exact decide_eq_decide.mpr (mem_ids_subgraph h)
  rw [loadRow, ← load_filter_target, hids]
  rfl

theorem mem_roots_iff_named [NameFolding] {t : Tables} (h : t.Schema) {names : List String}
    {p : Primitive} : p ∈ (t.subgraph names).roots ↔
      p ∈ (t.subgraph names).nodes ∧ t.Named names p.id := by
  have hroot : p ∈ (t.subgraph names).roots ↔
      p ∈ t.closureNodes names ∧ p.nameLower ∈ names.map foldName := by
    simp [subgraph]
  rw [hroot]
  apply and_congr_right
  intro hp
  obtain ⟨row, hrow, -, rfl⟩ := mem_closureNodes.mp hp
  rw [h.nameLower_nodeRow names hrow]
  constructor
  · exact fun hname => ⟨row, hrow, rfl, hname⟩
  · rintro ⟨row', hrow', hid, hname⟩
    exact h.row_unique hrow' hrow hid ▸ hname

/-! ## The edges -/

theorem edges_subgraph [NameFolding] {t : Tables} (h : t.Schema) (names : List String) :
    (t.subgraph names).edges = (t.relata.filter fun rel =>
      rel.sourceId ∈ (t.subgraph names).ids ∧ rel.targetId ∈ (t.subgraph names).ids).map
        RelatumRow.toStep := by
  refine congrArg (List.map RelatumRow.toStep) (List.filter_congr fun rel _ => ?_)
  exact decide_eq_decide.mpr
    (and_congr (mem_ids_subgraph h).symm (mem_ids_subgraph h).symm)

/-- In a well-formed store a node loses none of its edges to hydration. -/
theorem perm_carried [NameFolding] {t : Tables} (h : t.WellFormed) {names : List String}
    {node : Primitive} (hnode : node ∈ (t.subgraph names).nodes) :
    (node.toRelata.map RelatumRow.toStep).Perm
      ((t.subgraph names).edges.filter fun e => e.sourceId = node.id) := by
  obtain ⟨row, hrow, hinside, rfl⟩ := mem_closureNodes.mp hnode
  have hinner : (t.nodeRow names row).toRelata.Perm (t.inner names row.id) :=
    perm_toRelata_load (fun rel hrel => (mem_inner.mp hrel).2.1)
      fun rel hrel => h.homed_outgoing hrow (List.mem_filter.mp hrel).1
  have hleaving : ((t.subgraph names).edges.filter fun e => e.sourceId = row.id) =
      (t.inner names row.id).map RelatumRow.toStep := by
    rw [← filter_closureRelata (mem_reachableIds.mpr hinside)]
    exact List.filter_map
  rw [nodeRow_id, hleaving]
  exact hinner.map RelatumRow.toStep

theorem exact_subgraph [NameFolding] {t : Tables} (h : t.WellFormed) (names : List String) :
    (t.subgraph names).Exact t names where
  nodup := (h.toSchema.coherent names).nodup_ids
  mem_ids := fun id => mem_ids_closureNodes h.toSchema
  nodes := by
    intro node hnode
    obtain ⟨row, hrow, -, rfl⟩ := mem_closureNodes.mp hnode
    exact ⟨t.loadRow row, (live_eq_some h.toSchema).mpr ⟨row, hrow, rfl, rfl⟩,
      nodeRow_eq_within h.toSchema names row⟩
  roots_nodup := (h.toSchema.coherent names).nodup_ids.sublist (List.filter_sublist.map _)
  mem_roots := fun _ => mem_roots_iff_named h.toSchema
  edges := .of_eq (edges_subgraph h.toSchema names)
  carried := fun _ => perm_carried h

/-- Relata of the other types pull no primitive in: stores that differ in such relata alone
have the same closures. -/
theorem ids_subgraph_congr [NameFolding] {t t' : Tables} (hrows : t'.primitives = t.primitives)
    (hrelata : ∀ rel : RelatumRow, rel.relType ∈ transitiveRelationTypes →
      (rel ∈ t'.relata ↔ rel ∈ t.relata)) (names : List String) :
    (t'.subgraph names).ids = (t.subgraph names).ids := by
  have hedge : t'.TransEdge = t.TransEdge := by
    funext a b
    refine propext ⟨?_, ?_⟩
    · rintro ⟨rel, hrel, hsource, htarget, htype⟩
      exact ⟨rel, (hrelata rel htype).mp hrel, hsource, htarget, htype⟩
    · rintro ⟨rel, hrel, hsource, htarget, htype⟩
      exact ⟨rel, (hrelata rel htype).mpr hrel, hsource, htarget, htype⟩
  have hinside : ∀ id, id ∈ Sqlite.reachableIds t' names ↔ id ∈ Sqlite.reachableIds t names := by
    intro id
    simp only [mem_reachableIds, InClosure, Named, hrows, hedge]
  rw [ids_subgraph, ids_subgraph, closureNodes, closureNodes, List.map_map, List.map_map, hrows]
  refine congrArg _ (List.filter_congr fun row _ => ?_)
  exact decide_eq_decide.mpr (hinside row.id)

end Tables

/-- `resolve_subgraph` returns exactly the transitive closure, so the engine finds both ends of
every edge and never raises. Relata of other types than the transitive ones add no node. -/
theorem resolveSubgraph_exact [NameFolding] {db : SqliteRepository} (h : db.tables.WellFormed)
    (names : List String) : ∃ sg, Sqlite.resolveSubgraph db names = .ok sg ∧
      sg.Exact db.tables names ∧
      (∀ draw minDepth, ∃ response,
        GroundingEngine.query draw db names minDepth = .ok response) ∧
      ∀ db' sg', db'.tables.WellFormed → db'.tables.primitives = db.tables.primitives →
        (∀ rel : RelatumRow, rel.relType ∈ transitiveRelationTypes →
          (rel ∈ db'.tables.relata ↔ rel ∈ db.tables.relata)) →
        Sqlite.resolveSubgraph db' names = .ok sg' → sg'.ids = sg.ids := by
  refine ⟨_, resolveSubgraph_eq h.toSchema names, Tables.exact_subgraph h names,
    fun draw minDepth => ⟨_, GroundingEngine.query_eq h.toSchema draw names minDepth⟩, ?_⟩
  intro db' sg' h' hrows hrelata hresolve
  cases (resolveSubgraph_eq h'.toSchema names).symm.trans hresolve
  exact Tables.ids_subgraph_congr hrows hrelata names

/-- `Write` requires `File` twice and includes `Log`, which applies to itself. -/
def writeFileLog [NameFolding] : SqliteRepository :=
  List.foldl Operation.next .fresh
    [.save (sample 0 "File" [.existence] []),
      .save (sample 2 "Log" [.existence] [⟨.appliesTo, 2, .existence, [], some authored⟩]),
      .save (sample 1 "Write" [.existence, .identity]
        [⟨.requires, 0, .existence, [], some authored⟩,
          ⟨.includes, 2, .existence, [], some authored⟩,
          ⟨.requires, 0, .identity, [], some authored⟩])]

theorem resolveSubgraph_exact_write : letI := asciiFolding
    ∃ sg, Sqlite.resolveSubgraph writeFileLog ["WRITE", "write", "Copy"] = .ok sg ∧
      sg.Exact writeFileLog.tables ["WRITE", "write", "Copy"] ∧ sg.ids = [0, 1] ∧
      sg.edges.length = 2 := by
  let _ := asciiFolding
  have hsound : writeFileLog.Sound := Operation.sound_foldl _
  obtain ⟨sg, hresolve, hexact, -⟩ := resolveSubgraph_exact hsound.2 ["WRITE", "write", "Copy"]
  refine ⟨sg, hresolve, hexact, ?_⟩
  have hshown : (Sqlite.resolveSubgraph writeFileLog ["WRITE", "write", "Copy"]).map
      (fun sg => (sg.ids, sg.edges.length)) = .ok ([0, 1], 2) := by
    decide +kernel
  rw [hresolve] at hshown
  exact Prod.mk.inj (Except.ok.inj hshown)

end Vre
