import Vre.Verification.Grounding.Check

/-! # The two read paths

`resolve_subgraph` reads a primitive with the relata that stay inside the closure of the
query, `find_by_id` reads it with all of them. The two agree on what it is grounded to unless
one of its levels grounds only by relata that leave the closure.
-/

namespace Vre

namespace Tables

/-! ## Levels that a query masks -/

/-- The level has a record without properties, and its relata all leave the closure. -/
structure Masked [NameFolding] (t : Tables) (names : List String) (id : UUID)
    (level : DepthLevel) : Prop where
  deeper : level ≠ .existence
  bare : ∃ row ∈ t.primitives, row.id = id ∧
    ∃ entry, lastAt row.depthsJson level = some entry ∧ entry.properties = []
  relata : ∃ rel ∈ t.relata, rel.sourceId = id ∧ rel.sourceDepth = level
  leave : ∀ rel ∈ t.relata, rel.sourceId = id → rel.sourceDepth = level →
    ¬ t.InClosure names rel.targetId

theorem mem_groundingLevels_loadRow {t : Tables} {row : PrimitiveRow} {level : DepthLevel} :
    level ∈ (t.loadRow row).groundingLevels ↔
      ∃ entry, lastAt row.depthsJson level = some entry ∧ (level = .existence ∨
        entry.properties ≠ [] ∨ ∃ rel ∈ t.relata, rel.sourceId = row.id ∧
          rel.sourceDepth = level) := by
  simp only [loadRow, mem_groundingLevels_load, mem_outgoing, and_assoc]

theorem mem_groundingLevels_nodeRow [NameFolding] {t : Tables} {names : List String}
    {row : PrimitiveRow} {level : DepthLevel} :
    level ∈ (t.nodeRow names row).groundingLevels ↔
      ∃ entry, lastAt row.depthsJson level = some entry ∧ (level = .existence ∨
        entry.properties ≠ [] ∨ ∃ rel ∈ t.relata, rel.sourceId = row.id ∧
          t.InClosure names rel.targetId ∧ rel.sourceDepth = level) := by
  simp only [nodeRow, mem_groundingLevels_load, mem_inner, and_assoc]

/-- The level grounds the primitive when only relata that stay inside the closure count. -/
def Shows [NameFolding] (t : Tables) (names : List String) (p : Primitive)
    (level : DepthLevel) : Prop :=
  ∃ d ∈ p.depths, d.level = level ∧ (level = .existence ∨ d.properties ≠ [] ∨
    ∃ r ∈ d.relata, t.InClosure names r.targetId)

/-- A node grounds at the levels that its stored primitive shows. -/
theorem mem_groundingLevels_iff_shows [NameFolding] {t : Tables} {names : List String}
    {row : PrimitiveRow} {level : DepthLevel} :
    level ∈ (t.nodeRow names row).groundingLevels ↔ t.Shows names (t.loadRow row) level := by
  rw [mem_groundingLevels_nodeRow]
  constructor
  · rintro ⟨entry, hlast, hwhy⟩
    have hdepth : row.depthAt (t.outgoing row.id) level = some _ :=
      depthAt_eq_some.mpr ⟨entry, hlast, rfl⟩
    have hlevel := level_of_depthAt hdepth
    refine ⟨_, mem_depths_load.mpr (hlevel.symm ▸ hdepth), hlevel, hwhy.imp_right (Or.imp ?_ ?_)⟩
    · simp [DepthEntry.toDepth, jsonLoads]
    · rintro ⟨rel, hrel, hsource, hinside, hat⟩
      have hmem : rel ∈ t.outgoing row.id := mem_outgoing.mpr ⟨hrel, hsource⟩
      exact ⟨rel.toRelatum, mem_relataAt.mpr ⟨rel, hmem, hat, rfl⟩, hinside⟩
  · rintro ⟨d, hd, rfl, hwhy⟩
    obtain ⟨entry, hlast, hdepth⟩ := depthAt_eq_some.mp (mem_depths_load.mp hd)
    refine ⟨entry, hlast, hwhy.imp_right (Or.imp ?_ ?_)⟩
    · rw [← hdepth]
      simp [DepthEntry.toDepth, jsonLoads]
    · rintro ⟨r, hr, hinside⟩
      rw [relata_of_mem_load hd, mem_relataAt] at hr
      obtain ⟨rel, hrel, hat, rfl⟩ := hr
      obtain ⟨hmem, hsource⟩ := mem_outgoing.mp hrel
      exact ⟨rel, hmem, hsource, hinside, hat⟩

/-- The depth that a query sees, in terms of the stored primitive. -/
theorem meets_depthAt [NameFolding] {t : Tables} (h : t.Schema) {names : List String} {id : UUID}
    (hinside : t.InClosure names id) {p : Primitive} (hp : t.live id = some p) {d : DepthLevel} :
    Meets ((t.subgraph names).depthAt id) d ↔ ∀ l ≤ d, t.Shows names p l := by
  obtain ⟨row, hrow, rfl, rfl⟩ := (live_eq_some h).mp hp
  have hnode : t.nodeRow names row ∈ (t.subgraph names).nodes :=
    mem_closureNodes.mpr ⟨row, hrow, hinside, rfl⟩
  have hdepth := (h.coherent names).depthAt_eq hnode
  rw [nodeRow_id] at hdepth
  simp only [hdepth, meets_contiguousMaxDepth, mem_groundingLevels_iff_shows]

theorem Masked.notMem_nodeRow [NameFolding] {t : Tables} (h : t.Schema) {names : List String}
    {row : PrimitiveRow} (hrow : row ∈ t.primitives) {level : DepthLevel}
    (hmask : t.Masked names row.id level) : level ∉ (t.nodeRow names row).groundingLevels := by
  intro hmem
  obtain ⟨row', hrow', hid, entry, hlast, hbare⟩ := hmask.bare
  cases h.row_unique hrow' hrow hid
  obtain ⟨entry', hlast', hwhy⟩ := mem_groundingLevels_nodeRow.mp hmem
  cases hlast.symm.trans hlast'
  rcases hwhy with hlevel | hcontent | ⟨rel, hrel, hsource, hinside, hdepth⟩
  · exact hmask.deeper hlevel
  · exact hcontent hbare
  · exact hmask.leave rel hrel hsource hdepth hinside

/-- The stored primitive grounds at the levels its node shows, and at the masked ones. -/
theorem mem_groundingLevels_iff_masked [NameFolding] {t : Tables} (h : t.Schema)
    {names : List String} {row : PrimitiveRow} (hrow : row ∈ t.primitives) {level : DepthLevel} :
    level ∈ (t.loadRow row).groundingLevels ↔
      level ∈ (t.nodeRow names row).groundingLevels ∨ t.Masked names row.id level := by
  rw [mem_groundingLevels_loadRow, mem_groundingLevels_nodeRow]
  constructor
  · rintro ⟨entry, hlast, hwhy⟩
    by_cases hshown : level = .existence ∨ entry.properties ≠ [] ∨ ∃ rel ∈ t.relata,
        rel.sourceId = row.id ∧ t.InClosure names rel.targetId ∧ rel.sourceDepth = level
    · exact Or.inl ⟨entry, hlast, hshown⟩
    · push Not at hshown
      obtain ⟨hdeeper, hbare, hleave⟩ := hshown
      refine Or.inr ⟨hdeeper, ⟨row, hrow, rfl, entry, hlast, hbare⟩, ?_, ?_⟩
      · exact (hwhy.resolve_left hdeeper).resolve_left fun hcontent => hcontent hbare
      · exact fun rel hrel hsource hdepth hinside => hleave rel hrel hsource hinside hdepth
  · rintro (⟨entry, hlast, hwhy⟩ | hmask)
    · refine ⟨entry, hlast, hwhy.imp_right (Or.imp_right ?_)⟩
      rintro ⟨rel, hrel, hsource, -, hdepth⟩
      exact ⟨rel, hrel, hsource, hdepth⟩
    · obtain ⟨rel, hrel, hsource, hdepth⟩ := hmask.relata
      obtain ⟨row', hrow', hid, entry, hlast, -⟩ := hmask.bare
      cases h.row_unique hrow' hrow hid
      exact ⟨entry, hlast, Or.inr (Or.inr ⟨rel, hrel, hsource, hdepth⟩)⟩

/-- A node shows what its primitive grounds to exactly when the query masks none of it. -/
theorem groundingLevels_nodeRow_eq_iff [NameFolding] {t : Tables} (h : t.Schema)
    {names : List String} {row : PrimitiveRow} (hrow : row ∈ t.primitives) :
    (t.nodeRow names row).groundingLevels = (t.loadRow row).groundingLevels ↔
      ∀ level, ¬ t.Masked names row.id level := by
  constructor
  · intro heq level hmask
    apply hmask.notMem_nodeRow h hrow
    rw [heq]
    exact (mem_groundingLevels_iff_masked h hrow).mpr (Or.inr hmask)
  · intro hnone
    ext level
    rw [mem_groundingLevels_iff_masked h hrow, or_iff_left (hnone level)]

end Tables

/-! ## Agreement of the two paths -/

/-- `find_by_id` returns a primitive with these grounding levels, and with this contiguous
max depth. -/
def LiveAt [NameFolding] (db : SqliteRepository) (id : UUID) (levels : Finset DepthLevel)
    (current : Option DepthLevel) : Prop :=
  ∃ p, Repository.findById db id = .ok (some p) ∧ p.groundingLevels = levels ∧
    p.contiguousMaxDepth = current

/-- A depth or relational gap names the current depth and the missing levels of the stored
primitive. -/
def GapIsLive [NameFolding] (db : SqliteRepository) : KnowledgeGap → Prop
  | .depth g => ∃ levels, LiveAt db g.primitive.id levels g.currentDepth ∧
      g.missingLevels = missingDepthLevels levels g.currentDepth g.requiredDepth
  | .relational g => ∃ levels, LiveAt db g.target.id levels g.currentDepth ∧
      g.missingLevels = missingDepthLevels levels g.currentDepth g.requiredDepth
  | _ => True

/-- A query shows every primitive as `find_by_id` reads it, and a check reports its gaps as
learning will find them. -/
structure ReadPathsAgree [NameFolding] {σ : Type} (vre : VRE σ) (db : SqliteRepository)
    (draw : Draw) (concepts : List String) (minDepth : Option DepthLevel) : Prop where
  nodes : ∃ sg, Repository.resolveSubgraph db concepts = .ok sg ∧
    ∀ n ∈ sg.nodes, LiveAt db n.id n.groundingLevels n.contiguousMaxDepth
  gaps : ∃ result db', vre.check draw concepts minDepth db = .ok result db' ∧
    ∀ gap ∈ result.gaps, GapIsLive db' gap

theorem liveAt_of_live [NameFolding] {db : SqliteRepository} (h : db.tables.Schema) {id : UUID}
    {p : Primitive} (hp : db.tables.live id = some p) :
    LiveAt db id p.groundingLevels p.contiguousMaxDepth :=
  ⟨p, (findById_eq h id).trans (congrArg Except.ok hp), rfl, rfl⟩

/-- A node without masked levels is as live as its primitive, also after metrics are
counted. -/
theorem liveAt_node [NameFolding] {t t' : Tables} (h : t.Schema) (hsame : t.SameKnowledge t')
    {names : List String} (hnone : ∀ id, t.InClosure names id → ∀ level, ¬ t.Masked names id level)
    {n : Primitive} (hn : n ∈ (t.subgraph names).nodes) :
    LiveAt ⟨t', none⟩ n.id n.groundingLevels n.contiguousMaxDepth := by
  obtain ⟨row, hrow, hinside, rfl⟩ := Tables.mem_closureNodes.mp hn
  have hlevels := (Tables.groundingLevels_nodeRow_eq_iff h hrow).mpr (hnone row.id hinside)
  have hlive := (Tables.live_eq_some h).mpr ⟨row, hrow, rfl, rfl⟩
  obtain ⟨metrics, hlive'⟩ := hsame.live h hlive
  have hdb : (⟨t', none⟩ : SqliteRepository).tables.Schema := h.sameKnowledge hsame
  have hread := liveAt_of_live hdb hlive'
  rw [Primitive.contiguousMaxDepth, hlevels]
  exact hread

/-- Both parts hold for exactly the queries that mask no level of their closure. -/
theorem readPathsAgree_iff [NameFolding] {σ : Type} (vre : VRE σ) {db : SqliteRepository}
    (hidle : db.savepoint = none) (h : db.tables.Schema) (draw : Draw) (concepts : List String)
    (minDepth : Option DepthLevel) :
    ReadPathsAgree vre db draw concepts minDepth ↔
      ∀ id, db.tables.InClosure concepts id → ∀ level, ¬ db.tables.Masked concepts id level := by
  obtain ⟨t, savepoint⟩ := db
  subst hidle
  have hdb : (⟨t, none⟩ : SqliteRepository).tables.Schema := h
  constructor
  · rintro ⟨⟨sg, hsg, hnodes⟩, -⟩ id hinside
    obtain rfl := Except.ok.inj ((resolveSubgraph_eq hdb concepts).symm.trans hsg)
    obtain ⟨row, hrow, rfl⟩ := hinside.stored h
    have hnode := Tables.mem_closureNodes.mpr ⟨row, hrow, hinside, rfl⟩
    obtain ⟨p, hp, hlevels, -⟩ := hnodes _ hnode
    have hlive := (Tables.live_eq_some h).mpr ⟨row, hrow, rfl, rfl⟩
    have hfound := Except.ok.inj ((findById_eq hdb row.id).symm.trans hp)
    cases hlive.symm.trans hfound
    exact (Tables.groundingLevels_nodeRow_eq_iff h hrow).mp hlevels.symm
  · intro hnone
    refine ⟨⟨_, resolveSubgraph_eq hdb concepts, fun n => liveAt_node h (.refl t) hnone⟩, ?_⟩
    by_cases hne : concepts = []
    · subst hne
      have hground := GroundingEngine.ground_nil draw (⟨t, none⟩ : SqliteRepository) minDepth
      obtain ⟨t', hcheck, -⟩ := vre.check_eq draw hground
      refine ⟨_, _, hcheck, fun gap hgap => ?_⟩
      rw [VRE.gaps_stampIdentity] at hgap
      cases hgap
    · obtain ⟨t', hcheck, hsame⟩ :=
        vre.check_eq draw (GroundingEngine.ground_eq hdb draw hne minDepth)
      refine ⟨_, _, hcheck, fun gap hgap => ?_⟩
      rw [VRE.gaps_stampIdentity] at hgap
      rcases GroundingEngine.Inquiry.gap_cases (h.coherent concepts) hgap with
        ⟨g, rfl, -⟩ | ⟨g, rfl, howes⟩ | ⟨g, rfl, howes⟩ | ⟨g, rfl⟩
      · trivial
      · exact ⟨_, howes.current ▸ liveAt_node h hsame hnone howes.mem, rfl⟩
      · exact ⟨_, howes.current ▸ liveAt_node h hsame hnone howes.mem, rfl⟩
      · trivial

/-- `Delete` has a D1 whose one relatum leads to `Log`, outside the closure of `Delete`. -/
def deleteLog [NameFolding] : SqliteRepository :=
  List.foldl Operation.next .fresh
    [.save (sample 0 "Log" [.existence] []),
      .save (sample 1 "Delete" [.existence, .identity]
        [⟨.includes, 0, .existence, [], some authored⟩])]

/-- On its own, `Delete` is shown at D0 while `find_by_id` reads it at D1. -/
theorem not_readPathsAgree_deleteLog : letI := asciiFolding
    ¬ ReadPathsAgree (⟨.new, none⟩ : VRE Unit) deleteLog ⟨fun i => i, 0⟩ ["delete"]
      (some .identity) := by
  let _ := asciiFolding
  rintro ⟨⟨sg, hsg, hnodes⟩, -⟩
  have hshown : (Repository.resolveSubgraph deleteLog ["delete"]).map (fun sg =>
      sg.nodes.map fun n => (n.id, n.contiguousMaxDepth)) = .ok [(1, some .existence)] := by decide
  have hread : (Repository.findById deleteLog 1).map (fun p =>
      p.map Primitive.contiguousMaxDepth) = .ok (some (some .identity)) := by decide
  rw [hsg] at hshown
  obtain ⟨n, hn, hpair⟩ := List.map_eq_singleton_iff.mp (Except.ok.inj hshown)
  obtain ⟨hid, hdepth⟩ := Prod.mk.inj hpair
  obtain ⟨p, hp, -, hlive⟩ := hnodes n (by simp [hn])
  rw [hid] at hp
  rw [hp] at hread
  have hdeep := Option.some.inj (Except.ok.inj hread)
  rw [hlive, hdepth] at hdeep
  cases hdeep

/-- Queried together with `Log`, nothing of `Delete` is masked. -/
theorem readPathsAgree_deleteLog : letI := asciiFolding
    ReadPathsAgree (⟨.new, none⟩ : VRE Unit) deleteLog ⟨fun i => i, 0⟩ ["delete", "log"] none := by
  let _ := asciiFolding
  have hsound : deleteLog.Sound := Operation.sound_foldl _
  have hinside : ∀ rel ∈ deleteLog.tables.relata,
      rel.targetId ∈ Sqlite.reachableIds deleteLog.tables ["delete", "log"] := by decide
  refine (readPathsAgree_iff ⟨.new, none⟩ hsound.1 hsound.2.toSchema ⟨fun i => i, 0⟩ _ none).mpr ?_
  rintro id - level ⟨-, -, ⟨rel, hrel, hsource, hdepth⟩, hleave⟩
  exact hleave rel hrel hsource hdepth (Tables.mem_reachableIds.mp (hinside rel hrel))

end Vre
