import Vre.Verification.Store.Save

/-! # The resolved subgraph

What `resolve_subgraph` returns: the primitives reachable from the named ones along
transitive relata, each read with the relata that stay inside, and every relatum between
two of them.
-/

namespace Vre

namespace Tables

/-! ## The transitive closure of a query -/

/-- The primitive carries one of the names, up to folding. -/
def Named [NameFolding] (t : Tables) (names : List String) (id : UUID) : Prop :=
  ∃ row ∈ t.primitives, row.id = id ∧ row.nameLower ∈ names.map foldName

/-- The primitive is reachable from a named one along transitive relata. -/
def InClosure [NameFolding] (t : Tables) (names : List String) (id : UUID) : Prop :=
  ∃ root, t.Named names root ∧ Relation.ReflTransGen t.TransEdge root id

theorem mem_reachableIds [NameFolding] {t : Tables} {names : List String} {id : UUID} :
    id ∈ Sqlite.reachableIds t names ↔ t.InClosure names id := by
  have hrel : (fun a b => b ∈ t.transitiveTargets a) = t.TransEdge := by
    funext a b
    exact propext mem_transitiveTargets
  have hnodes : ∀ roots a, Worklist.Reach t.transitiveTargets roots a →
      ∀ b ∈ t.transitiveTargets a, b ∈ t.targets :=
    fun _ _ _ _ hb => transEdge_target (mem_transitiveTargets.mp hb)
  rw [Sqlite.reachableIds, Worklist.mem_search (hnodes _)]
  simp only [Worklist.Reach, hrel, InClosure, Named, List.mem_map, List.mem_filter,
    decide_eq_true_eq]
  constructor
  · rintro ⟨root, ⟨row, ⟨hrow, hname⟩, hid⟩, hpath⟩
    exact ⟨root, ⟨row, hrow, hid, hname⟩, hpath⟩
  · rintro ⟨root, ⟨row, hrow, hid, hname⟩, hpath⟩
    exact ⟨root, ⟨row, ⟨hrow, hname⟩, hid⟩, hpath⟩

theorem Named.inClosure [NameFolding] {t : Tables} {names : List String} {id : UUID}
    (h : t.Named names id) : t.InClosure names id :=
  ⟨id, h, .refl⟩

theorem InClosure.step [NameFolding] {t : Tables} {names : List String} {a b : UUID}
    (h : t.InClosure names a) (hedge : t.TransEdge a b) : t.InClosure names b := by
  obtain ⟨root, hroot, hpath⟩ := h
  exact ⟨root, hroot, hpath.tail hedge⟩

theorem InClosure.stored [NameFolding] {t : Tables} (ht : t.Schema) {names : List String}
    {id : UUID} (h : t.InClosure names id) : t.Stored id := by
  obtain ⟨root, ⟨row, hrow, hid, -⟩, hpath⟩ := h
  cases hpath with
  | refl => exact ⟨row, hrow, hid⟩
  | tail _ hedge =>
      obtain ⟨rel, hrel, -, htarget, -⟩ := hedge
      exact htarget ▸ ht.targets rel hrel

/-! ## The subgraph -/

/-- The relata of a primitive that stay inside the closure. -/
def inner [NameFolding] (t : Tables) (names : List String) (id : UUID) : List RelatumRow :=
  (t.outgoing id).filter fun rel => rel.targetId ∈ Sqlite.reachableIds t names

/-- The primitive that the subgraph shows for a record. -/
def nodeRow [NameFolding] (t : Tables) (names : List String) (row : PrimitiveRow) : Primitive :=
  row.load (t.inner names row.id)

/-- Every relatum with both ends in the closure. -/
def closureRelata [NameFolding] (t : Tables) (names : List String) : List RelatumRow :=
  t.relata.filter fun rel =>
    rel.sourceId ∈ Sqlite.reachableIds t names ∧ rel.targetId ∈ Sqlite.reachableIds t names

def closureNodes [NameFolding] (t : Tables) (names : List String) : List Primitive :=
  (t.primitives.filter fun row => row.id ∈ Sqlite.reachableIds t names).map (t.nodeRow names)

def subgraph [NameFolding] (t : Tables) (names : List String) : ResolvedSubgraph where
  roots := (t.closureNodes names).filter fun p => p.nameLower ∈ names.map foldName
  nodes := t.closureNodes names
  edges := (t.closureRelata names).map RelatumRow.toStep

theorem mem_inner [NameFolding] {t : Tables} {names : List String} {id : UUID}
    {rel : RelatumRow} : rel ∈ t.inner names id ↔
      rel ∈ t.relata ∧ rel.sourceId = id ∧ t.InClosure names rel.targetId := by
  simp [inner, mem_outgoing, mem_reachableIds, and_assoc]

theorem mem_closureRelata [NameFolding] {t : Tables} {names : List String} {rel : RelatumRow} :
    rel ∈ t.closureRelata names ↔
      rel ∈ t.relata ∧ t.InClosure names rel.sourceId ∧ t.InClosure names rel.targetId := by
  simp [closureRelata, mem_reachableIds]

theorem mem_closureNodes [NameFolding] {t : Tables} {names : List String} {p : Primitive} :
    p ∈ t.closureNodes names ↔
      ∃ row ∈ t.primitives, t.InClosure names row.id ∧ t.nodeRow names row = p := by
  simp [closureNodes, mem_reachableIds, and_assoc]

theorem mem_ids_closureNodes [NameFolding] {t : Tables} (h : t.Schema) {names : List String}
    {id : UUID} : id ∈ (t.closureNodes names).map Primitive.id ↔ t.InClosure names id := by
  constructor
  · intro hid
    obtain ⟨n, hn, rfl⟩ := List.mem_map.mp hid
    obtain ⟨row, -, hinside, rfl⟩ := mem_closureNodes.mp hn
    exact hinside
  · intro hid
    obtain ⟨row, hrow, rfl⟩ := hid.stored h
    exact List.mem_map.mpr ⟨_, mem_closureNodes.mpr ⟨row, hrow, hid, rfl⟩, rfl⟩

@[simp] theorem nodeRow_id [NameFolding] (t : Tables) (names : List String) (row : PrimitiveRow) :
    (t.nodeRow names row).id = row.id := rfl

theorem Schema.nameLower_nodeRow [NameFolding] {t : Tables} (h : t.Schema) (names : List String)
    {row : PrimitiveRow} (hrow : row ∈ t.primitives) :
    (t.nodeRow names row).nameLower = row.nameLower :=
  (h.folded row hrow).symm

/-- Of the relata of the closure, those that leave a node are its inner relata. -/
theorem filter_closureRelata [NameFolding] {t : Tables} {names : List String} {id : UUID}
    (hid : id ∈ Sqlite.reachableIds t names) :
    ((t.closureRelata names).filter fun rel => rel.sourceId = id) = t.inner names id := by
  rw [closureRelata, inner, outgoing, List.filter_filter, List.filter_filter]
  apply List.filter_congr
  intro rel _
  by_cases hsource : rel.sourceId = id
  · simp [hsource, hid]
  · simp [hsource]

/-- Grouping the edges by source and looking a node up gives its inner relata. -/
theorem edgesBySource_eq [NameFolding] {t : Tables} {names : List String} {id : UUID}
    (hid : id ∈ Sqlite.reachableIds t names) :
    ((OrderedDict.groupBy RelatumRow.sourceId (t.closureRelata names)).get? id).getD [] =
      t.inner names id := by
  rw [OrderedDict.getD_groupBy, filter_closureRelata hid]

theorem subgraph_eq_empty [NameFolding] {t : Tables} {names : List String}
    (h : ∀ id, ¬ t.InClosure names id) : t.subgraph names = ⟨[], [], []⟩ := by
  have hids : Sqlite.reachableIds t names = [] :=
    List.eq_nil_iff_forall_not_mem.mpr fun id hid => h id (mem_reachableIds.mp hid)
  simp [subgraph, closureNodes, closureRelata, hids]

end Tables

/-- Resolution of a stamped store never fails, and returns the closure. -/
theorem resolveSubgraph_eq [NameFolding] {db : SqliteRepository} (h : db.tables.Schema)
    (names : List String) :
    Sqlite.resolveSubgraph db names = .ok (db.tables.subgraph names) := by
  unfold Sqlite.resolveSubgraph
  by_cases hnames : names = []
  · subst hnames
    refine (congrArg Except.ok (Tables.subgraph_eq_empty ?_)).symm
    rintro id ⟨root, ⟨row, -, -, hname⟩, -⟩
    cases hname
  by_cases hids : Sqlite.reachableIds db.tables names = []
  · have hnone : ∀ id, ¬ db.tables.InClosure names id := by
      intro id hid
      have hmem := Tables.mem_reachableIds.mpr hid
      rw [hids] at hmem
      cases hmem
    simp only [List.isEmpty_iff, hnames, hids, if_true, if_false, Tables.subgraph_eq_empty hnone]
  · simp only [List.isEmpty_iff, hnames, hids, if_false]
    have hnodes : (db.tables.primitives.filter fun row =>
        row.id ∈ Sqlite.reachableIds db.tables names).mapM (fun row => hydratePrimitive row
          (((OrderedDict.groupBy RelatumRow.sourceId (db.tables.closureRelata names)).get?
            row.id).getD [])) = .ok (db.tables.closureNodes names) := by
      apply Loops.except_mapM_eq_ok
      intro row hrow
      obtain ⟨hmem, hid⟩ := List.mem_filter.mp hrow
      rw [Tables.edgesBySource_eq (by simpa using hid)]
      exact hydratePrimitive_eq (h.stamped_rows row hmem) fun rel hrel =>
        h.stamped_relata rel (Tables.mem_inner.mp hrel).1
    exact Loops.except_bind_ok.mpr ⟨_, hnodes, rfl⟩

end Vre
