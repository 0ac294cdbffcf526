import Mathlib.Data.List.Nodup
import Vre.Library.Digraph
import Vre.Model.Sqlite
import Vre.Verification.Knowledge.Serialization

/-! # Stored graphs

What the schema and the provenance checks promise of the tables, the well-formedness that
the repository maintains on top, and the primitives that the two lookups read back.
-/

namespace Vre

namespace Tables

/-! ## Well-formedness -/

/-- A primitive is stored under the id. -/
def Stored (t : Tables) (id : UUID) : Prop :=
  ∃ row ∈ t.primitives, row.id = id

/-- A stored `REQUIRES`, `DEPENDS_ON` or `CONSTRAINED_BY` relatum, at any depth. -/
def TransEdge (t : Tables) (a b : UUID) : Prop :=
  ∃ rel ∈ t.relata, rel.sourceId = a ∧ rel.targetId = b ∧ rel.relType ∈ transitiveRelationTypes

/-- The declared constraints hold, and every record is stamped. -/
structure Schema [NameFolding] (t : Tables) : Prop where
  nodup_ids : (t.primitives.map PrimitiveRow.id).Nodup
  nodup_names : (t.primitives.map PrimitiveRow.nameLower).Nodup
  folded : ∀ row ∈ t.primitives, row.nameLower = foldName row.name
  sources : ∀ rel ∈ t.relata, t.Stored rel.sourceId
  targets : ∀ rel ∈ t.relata, t.Stored rel.targetId
  stamped_rows : ∀ row ∈ t.primitives, row.Stamped
  stamped_relata : ∀ rel ∈ t.relata, rel.provenanceJson.isSome

/-- The relatum stands at a level that has a record. -/
def Homed (t : Tables) (rel : RelatumRow) : Prop :=
  ∀ row ∈ t.primitives, row.id = rel.sourceId → ∃ entry ∈ row.depthsJson,
    entry.level = rel.sourceDepth

structure WellFormed [NameFolding] (t : Tables) : Prop extends t.Schema where
  acyclic : Digraph.Acyclic t.TransEdge
  homed : ∀ rel ∈ t.relata, t.Homed rel

/-! ## The stored primitives -/

def outgoing (t : Tables) (id : UUID) : List RelatumRow :=
  t.relata.filter fun rel => rel.sourceId = id

/-- The primitive a stored record stands for, with every relatum it is the source of. -/
def loadRow (t : Tables) (row : PrimitiveRow) : Primitive :=
  row.load (t.outgoing row.id)

/-- The primitive stored under an id. -/
def live (t : Tables) (id : UUID) : Option Primitive :=
  (t.primitives.find? fun row => row.id = id).map t.loadRow

/-- The primitive stored under a name. -/
def named [NameFolding] (t : Tables) (name : String) : Option Primitive :=
  (t.primitives.find? fun row => row.nameLower = foldName name).map t.loadRow

/-- The primitive that `upsert_primitive` saves: it takes over the id of its namesake. -/
def canonical [NameFolding] (t : Tables) (p : Primitive) : Primitive :=
  match t.named p.name with
  | none => p
  | some found => { p with id := found.id }

theorem mem_outgoing {t : Tables} {id : UUID} {rel : RelatumRow} :
    rel ∈ t.outgoing id ↔ rel ∈ t.relata ∧ rel.sourceId = id := by
  simp [outgoing]

theorem stored_iff_mem {t : Tables} {id : UUID} :
    t.Stored id ↔ id ∈ t.primitives.map PrimitiveRow.id :=
  List.mem_map.symm

theorem stored_iff_any {t : Tables} {id : UUID} :
    (t.primitives.any fun row => row.id = id) ↔ t.Stored id := by
  simp [Stored]

/-- Two records under one id are the same record. -/
theorem Schema.row_unique [NameFolding] {t : Tables} (h : t.Schema) {row row' : PrimitiveRow}
    (hrow : row ∈ t.primitives) (hrow' : row' ∈ t.primitives) (hid : row.id = row'.id) :
    row = row' :=
  List.inj_on_of_nodup_map h.nodup_ids hrow hrow' hid

/-- Two records under one folded name are the same record. -/
theorem Schema.row_unique_name [NameFolding] {t : Tables} (h : t.Schema)
    {row row' : PrimitiveRow} (hrow : row ∈ t.primitives) (hrow' : row' ∈ t.primitives)
    (hname : row.nameLower = row'.nameLower) : row = row' :=
  List.inj_on_of_nodup_map h.nodup_names hrow hrow' hname

theorem live_eq_some [NameFolding] {t : Tables} (h : t.Schema) {id : UUID} {p : Primitive} :
    t.live id = some p ↔ ∃ row ∈ t.primitives, row.id = id ∧ t.loadRow row = p := by
  rw [live, Option.map_eq_some_iff]
  constructor
  · rintro ⟨row, hfind, rfl⟩
    exact ⟨row, List.mem_of_find?_eq_some hfind, by simpa using List.find?_some hfind, rfl⟩
  · rintro ⟨row, hrow, hid, rfl⟩
    refine ⟨row, ?_, rfl⟩
    cases hfind : t.primitives.find? fun row => row.id = id with
    | none => exact absurd hid (by simpa using List.find?_eq_none.mp hfind row hrow)
    | some found =>
        have hfound : found.id = id := by simpa using List.find?_some hfind
        exact congrArg some
          (h.row_unique (List.mem_of_find?_eq_some hfind) hrow (hfound.trans hid.symm))

theorem live_eq_none {t : Tables} {id : UUID} : t.live id = none ↔ ¬ t.Stored id := by
  simp [live, Stored]

theorem named_eq_some [NameFolding] {t : Tables} (h : t.Schema) {name : String} {p : Primitive} :
    t.named name = some p ↔
      ∃ row ∈ t.primitives, row.nameLower = foldName name ∧ t.loadRow row = p := by
  rw [named, Option.map_eq_some_iff]
  constructor
  · rintro ⟨row, hfind, rfl⟩
    exact ⟨row, List.mem_of_find?_eq_some hfind, by simpa using List.find?_some hfind, rfl⟩
  · rintro ⟨row, hrow, hname, rfl⟩
    refine ⟨row, ?_, rfl⟩
    cases hfind : t.primitives.find? fun row => row.nameLower = foldName name with
    | none => exact absurd hname (by simpa using List.find?_eq_none.mp hfind row hrow)
    | some found =>
        have hfound : found.nameLower = foldName name := by simpa using List.find?_some hfind
        exact congrArg some
          (h.row_unique_name (List.mem_of_find?_eq_some hfind) hrow (hfound.trans hname.symm))

theorem named_eq_none [NameFolding] {t : Tables} {name : String} :
    t.named name = none ↔ ∀ row ∈ t.primitives, row.nameLower ≠ foldName name := by
  simp [named]

theorem Schema.nameLower_loadRow [NameFolding] {t : Tables} (h : t.Schema) {row : PrimitiveRow}
    (hrow : row ∈ t.primitives) : (t.loadRow row).nameLower = row.nameLower :=
  (h.folded row hrow).symm

theorem live_id [NameFolding] {t : Tables} (h : t.Schema) {id : UUID} {p : Primitive}
    (hp : t.live id = some p) : p.id = id := by
  obtain ⟨row, -, hid, rfl⟩ := (live_eq_some h).mp hp
  exact hid

/-- The primitive found by a name is the one stored under its id. -/
theorem live_of_named [NameFolding] {t : Tables} (h : t.Schema) {name : String} {p : Primitive}
    (hp : t.named name = some p) : t.live p.id = some p ∧ p.nameLower = foldName name := by
  obtain ⟨row, hrow, hname, rfl⟩ := (named_eq_some h).mp hp
  exact ⟨(live_eq_some h).mpr ⟨row, hrow, rfl, rfl⟩, (h.nameLower_loadRow hrow).trans hname⟩

theorem named_of_live [NameFolding] {t : Tables} (h : t.Schema) {id : UUID} {p : Primitive}
    (hp : t.live id = some p) {name : String} (hname : p.nameLower = foldName name) :
    t.named name = some p := by
  obtain ⟨row, hrow, -, rfl⟩ := (live_eq_some h).mp hp
  exact (named_eq_some h).mpr ⟨row, hrow, (h.nameLower_loadRow hrow).symm.trans hname, rfl⟩

/-- A depth of a stored primitive holds the relata that leave the primitive at its level. -/
theorem mem_relata_live [NameFolding] {t : Tables} (h : t.Schema) {id : UUID} {p : Primitive}
    (hp : t.live id = some p) {d : Depth} (hd : d ∈ p.depths) {r : Relatum} :
    r ∈ d.relata ↔ ∃ rel ∈ t.relata, rel.sourceId = id ∧ rel.sourceDepth = d.level ∧
      rel.toRelatum = r := by
  obtain ⟨row, -, rfl, rfl⟩ := (live_eq_some h).mp hp
  rw [relata_of_mem_load hd, mem_relataAt]
  simp only [mem_outgoing, and_assoc]

theorem stored_of_live {t : Tables} {id : UUID} {p : Primitive} (hp : t.live id = some p) :
    t.Stored id := by
  by_contra hnot
  rw [live_eq_none.mpr hnot] at hp
  cases hp

theorem exists_live {t : Tables} {id : UUID} (h : t.Stored id) : ∃ p, t.live id = some p := by
  cases hp : t.live id with
  | none => exact absurd h (live_eq_none.mp hp)
  | some p => exact ⟨p, rfl⟩

theorem Schema.storable_loadRow [NameFolding] {t : Tables} (h : t.Schema) {row : PrimitiveRow}
    (hrow : row ∈ t.primitives) : (t.loadRow row).Storable :=
  storable_load (h.stamped_rows row hrow) fun rel hrel =>
    h.stamped_relata rel (mem_outgoing.mp hrel).1

theorem Schema.storable_live [NameFolding] {t : Tables} (h : t.Schema) {id : UUID} {p : Primitive}
    (hp : t.live id = some p) : p.Storable := by
  obtain ⟨row, hrow, -, rfl⟩ := (live_eq_some h).mp hp
  exact h.storable_loadRow hrow

theorem Schema.normal_live [NameFolding] {t : Tables} (h : t.Schema) {id : UUID} {p : Primitive}
    (hp : t.live id = some p) : p.Normal := by
  obtain ⟨row, -, -, rfl⟩ := (live_eq_some h).mp hp
  exact normal_load row _

end Tables

/-! ## The lookups -/

theorem findById_eq [NameFolding] {db : SqliteRepository} (h : db.tables.Schema) (id : UUID) :
    Sqlite.findById db id = .ok (db.tables.live id) := by
  unfold Sqlite.findById Tables.live
  cases hfind : db.tables.primitives.find? fun row => row.id = id with
  | none => rfl
  | some row =>
      have hrow := List.mem_of_find?_eq_some hfind
      have hid : row.id = id := by simpa using List.find?_some hfind
      have hrelata : ∀ rel ∈ Sqlite.fetchOutgoingRelata db.tables id, rel.provenanceJson.isSome :=
        fun rel hrel => h.stamped_relata rel (List.mem_filter.mp hrel).1
      have hload := hydratePrimitive_eq (h.stamped_rows row hrow) hrelata
      simp only [hload]
      subst hid
      rfl

theorem findByName_eq [NameFolding] {db : SqliteRepository} (h : db.tables.Schema)
    (name : String) : Sqlite.findByName db name = .ok (db.tables.named name) := by
  unfold Sqlite.findByName Tables.named
  cases hfind : db.tables.primitives.find? fun row => row.nameLower = foldName name with
  | none => rfl
  | some row =>
      have hrow := List.mem_of_find?_eq_some hfind
      have hrelata : ∀ rel ∈ Sqlite.fetchOutgoingRelata db.tables row.id,
          rel.provenanceJson.isSome :=
        fun rel hrel => h.stamped_relata rel (List.mem_filter.mp hrel).1
      have hload := hydratePrimitive_eq (h.stamped_rows row hrow) hrelata
      simp only [hload]
      rfl

/-! ## New identifiers -/

/-- The identifiers drawn by a call: no stored primitive has one of them, and no two are the
same. -/
structure Draw.Fresh (draw : Draw) (t : Tables) : Prop where
  unused : ∀ i, ¬ t.Stored (draw.uuid4 i)
  distinct : Function.Injective draw.uuid4

/-- Identifiers drawn above all stored ones are new. -/
theorem Draw.fresh_above {t : Tables} {bound : UUID} (now : Timestamp)
    (h : ∀ row ∈ t.primitives, row.id < bound) : Draw.Fresh ⟨fun i => i + bound, now⟩ t where
  unused := by
    rintro i ⟨row, hrow, hid⟩
    exact absurd (h row hrow) (not_lt.mpr (hid.symm ▸ Nat.le_add_left bound i))
  distinct := fun i j hij => Nat.add_right_cancel hij

end Vre
