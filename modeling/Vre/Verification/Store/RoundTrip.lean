import Vre.Verification.Store.Live
import Vre.Verification.Store.Runs

/-! # Saving and loading

Each undoes the other. A primitive with one record at each level reads back as it was saved,
by its id and under every spelling of its name; and saving what was read back changes no
stored record.
-/

namespace Vre

/-! ## The records that count -/

/-- The records that count, in ascending order of their levels. -/
def lastEntries (entries : List DepthEntry) : List DepthEntry :=
  DepthLevel.sorted.filterMap (lastAt entries)

theorem mem_lastEntries {entries : List DepthEntry} {entry : DepthEntry} :
    entry ∈ lastEntries entries ↔ lastAt entries entry.level = some entry := by
  simp only [lastEntries, List.mem_filterMap, DepthLevel.mem_sorted, true_and]
  constructor
  · rintro ⟨level, hlast⟩
    rwa [(lastAt_eq_some hlast).2]
  · exact fun hlast => ⟨entry.level, hlast⟩

theorem nodup_levels_lastEntries (entries : List DepthEntry) :
    ((lastEntries entries).map DepthEntry.level).Nodup := by
  refine List.pairwise_map.mpr (List.Pairwise.filterMap _ ?_ DepthLevel.nodup_sorted)
  intro a b hne entry hentry entry' hentry'
  rwa [(lastAt_eq_some hentry).2, (lastAt_eq_some hentry').2]

/-- Where no level is written twice, every record counts. -/
theorem lastAt_iff_mem {entries : List DepthEntry} (h : (entries.map DepthEntry.level).Nodup)
    {level : DepthLevel} {entry : DepthEntry} :
    lastAt entries level = some entry ↔ entry ∈ entries ∧ entry.level = level := by
  refine ⟨lastAt_eq_some, fun ⟨hmem, hlevel⟩ => ?_⟩
  obtain ⟨last, hlast⟩ := exists_lastAt hmem hlevel
  obtain ⟨hlastMem, hlastLevel⟩ := lastAt_eq_some hlast
  obtain rfl := List.inj_on_of_nodup_map h hlastMem hmem (hlastLevel.trans hlevel.symm)
  exact hlast

theorem perm_lastEntries {entries : List DepthEntry} (h : (entries.map DepthEntry.level).Nodup) :
    (lastEntries entries).Perm entries := by
  have hnodup := List.Nodup.of_map _ (nodup_levels_lastEntries entries)
  apply (List.perm_ext_iff_of_nodup hnodup (List.Nodup.of_map _ h)).mpr
  intro entry
  rw [mem_lastEntries, lastAt_iff_mem h]
  exact and_iff_left rfl

theorem DepthEntry.toEntry_toDepth (entry : DepthEntry) (relata : List Relatum) :
    (entry.toDepth relata).toEntry = entry := by
  simp [DepthEntry.toDepth, Depth.toEntry, jsonText_jsonLoads]

/-- A record that was read back is written as the records of it that count. -/
theorem depthsJson_toRow_load [NameFolding] (row : PrimitiveRow) (relata : List RelatumRow) :
    (row.load relata).toRow.depthsJson = lastEntries row.depthsJson := by
  simp only [Primitive.toRow, PrimitiveRow.load, lastEntries, List.map_filterMap]
  apply List.filterMap_congr
  intro level _
  simp [PrimitiveRow.depthAt, Function.comp_def, DepthEntry.toEntry_toDepth]

/-! ## Saving undoes loading -/

/-- The record with those of its depth records that count. -/
def PrimitiveRow.counting (row : PrimitiveRow) : PrimitiveRow :=
  { row with depthsJson := lastEntries row.depthsJson }

namespace Tables

/-- The same records in the same order, each with the same columns and the same depth records,
and the same relata. -/
structure SameRecords (t t' : Tables) : Prop where
  rows : List.Forall₂ (fun row row' => row' = { row with depthsJson := row'.depthsJson } ∧
    row'.depthsJson.Perm row.depthsJson) t.primitives t'.primitives
  relata : t'.relata.Perm t.relata

/-- What a stored primitive is read back as is written as its own record. -/
theorem Schema.toRow_loadRow [NameFolding] {t : Tables} (h : t.Schema) {row : PrimitiveRow}
    (hrow : row ∈ t.primitives) : (t.loadRow row).toRow = row.counting := by
  have hlower : row.nameLower = foldName row.name := h.folded row hrow
  have hdepths := depthsJson_toRow_load row (t.outgoing row.id)
  obtain ⟨id, name, nameLower, depthsJson, provenance, metrics⟩ := row
  obtain rfl : nameLower = foldName name := hlower
  exact congrArg (PrimitiveRow.mk id name (foldName name) · provenance metrics) hdepths

/-- Saving a stored primitive as it was read back leaves every other record. -/
theorem rows_replace_live [NameFolding] {t : Tables} (h : t.Schema) {q : Primitive}
    (hq : t.live q.id = some q) : (t.replace q.toRow q.toRelata).primitives =
      t.primitives.map fun row => if row.id = q.id then row.counting else row := by
  obtain ⟨row, hrow, hid, hload⟩ := (live_eq_some h).mp hq
  have hany : t.primitives.any fun other => other.id = q.toRow.id :=
    List.any_eq_true.mpr ⟨row, hrow, decide_eq_true hid⟩
  rw [replace, replaceRow, if_pos hany]
  apply List.map_congr_left
  intro other hother
  by_cases hother_id : other.id = q.id
  · obtain rfl := h.row_unique hother hrow (hother_id.trans hid.symm)
    rw [if_pos hother_id, ← h.toRow_loadRow hrow, hload]
    exact if_pos hother_id
  · rw [if_neg hother_id]
    exact if_neg hother_id

end Tables

namespace Sqlite

/-- What was read back is saved again: the store keeps of its record the depth records that
count, every other record and every relatum, and every primitive is read back as before. -/
def Resaves [NameFolding] (db : SqliteRepository) : Prop :=
  ∀ id q, findById db id = .ok (some q) → ∃ db', savePrimitive q db = .ok () db' ∧
    db'.savepoint = none ∧ db'.tables.primitives = (db.tables.primitives.map fun row =>
      if row.id = id then row.counting else row) ∧ db'.tables.relata.Perm db.tables.relata ∧
    ∀ other, findById db' other = findById db other

theorem resaves [NameFolding] {t : Tables} (h : t.WellFormed) : Resaves ⟨t, none⟩ := by
  intro id q hfind
  rw [findById_eq h.toSchema] at hfind
  have hlive : t.live id = some q := Except.ok.inj hfind
  obtain rfl : q.id = id := Tables.live_id h.toSchema hlive
  have hstorable := h.toSchema.storable_live hlive
  have haccepts := accepts_of_stored h hstorable hlive rfl (.refl _)
  have hnormal := h.toSchema.normal_live hlive
  refine ⟨_, savePrimitive_of_accepts haccepts, rfl, Tables.rows_replace_live h.toSchema hlive,
    Tables.relata_replace_stored h hlive (.refl _), ?_⟩
  intro other
  have hbefore : findById ⟨t, none⟩ other = .ok (t.live other) := findById_eq h.toSchema other
  apply (findById_eq (h.replace haccepts).toSchema other).trans
  rw [hbefore, Tables.live_replace h.toSchema haccepts hnormal]
  by_cases hother : other = q.id
  · rw [if_pos hother, hother, hlive]
  · rw [if_neg hother]

/-- Where the primitive has one record at each level, all its depth records count. -/
theorem sameRecords_of_resaved {t t' : Tables} {id : UUID}
    (hlevels : ∀ row ∈ t.primitives, row.id = id → (row.depthsJson.map DepthEntry.level).Nodup)
    (hrows : t'.primitives = t.primitives.map fun row => if row.id = id then row.counting else row)
    (hrelata : t'.relata.Perm t.relata) : t.SameRecords t' where
  rows := by
    rw [hrows, List.forall₂_map_right_iff, List.forall₂_same]
    intro row hrow
    by_cases hid : row.id = id
    · rw [if_pos hid]
      exact ⟨rfl, perm_lastEntries (hlevels row hrow hid)⟩
    · rw [if_neg hid]
      exact ⟨rfl, .refl _⟩
  relata := hrelata

/-! ## Loading undoes saving -/

/-- An accepted primitive with one record at each level reads back as itself, its depths in
ascending order, and saving it again changes no record. Any other stored primitive can be
saved again as well, before and after. -/
theorem savePrimitive_roundTrip [NameFolding] {t : Tables} (h : t.WellFormed) {p : Primitive}
    (hlevels : (p.depths.map Depth.level).Nodup) {db : SqliteRepository}
    (hsave : savePrimitive p ⟨t, none⟩ = .ok () db) :
    findById db p.id = .ok (some p.sortDepths) ∧
    (∀ name, foldName name = foldName p.name → findByName db name = .ok (some p.sortDepths)) ∧
    (∃ db', savePrimitive p.sortDepths db = .ok () db' ∧ db'.savepoint = none ∧
      db.tables.SameRecords db'.tables) ∧
    Resaves ⟨t, none⟩ ∧ Resaves db := by
  obtain ⟨hp, rfl⟩ := accepts_of_ok hsave
  have hwell := h.replace hp
  have hfind : findById ⟨t.replace p.toRow p.toRelata, none⟩ p.id = .ok (some p.sortDepths) :=
    load_toRow hlevels hp.storable ▸ findById_saved h.toSchema hp
  refine ⟨hfind, fun name hname => ?_, ?_, resaves h, resaves hwell⟩
  · have hlive := Except.ok.inj ((findById_eq hwell.toSchema p.id).symm.trans hfind)
    refine (findByName_eq hwell.toSchema name).trans (congrArg _ ?_)
    exact Tables.named_of_live hwell.toSchema hlive hname.symm
  · obtain ⟨db', hresave, hidle, hrows, hrelata, -⟩ := resaves hwell p.id _ hfind
    refine ⟨db', hresave, hidle, sameRecords_of_resaved (fun row hrow hid => ?_) hrows hrelata⟩
    obtain rfl := hwell.toSchema.row_unique hrow (Tables.mem_replaceRow.mpr (Or.inl rfl)) hid
    simpa [Primitive.toRow, Depth.toEntry, Function.comp_def] using hlevels

/-- A store that holds `File` alone. -/
def fileAlone [NameFolding] : Tables :=
  (List.foldl Operation.next .fresh [.save (sample 0 "File" [.existence] [])]).tables

/-- `Write`, with its capabilities listed before its existence. -/
def unsortedWrite : Primitive where
  id := 1
  name := "Write"
  depths := [
    ⟨.capabilities, [("append", .json "true")],
      [⟨.appliesTo, 0, .existence, [("why", .json "null")], some authored⟩], some authored⟩,
    ⟨.existence, [], [], some authored⟩]
  provenance := some authored
  metrics := some .new

theorem savePrimitive_roundTrip_unsorted : letI := asciiFolding
    ∃ db, savePrimitive unsortedWrite ⟨fileAlone, none⟩ = .ok () db ∧
      findById db 1 = .ok (some unsortedWrite.sortDepths) ∧
      findByName db "WRITE" = .ok (some unsortedWrite.sortDepths) := by
  let _ := asciiFolding
  have hwell : fileAlone.WellFormed := (Operation.sound_foldl _).2
  rcases savePrimitive_cases unsortedWrite fileAlone with ⟨-, hok⟩ | ⟨exc, -, herror⟩
  · obtain ⟨hid, hname, -⟩ := savePrimitive_roundTrip hwell (by decide) hok
    exact ⟨_, hok, hid, hname "WRITE" (by decide)⟩
  · have hnone : fileAlone.relata = [] := by decide +kernel
    have hone :
        (Action.after (savePrimitive unsortedWrite ⟨fileAlone, none⟩)).tables.relata ≠ [] := by
      decide +kernel
    rw [herror] at hone
    exact absurd hnone hone

end Sqlite

end Vre
