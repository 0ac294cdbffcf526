import Vre.Verification.Store.WellFormed

/-! # The stored primitives after a save

A save changes one stored primitive and no other. When it does not touch the relata of the
primitive, the relata of the store stay as they were.
-/

namespace Vre

namespace Tables

/-! ## The primitive that was saved -/

theorem outgoing_replace_self {t : Tables} [NameFolding] {p : Primitive} :
    (t.replace p.toRow p.toRelata).outgoing p.id = p.toRelata := by
  have hkept : ((t.relata.filter fun r => r.sourceId ≠ p.toRow.id).filter fun r =>
      r.sourceId = p.id) = [] := by
    apply List.filter_eq_nil_iff.mpr
    intro rel hrel heq
    have hne : rel.sourceId ≠ p.id := of_decide_eq_true (List.mem_filter.mp hrel).2
    exact hne (of_decide_eq_true heq)
  have hown : (p.toRelata.filter fun r => r.sourceId = p.id) = p.toRelata :=
    List.filter_eq_self.mpr fun rel hrel => decide_eq_true (Sqlite.sourceId_of_mem_toRelata hrel)
  rw [outgoing, replace, List.filter_append, hkept, hown, List.nil_append]

theorem outgoing_replace_of_ne {t : Tables} [NameFolding] {p : Primitive} {id : UUID}
    (hne : id ≠ p.id) : (t.replace p.toRow p.toRelata).outgoing id = t.outgoing id := by
  have hown : (p.toRelata.filter fun r => r.sourceId = id) = [] := by
    apply List.filter_eq_nil_iff.mpr
    intro rel hrel
    simpa [Sqlite.sourceId_of_mem_toRelata hrel] using hne.symm
  rw [outgoing, replace, List.filter_append, hown, List.append_nil, List.filter_filter]
  apply List.filter_congr
  intro rel _
  by_cases hid : rel.sourceId = id
  · simp [hid, Primitive.toRow, hne]
  · simp [hid]

/-- After a save the records that were written are read back. -/
theorem live_replace_self [NameFolding] {t : Tables} (h : t.Schema) {p : Primitive}
    (hp : Sqlite.Accepts t p) :
    (t.replace p.toRow p.toRelata).live p.id = some (p.toRow.load p.toRelata) := by
  refine (live_eq_some (h.replace hp)).mpr ⟨p.toRow, mem_replaceRow.mpr (Or.inl rfl), rfl, ?_⟩
  have hown : (t.replace p.toRow p.toRelata).outgoing p.toRow.id = p.toRelata :=
    outgoing_replace_self
  rw [loadRow, hown]

/-- After a save the primitive reads back as it was saved, and every other primitive reads
back as before. -/
theorem live_replace [NameFolding] {t : Tables} (h : t.Schema) {p : Primitive}
    (hp : Sqlite.Accepts t p) (hnormal : p.Normal) (id : UUID) :
    (t.replace p.toRow p.toRelata).live id = if id = p.id then some p else t.live id := by
  have hschema := h.replace hp
  by_cases hid : id = p.id
  · subst hid
    rw [if_pos rfl, live_replace_self h hp, load_toRow hnormal.nodup_levels hp.storable,
      hnormal.sortDepths_eq]
  · rw [if_neg hid]
    apply Option.ext
    intro q
    rw [live_eq_some hschema, live_eq_some h]
    constructor
    · rintro ⟨row, hrow, rfl, rfl⟩
      rcases mem_replaceRow.mp hrow with rfl | ⟨hrow, -⟩
      · exact absurd rfl hid
      · exact ⟨row, hrow, rfl, by rw [loadRow, loadRow, outgoing_replace_of_ne hid]⟩
    · rintro ⟨row, hrow, rfl, rfl⟩
      exact ⟨row, mem_replaceRow.mpr (Or.inr ⟨hrow, hid⟩), rfl,
        by rw [loadRow, loadRow, outgoing_replace_of_ne hid]⟩

/-! ## The relata of the store -/

theorem toRow_toRelatum (rel : RelatumRow) :
    rel.toRelatum.toRow rel.sourceId rel.sourceDepth = rel := by
  obtain ⟨sourceId, targetId, relType, sourceDepth, targetDepth, metadata, provenance⟩ := rel
  simp [RelatumRow.toRelatum, Relatum.toRow, jsonText_jsonLoads]

/-- When each of its relata stands at a level of the record, a loaded primitive carries them
all. -/
theorem perm_toRelata_load {row : PrimitiveRow} {relata : List RelatumRow}
    (hsource : ∀ rel ∈ relata, rel.sourceId = row.id)
    (hhomed : ∀ rel ∈ relata, ∃ entry ∈ row.depthsJson, entry.level = rel.sourceDepth) :
    (row.load relata).toRelata.Perm relata := by
  have hback : ∀ level, (relataAt relata level).map (fun r => r.toRow row.id level) =
      relata.filter fun rel => rel.sourceDepth = level := by
    intro level
    rw [relataAt, List.map_map]
    refine (List.map_congr_left fun rel hrel => ?_).trans (List.map_id _)
    obtain ⟨hmem, hlevel⟩ := List.mem_filter.mp hrel
    rw [← hsource rel hmem, ← of_decide_eq_true hlevel]
    exact toRow_toRelatum rel
  have hlevels : (row.load relata).toRelata = DepthLevel.sorted.flatMap fun level =>
      relata.filter fun rel => rel.sourceDepth = level := by
    rw [Primitive.toRelata, PrimitiveRow.load, List.filterMap_eq_flatMap_toList,
      List.flatMap_assoc]
    apply List.flatMap_congr
    intro level _
    cases hdepth : row.depthAt relata level with
    | none =>
        refine (List.filter_eq_nil_iff.mpr fun rel hrel heq => ?_).symm
        obtain ⟨entry, hentry, hlevel⟩ := hhomed rel hrel
        obtain ⟨last, hlast⟩ := exists_lastAt hentry (hlevel.trans (of_decide_eq_true heq))
        rw [depthAt_eq_some.mpr ⟨last, hlast, rfl⟩] at hdepth
        cases hdepth
    | some d =>
        have hlevel := level_of_depthAt hdepth
        have hrelata : d.relata = relataAt relata level :=
          hlevel ▸ relata_of_mem_load (mem_depths_load.mpr (hlevel.symm ▸ hdepth))
        simp only [Option.toList_some, List.flatMap_singleton, hrelata, hlevel]
        exact hback level
  rw [hlevels]
  exact OrderedDict.perm_flatMap_filter RelatumRow.sourceDepth DepthLevel.nodup_sorted (by simp)

theorem WellFormed.homed_outgoing [NameFolding] {t : Tables} (h : t.WellFormed)
    {row : PrimitiveRow} (hrow : row ∈ t.primitives) {rel : RelatumRow}
    (hrel : rel ∈ t.outgoing row.id) :
    ∃ entry ∈ row.depthsJson, entry.level = rel.sourceDepth := by
  obtain ⟨hmem, hsource⟩ := mem_outgoing.mp hrel
  exact h.homed rel hmem row hrow hsource.symm

/-- In a well-formed store the relata read back with a primitive are those that leave it. -/
theorem perm_toRelata [NameFolding] {t : Tables} (h : t.WellFormed) {id : UUID} {p : Primitive}
    (hp : t.live id = some p) : p.toRelata.Perm (t.outgoing id) := by
  obtain ⟨row, hrow, rfl, rfl⟩ := (live_eq_some h.toSchema).mp hp
  exact perm_toRelata_load (fun rel hrel => (mem_outgoing.mp hrel).2)
    fun rel hrel => h.homed_outgoing hrow hrel

theorem perm_filter_outgoing (t : Tables) (id : UUID) :
    ((t.relata.filter fun r => r.sourceId ≠ id) ++ t.outgoing id).Perm t.relata := by
  apply List.perm_append_comm.trans
  simpa [outgoing] using List.filter_append_perm (fun r => decide (r.sourceId = id)) t.relata

/-- Saving a stored primitive with the relata it had leaves the relata of the store. -/
theorem relata_replace_stored [NameFolding] {t : Tables} (h : t.WellFormed) {p old : Primitive}
    (hold : t.live p.id = some old) (hsame : p.toRelata.Perm old.toRelata) :
    (t.replace p.toRow p.toRelata).relata.Perm t.relata := by
  have hown := hsame.trans (perm_toRelata h hold)
  exact (hown.append_left _).trans (perm_filter_outgoing t p.id)

/-- A new primitive without relata adds none. -/
theorem relata_replace_new [NameFolding] {t : Tables} (h : t.Schema) {p : Primitive}
    (hnew : ¬ t.Stored p.id) (hnone : p.toRelata = []) :
    (t.replace p.toRow p.toRelata).relata = t.relata := by
  have hkeep : (t.relata.filter fun r => r.sourceId ≠ p.toRow.id) = t.relata := by
    refine List.filter_eq_self.mpr fun rel hrel => decide_eq_true fun heq => hnew ?_
    have hid : rel.sourceId = p.id := heq
    exact hid ▸ h.sources rel hrel
  rw [replace, hkeep, hnone, List.append_nil]

end Tables

namespace Sqlite

/-! ## A save that returned -/

theorem accepts_of_ok [NameFolding] {t : Tables} {p : Primitive} {db : SqliteRepository}
    (h : savePrimitive p ⟨t, none⟩ = .ok () db) :
    Accepts t p ∧ db = ⟨t.replace p.toRow p.toRelata, none⟩ := by
  rcases savePrimitive_cases p t with ⟨hp, hok⟩ | ⟨exc, -, herror⟩
  · cases hok.symm.trans h
    exact ⟨hp, rfl⟩
  · cases herror.symm.trans h

theorem findById_saved [NameFolding] {t : Tables} (h : t.Schema) {p : Primitive}
    (hp : Accepts t p) : findById ⟨t.replace p.toRow p.toRelata, none⟩ p.id =
      .ok (some (p.toRow.load p.toRelata)) :=
  (findById_eq (h.replace hp) p.id).trans (congrArg _ (Tables.live_replace_self h hp))

/-! ## What a save accepts again -/

theorem savePrimitive_of_accepts [NameFolding] {t : Tables} {p : Primitive} (hp : Accepts t p) :
    savePrimitive p ⟨t, none⟩ = .ok () ⟨t.replace p.toRow p.toRelata, none⟩ := by
  rcases savePrimitive_cases p t with ⟨-, hok⟩ | ⟨exc, hrefusal, -⟩
  · exact hok
  · exact absurd hp hrefusal.not_accepts

/-- A new primitive without relata is accepted under a free name. -/
theorem accepts_of_bare [NameFolding] {t : Tables} {p : Primitive} (hstorable : p.Storable)
    (hbare : p.toRelata = []) (habsent : t.named p.name = none) : Accepts t p where
  storable := hstorable
  name_free := fun other hother hname => absurd hname (Tables.named_eq_none.mp habsent other hother)
  no_cycle := by
    intro rp hrp
    rw [hbare] at hrp
    cases hrp
  targets := by
    intro rp hrp
    rw [hbare] at hrp
    cases hrp

/-- A stored primitive may be saved again under its name. -/
theorem nameFree_of_stored [NameFolding] {t : Tables} (h : t.Schema) {p old : Primitive}
    (hold : t.live p.id = some old) (hname : p.name = old.name) : t.NameFree p.toRow := by
  intro other hother hlower
  obtain ⟨row, hrow, hid, rfl⟩ := (Tables.live_eq_some h).mp hold
  have hrowName : row.nameLower = foldName p.name := by
    rw [h.folded row hrow, hname]
    rfl
  exact h.row_unique_name hother hrow (hlower.trans hrowName.symm) ▸ hid

/-- The relata that leave a stored primitive close no cycle when they are saved again. -/
theorem noCycle_outgoing [NameFolding] {t : Tables} (h : t.WellFormed) (id : UUID) :
    t.NoCycle id (t.outgoing id) := by
  intro rel hrel htype hreach
  obtain ⟨hmem, hsource⟩ := Tables.mem_outgoing.mp hrel
  exact h.acyclic id (Relation.TransGen.head' ⟨rel, hmem, hsource, rfl, htype⟩
    (Digraph.reach_without_iff.mp hreach))

theorem targetsStored_outgoing [NameFolding] {t : Tables} (h : t.Schema) (id : UUID) :
    t.TargetsStored id (t.outgoing id) :=
  fun rel hrel => Or.inr (h.targets rel (Tables.mem_outgoing.mp hrel).1)

/-- A stored primitive is accepted again with its name and its relata. -/
theorem accepts_of_stored [NameFolding] {t : Tables} (h : t.WellFormed) {p old : Primitive}
    (hstorable : p.Storable) (hold : t.live p.id = some old) (hname : p.name = old.name)
    (hsame : p.toRelata.Perm old.toRelata) : Accepts t p := by
  have hleaves : ∀ rp ∈ p.toRelata, rp ∈ t.outgoing p.id := fun rp hrp =>
    (Tables.perm_toRelata h hold).mem_iff.mp (hsame.mem_iff.mp hrp)
  exact ⟨hstorable, nameFree_of_stored h.toSchema hold hname,
    fun rp hrp => noCycle_outgoing h p.id rp (hleaves rp hrp),
    fun rp hrp => targetsStored_outgoing h.toSchema p.id rp (hleaves rp hrp)⟩

end Sqlite

end Vre
