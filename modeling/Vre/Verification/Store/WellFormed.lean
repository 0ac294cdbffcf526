import Vre.Verification.Store.Save

/-! # Statements keep a store well-formed

Each statement that changes the tables keeps the schema, the acyclicity of the transitive
relata, and a depth record for every relatum.
-/

namespace Vre

namespace Tables

/-- Hydration drops no relatum of a well-formed store: each is read back at its depth. -/
theorem WellFormed.exists_depth [NameFolding] {t : Tables} (h : t.WellFormed) {rel : RelatumRow}
    (hrel : rel ∈ t.relata) : ∃ p, t.live rel.sourceId = some p ∧
      ∃ d ∈ p.depths, d.level = rel.sourceDepth ∧ rel.toRelatum ∈ d.relata := by
  obtain ⟨row, hrow, hid⟩ := h.sources rel hrel
  obtain ⟨entry, hentry, hlevel⟩ := h.homed rel hrel row hrow hid
  obtain ⟨last, hlast⟩ := exists_lastAt hentry hlevel
  have hdepth : row.depthAt (t.outgoing row.id) rel.sourceDepth = some _ :=
    depthAt_eq_some.mpr ⟨last, hlast, rfl⟩
  have hat := level_of_depthAt hdepth
  refine ⟨t.loadRow row, (live_eq_some h.toSchema).mpr ⟨row, hrow, hid, rfl⟩, _,
    mem_depths_load.mpr (hat.symm ▸ hdepth), hat, ?_⟩
  exact List.mem_map_of_mem (List.mem_filter.mpr
    ⟨mem_outgoing.mpr ⟨hrel, hid.symm⟩, decide_eq_true rfl⟩)

/-! ## Replacing a record -/

/-- A key stays distinct when the replaced record is the only one that may share it. -/
theorem nodup_map_replaceRow {κ : Type} {row : PrimitiveRow} {rows : List PrimitiveRow}
    (key : PrimitiveRow → κ) (hids : (rows.map PrimitiveRow.id).Nodup)
    (hkeys : (rows.map key).Nodup)
    (hfree : ∀ other ∈ rows, key other = key row → other.id = row.id) :
    ((replaceRow row rows).map key).Nodup := by
  unfold replaceRow
  split
  · rw [List.map_map]
    refine List.Nodup.map_on ?_ (List.Nodup.of_map _ hids)
    intro x hx y hy heq
    have hid : x.id = y.id → x = y := List.inj_on_of_nodup_map hids hx hy
    by_cases hxid : x.id = row.id <;> by_cases hyid : y.id = row.id <;>
      simp only [Function.comp_apply, hxid, hyid, if_true, if_false] at heq
    · exact hid (hxid.trans hyid.symm)
    · exact absurd (hfree y hy heq.symm) hyid
    · exact absurd (hfree x hx heq) hxid
    · exact List.inj_on_of_nodup_map hkeys hx hy heq
  · rename_i hany
    simp only [List.any_eq_true, decide_eq_true_eq, not_exists, not_and] at hany
    rw [List.map_append, List.nodup_append]
    refine ⟨hkeys, by simp, ?_⟩
    rintro a ha b hb rfl
    obtain ⟨other, hother, hkey⟩ := List.mem_map.mp ha
    have hrow : a = key row := by simpa using hb
    exact hany other hother (hfree other hother (hkey.trans hrow))

theorem stamped_toRow [NameFolding] {p : Primitive} (h : p.Stamped) : p.toRow.Stamped where
  primitive := h.primitive
  depths := by
    intro entry hentry
    obtain ⟨d, hd, rfl⟩ := List.mem_map.mp hentry
    exact h.depths d hd

theorem mem_toRelata {p : Primitive} {rel : RelatumRow} :
    rel ∈ p.toRelata ↔ ∃ d ∈ p.depths, ∃ r ∈ d.relata, r.toRow p.id d.level = rel := by
  simp [Primitive.toRelata]

theorem Schema.replace [NameFolding] {t : Tables} (h : t.Schema) {p : Primitive}
    (hp : Sqlite.Accepts t p) : (t.replace p.toRow p.toRelata).Schema where
  nodup_ids := nodup_map_replaceRow PrimitiveRow.id h.nodup_ids h.nodup_ids fun _ _ heq => heq
  nodup_names :=
    nodup_map_replaceRow PrimitiveRow.nameLower h.nodup_ids h.nodup_names hp.name_free
  folded := by
    intro row hrow
    rcases mem_replaceRow.mp hrow with rfl | ⟨hrow, -⟩
    · rfl
    · exact h.folded row hrow
  sources := by
    intro rel hrel
    rw [stored_replace]
    rcases mem_relata_replace.mp hrel with ⟨hrel, -⟩ | hrel
    · exact Or.inr (h.sources rel hrel)
    · exact Or.inl (Sqlite.sourceId_of_mem_toRelata hrel)
  targets := by
    intro rel hrel
    rw [stored_replace]
    rcases mem_relata_replace.mp hrel with ⟨hrel, -⟩ | hrel
    · exact Or.inr (h.targets rel hrel)
    · exact hp.targets rel hrel
  stamped_rows := by
    intro row hrow
    rcases mem_replaceRow.mp hrow with rfl | ⟨hrow, -⟩
    · exact stamped_toRow hp.storable.toStamped
    · exact h.stamped_rows row hrow
  stamped_relata := by
    intro rel hrel
    rcases mem_relata_replace.mp hrel with ⟨hrel, -⟩ | hrel
    · exact h.stamped_relata rel hrel
    · obtain ⟨d, hd, r, hr, rfl⟩ := mem_toRelata.mp hrel
      exact hp.storable.relata d hd r hr

/-- Away from the saved primitive the transitive edges are the ones that were kept. -/
theorem without_replace {t : Tables} {row : PrimitiveRow} {params : List RelatumRow}
    (hsource : ∀ rp ∈ params, rp.sourceId = row.id) (a b : UUID) :
    Digraph.Without (t.replace row params).TransEdge row.id a b ↔
      Digraph.Without t.TransEdge row.id a b := by
  simp only [Digraph.Without, TransEdge, mem_relata_replace]
  constructor
  · rintro ⟨hne, rel, ⟨hrel, -⟩ | hrel, rfl, htarget, htype⟩
    · exact ⟨hne, rel, hrel, rfl, htarget, htype⟩
    · exact absurd (hsource rel hrel) hne
  · rintro ⟨hne, rel, hrel, rfl, htarget, htype⟩
    exact ⟨hne, rel, Or.inl ⟨hrel, hne⟩, rfl, htarget, htype⟩

/-- A save that passed the cycle check keeps the transitive graph acyclic: a new cycle would
pass through the saved primitive and close along one of its new relata. -/
theorem acyclic_replace {t : Tables} (h : Digraph.Acyclic t.TransEdge) {row : PrimitiveRow}
    {params : List RelatumRow} (hsource : ∀ rp ∈ params, rp.sourceId = row.id)
    (hcycle : t.NoCycle row.id params) : Digraph.Acyclic (t.replace row params).TransEdge := by
  have hrel : Digraph.Without (t.replace row params).TransEdge row.id =
      Digraph.Without t.TransEdge row.id := by
    funext a b
    exact propext (without_replace hsource a b)
  have hkept : Digraph.Acyclic (Digraph.Without (t.replace row params).TransEdge row.id) :=
    hrel ▸ h.mono fun _ _ hab => hab.2
  apply (Digraph.acyclic_rewire_iff hkept).mpr
  intro target hedge
  obtain ⟨rel, hmem, hid, rfl, htype⟩ := hedge
  rcases mem_relata_replace.mp hmem with ⟨-, hne⟩ | hparam
  · exact absurd hid hne
  · exact hrel ▸ hcycle rel hparam htype

theorem WellFormed.replace [NameFolding] {t : Tables} (h : t.WellFormed) {p : Primitive}
    (hp : Sqlite.Accepts t p) : (t.replace p.toRow p.toRelata).WellFormed where
  toSchema := h.toSchema.replace hp
  acyclic := acyclic_replace h.acyclic (fun _ => Sqlite.sourceId_of_mem_toRelata) hp.no_cycle
  homed := by
    intro rel hrel row hrow hid
    rcases mem_relata_replace.mp hrel with ⟨hrel, hne⟩ | hrel
    · rcases mem_replaceRow.mp hrow with rfl | ⟨hrow, -⟩
      · exact absurd hid.symm hne
      · exact h.homed rel hrel row hrow hid
    · rcases mem_replaceRow.mp hrow with rfl | ⟨-, hne⟩
      · obtain ⟨d, hd, r, -, rfl⟩ := mem_toRelata.mp hrel
        exact ⟨d.toEntry, List.mem_map_of_mem hd, rfl⟩
      · exact absurd (hid.trans (Sqlite.sourceId_of_mem_toRelata hrel)) hne

/-! ## Deleting a record -/

theorem WellFormed.deletePrimitiveRow [NameFolding] {t : Tables} (h : t.WellFormed) (id : UUID) :
    (t.deletePrimitiveRow id).WellFormed := by
  have hrows : ∀ row ∈ (t.deletePrimitiveRow id).primitives, row ∈ t.primitives :=
    fun row hrow => (List.mem_filter.mp hrow).1
  have hrelata : ∀ rel ∈ (t.deletePrimitiveRow id).relata,
      rel ∈ t.relata ∧ rel.sourceId ≠ id ∧ rel.targetId ≠ id := by
    intro rel hrel
    simpa [Tables.deletePrimitiveRow] using hrel
  have hstored : ∀ other, other ≠ id → t.Stored other → (t.deletePrimitiveRow id).Stored other := by
    rintro other hne ⟨row, hrow, rfl⟩
    exact ⟨row, List.mem_filter.mpr ⟨hrow, by simpa using hne⟩, rfl⟩
  refine ⟨⟨?_, ?_, ?_, ?_, ?_, ?_, ?_⟩, ?_, ?_⟩
  · exact h.nodup_ids.sublist (List.filter_sublist.map _)
  · exact h.nodup_names.sublist (List.filter_sublist.map _)
  · exact fun row hrow => h.folded row (hrows row hrow)
  · intro rel hrel
    obtain ⟨hmem, hsource, -⟩ := hrelata rel hrel
    exact hstored _ hsource (h.sources rel hmem)
  · intro rel hrel
    obtain ⟨hmem, -, htarget⟩ := hrelata rel hrel
    exact hstored _ htarget (h.targets rel hmem)
  · exact fun row hrow => h.stamped_rows row (hrows row hrow)
  · exact fun rel hrel => h.stamped_relata rel (hrelata rel hrel).1
  · apply h.acyclic.mono
    intro a b hab
    obtain ⟨rel, hrel, hends⟩ := hab
    exact ⟨rel, (hrelata rel hrel).1, hends⟩
  · exact fun rel hrel row hrow => h.homed rel (hrelata rel hrel).1 row (hrows row hrow)

theorem wellFormed_empty [NameFolding] : (⟨[], []⟩ : Tables).WellFormed := by
  refine ⟨⟨?_, ?_, ?_, ?_, ?_, ?_, ?_⟩, ?_, ?_⟩
  any_goals simp
  intro x hx
  obtain ⟨y, ⟨rel, hrel, -⟩, -⟩ := Relation.TransGen.head'_iff.mp hx
  cases hrel

/-! ## Metrics -/

/-- Two stores that differ in the metrics of their primitives alone. -/
structure SameKnowledge (t t' : Tables) : Prop where
  relata : t'.relata = t.relata
  rows : t'.primitives.map (fun row => { row with metricsJson := none }) =
    t.primitives.map fun row => { row with metricsJson := none }

theorem SameKnowledge.refl (t : Tables) : SameKnowledge t t := ⟨rfl, rfl⟩

theorem SameKnowledge.trans {t t' t'' : Tables} (h : SameKnowledge t t')
    (h' : SameKnowledge t' t'') : SameKnowledge t t'' :=
  ⟨h'.relata.trans h.relata, h'.rows.trans h.rows⟩

theorem SameKnowledge.symm {t t' : Tables} (h : SameKnowledge t t') : SameKnowledge t' t :=
  ⟨h.relata.symm, h.rows.symm⟩

theorem sameKnowledge_setMetrics (id : UUID) (metrics : PrimitiveMetrics) (t : Tables) :
    SameKnowledge t (t.setMetrics id metrics) := by
  refine ⟨rfl, ?_⟩
  simp only [setMetrics, List.map_map]
  apply List.map_congr_left
  intro row _
  by_cases hid : row.id = id <;> simp [hid]

/-- A column other than the metrics reads the same in both. -/
theorem SameKnowledge.map_eq {κ : Type} {t t' : Tables} (h : SameKnowledge t t')
    (key : PrimitiveRow → κ) (hkey : ∀ row, key { row with metricsJson := none } = key row) :
    t'.primitives.map key = t.primitives.map key := by
  have hmap := congrArg (List.map key) h.rows
  simpa only [List.map_map, Function.comp_def, hkey] using hmap

/-- Every record of one has a record of the other that differs at most in its metrics. -/
theorem SameKnowledge.exists_row {t t' : Tables} (h : SameKnowledge t t') {row' : PrimitiveRow}
    (hrow' : row' ∈ t'.primitives) : ∃ row ∈ t.primitives, ∃ metrics,
      row' = { row with metricsJson := metrics } := by
  have hmem := List.mem_map_of_mem (f := fun row : PrimitiveRow =>
    { row with metricsJson := none }) hrow'
  rw [h.rows] at hmem
  obtain ⟨row, hrow, heq⟩ := List.mem_map.mp hmem
  refine ⟨row, hrow, row'.metricsJson, ?_⟩
  simp only [PrimitiveRow.mk.injEq] at heq
  obtain ⟨hid, hname, hlower, hdepths, hprov, -⟩ := heq
  cases row'
  simp_all

theorem SameKnowledge.stored {t t' : Tables} (h : SameKnowledge t t') {id : UUID} :
    t'.Stored id ↔ t.Stored id := by
  rw [stored_iff_mem, stored_iff_mem, h.map_eq PrimitiveRow.id fun _ => rfl]

theorem Schema.sameKnowledge [NameFolding] {t t' : Tables} (ht : t.Schema)
    (h : SameKnowledge t t') : t'.Schema := by
  refine ⟨?_, ?_, ?_, ?_, ?_, ?_, ?_⟩
  · exact h.map_eq PrimitiveRow.id (fun _ => rfl) ▸ ht.nodup_ids
  · exact h.map_eq PrimitiveRow.nameLower (fun _ => rfl) ▸ ht.nodup_names
  · intro row' hrow'
    obtain ⟨row, hrow, metrics, rfl⟩ := h.exists_row hrow'
    exact ht.folded row hrow
  · exact fun rel hrel => h.stored.mpr (ht.sources rel (h.relata ▸ hrel))
  · exact fun rel hrel => h.stored.mpr (ht.targets rel (h.relata ▸ hrel))
  · intro row' hrow'
    obtain ⟨row, hrow, metrics, rfl⟩ := h.exists_row hrow'
    exact ⟨(ht.stamped_rows row hrow).primitive, (ht.stamped_rows row hrow).depths⟩
  · exact fun rel hrel => ht.stamped_relata rel (h.relata ▸ hrel)

theorem SameKnowledge.transEdge {t t' : Tables} (h : SameKnowledge t t') :
    t'.TransEdge = t.TransEdge := by
  funext a b
  simp only [TransEdge, h.relata]

theorem WellFormed.sameKnowledge [NameFolding] {t t' : Tables} (ht : t.WellFormed)
    (h : SameKnowledge t t') : t'.WellFormed where
  toSchema := ht.toSchema.sameKnowledge h
  acyclic := h.transEdge ▸ ht.acyclic
  homed := by
    intro rel hrel row' hrow' hid
    obtain ⟨row, hrow, metrics, rfl⟩ := h.exists_row hrow'
    exact ht.homed rel (h.relata ▸ hrel) row hrow hid

/-- A primitive is read back the same, but for its metrics. -/
theorem SameKnowledge.live [NameFolding] {t t' : Tables} (ht : t.Schema) (h : SameKnowledge t t')
    {id : UUID} {p : Primitive} (hp : t.live id = some p) :
    ∃ metrics, t'.live id = some { p with metrics := metrics } := by
  obtain ⟨row, hrow, hid, rfl⟩ := (live_eq_some ht).mp hp
  obtain ⟨row', hrow', metrics, rfl⟩ := h.symm.exists_row hrow
  refine ⟨row'.metricsJson, (live_eq_some (ht.sameKnowledge h)).mpr ⟨row', hrow', hid, ?_⟩⟩
  simp only [loadRow, outgoing, h.relata]
  rfl

end Tables

end Vre
