import Vre.Verification.Grounding.Envelope
import Vre.Verification.Grounding.ReadPaths

/-! # Growing stores

A store that grows keeps its relata and what its primitives are grounded to. A query that was
grounded stays grounded, over the same closure.
-/

namespace Vre

namespace Tables

/-- `t'` has the relata of `t`, and every depth that grounds a primitive of `t`. -/
structure Extends (t t' : Tables) : Prop where
  relata : t'.relata.Perm t.relata
  live : ∀ id p, t.live id = some p → ∃ p', t'.live id = some p' ∧ p'.name = p.name ∧
    ∀ d ∈ p.depths, d.grounds = true → d ∈ p'.depths

theorem Extends.refl (t : Tables) : t.Extends t :=
  ⟨.refl _, fun _ p hp => ⟨p, hp, rfl, fun _ hd _ => hd⟩⟩

theorem Extends.trans {t t' t'' : Tables} (h : t.Extends t') (h' : t'.Extends t'') :
    t.Extends t'' where
  relata := h'.relata.trans h.relata
  live := by
    intro id p hp
    obtain ⟨p', hp', hname, hkept⟩ := h.live id p hp
    obtain ⟨p'', hp'', hname', hkept'⟩ := h'.live id p' hp'
    exact ⟨p'', hp'', hname'.trans hname, fun d hd hgrounds =>
      hkept' d (hkept d hd hgrounds) hgrounds⟩

/-- Counting metrics is growth by nothing. -/
theorem SameKnowledge.extends [NameFolding] {t t' : Tables} (ht : t.Schema)
    (h : t.SameKnowledge t') : t.Extends t' where
  relata := .of_eq h.relata
  live := by
    intro id p hp
    obtain ⟨metrics, hp'⟩ := h.live ht hp
    exact ⟨_, hp', rfl, fun d hd _ => hd⟩

/-- A name still finds its primitive, which has lost no level. -/
theorem Extends.named [NameFolding] {t t' : Tables} (ht : t.Schema) (ht' : t'.Schema)
    (h : t.Extends t') {name : String} {p : Primitive} (hp : t.named name = some p) :
    ∃ p', t'.named name = some p' ∧ p'.id = p.id ∧ p.groundingLevels ⊆ p'.groundingLevels := by
  obtain ⟨hlive, hname⟩ := live_of_named ht hp
  obtain ⟨p', hlive', hsame, hkept⟩ := h.live p.id p hlive
  exact ⟨p', named_of_live ht' hlive' ((congrArg foldName hsame).trans hname),
    live_id ht' hlive', groundingLevels_subset hkept⟩

/-! ## The closure of a query -/

theorem Extends.transEdge {t t' : Tables} (h : t.Extends t') : t'.TransEdge = t.TransEdge := by
  funext a b
  simp only [TransEdge, h.relata.mem_iff]

theorem Extends.exists_row [NameFolding] {t t' : Tables} (ht : t.Schema) (ht' : t'.Schema)
    (h : t.Extends t') {row : PrimitiveRow} (hrow : row ∈ t.primitives) :
    ∃ row' ∈ t'.primitives, row'.id = row.id ∧ row'.nameLower = row.nameLower := by
  obtain ⟨p', hp', hname, -⟩ := h.live row.id _ ((live_eq_some ht).mpr ⟨row, hrow, rfl, rfl⟩)
  obtain ⟨row', hrow', hid, rfl⟩ := (live_eq_some ht').mp hp'
  refine ⟨row', hrow', hid, ?_⟩
  rw [ht'.folded row' hrow', ht.folded row hrow]
  exact congrArg foldName hname

/-- The names mean the same among the primitives that were stored before. -/
theorem Extends.named_iff [NameFolding] {t t' : Tables} (ht : t.Schema) (ht' : t'.Schema)
    (h : t.Extends t') {names : List String} {id : UUID} (hid : t.Stored id) :
    t'.Named names id ↔ t.Named names id := by
  obtain ⟨row, hrow, rfl⟩ := hid
  obtain ⟨row', hrow', hid', hsame⟩ := h.exists_row ht ht' hrow
  constructor
  · rintro ⟨other, hother, hid, hname⟩
    have heq := ht'.row_unique hother hrow' (hid.trans hid'.symm)
    exact ⟨row, hrow, rfl, hsame ▸ heq ▸ hname⟩
  · rintro ⟨other, hother, hid, hname⟩
    have heq := ht.row_unique hother hrow hid
    exact ⟨row', hrow', hid', hsame ▸ heq ▸ hname⟩

/-- A new primitive leads nowhere, so the closure gains none of the old ones. -/
theorem Extends.inClosure_iff [NameFolding] {t t' : Tables} (ht : t.Schema) (ht' : t'.Schema)
    (h : t.Extends t') {names : List String} {id : UUID} (hid : t.Stored id) :
    t'.InClosure names id ↔ t.InClosure names id := by
  constructor
  · rintro ⟨root, hroot, hpath⟩
    rw [h.transEdge] at hpath
    have hstored : t.Stored root := by
      rcases hpath.cases_head with rfl | ⟨next, ⟨rel, hrel, hsource, -⟩, -⟩
      · exact hid
      · exact hsource ▸ ht.sources rel hrel
    exact ⟨root, (h.named_iff ht ht' hstored).mp hroot, hpath⟩
  · rintro ⟨root, hroot, hpath⟩
    rw [← h.transEdge] at hpath
    exact ⟨root, (h.named_iff ht ht' (hroot.inClosure.stored ht)).mpr hroot, hpath⟩

/-- When every name was stored, the closure has no new primitive. -/
theorem Extends.stored_of_inClosure [NameFolding] {t t' : Tables} (ht : t.Schema)
    (ht' : t'.Schema) (h : t.Extends t') {names : List String}
    (hnames : ∀ c ∈ names, ∃ row ∈ t.primitives, row.nameLower = foldName c) {id : UUID}
    (hinside : t'.InClosure names id) : t.Stored id := by
  obtain ⟨root, ⟨row', hrow', rfl, hname⟩, hpath⟩ := hinside
  cases hpath with
  | refl =>
      obtain ⟨c, hc, hfold⟩ := List.mem_map.mp hname
      obtain ⟨row, hrow, hlower⟩ := hnames c hc
      obtain ⟨row'', hrow'', hid, hsame⟩ := h.exists_row ht ht' hrow
      have heq := ht'.row_unique_name hrow'' hrow' (hsame.trans (hlower.trans hfold))
      exact ⟨row, hrow, heq ▸ hid.symm⟩
  | tail _ hedge =>
      rw [h.transEdge] at hedge
      obtain ⟨rel, hrel, -, rfl, -⟩ := hedge
      exact ht.targets rel hrel

/-- A primitive shows at least the levels that it showed. -/
theorem Extends.meets_depthAt [NameFolding] {t t' : Tables} (ht : t.Schema) (ht' : t'.Schema)
    (h : t.Extends t') {names : List String} {id : UUID} (hinside : t.InClosure names id)
    {d : DepthLevel} (hmeets : Meets ((t.subgraph names).depthAt id) d) :
    Meets ((t'.subgraph names).depthAt id) d := by
  have hstored := hinside.stored ht
  obtain ⟨p, hp⟩ := exists_live hstored
  obtain ⟨p', hp', -, hkept⟩ := h.live id p hp
  have hinside' := (h.inClosure_iff ht ht' hstored).mpr hinside
  apply (Tables.meets_depthAt ht' hinside' hp').mpr
  intro l hl
  obtain ⟨depth, hdepth, hlevel, hwhy⟩ := (Tables.meets_depthAt ht hinside hp).mp hmeets l hl
  have hgrounds : depth.grounds = true := by
    refine grounds_iff.mpr (hlevel ▸ hwhy.imp_right (Or.imp_right ?_))
    rintro ⟨r, hr, -⟩
    exact List.ne_nil_of_mem hr
  refine ⟨depth, hkept depth hdepth hgrounds, hlevel, hwhy.imp_right (Or.imp_right ?_)⟩
  rintro ⟨r, hr, htarget⟩
  exact ⟨r, hr, (h.inClosure_iff ht ht' (htarget.stored ht)).mpr htarget⟩

theorem Extends.perm_closureRelata [NameFolding] {t t' : Tables} (ht : t.Schema) (ht' : t'.Schema)
    (h : t.Extends t') (names : List String) :
    (t'.closureRelata names).Perm (t.closureRelata names) := by
  have hsame : (t.relata.filter fun rel => rel.sourceId ∈ Sqlite.reachableIds t' names ∧
      rel.targetId ∈ Sqlite.reachableIds t' names) = t.closureRelata names := by
    refine List.filter_congr fun rel hrel => decide_eq_decide.mpr ?_
    simp only [mem_reachableIds, h.inClosure_iff ht ht' (ht.sources rel hrel),
      h.inClosure_iff ht ht' (ht.targets rel hrel)]
  exact (h.relata.filter _).trans (.of_eq hsame)

/-! ## Grounded queries -/

/-- Growth keeps a strict closure strict. -/
theorem Extends.closureStrict [NameFolding] {t t' : Tables} (ht : t.Schema) (ht' : t'.Schema)
    (h : t.Extends t') {concepts : List String} {minDepth : Option DepthLevel}
    (hstrict : t.ClosureStrict concepts minDepth (t.subgraph concepts).depthAt) :
    t'.ClosureStrict concepts minDepth (t'.subgraph concepts).depthAt := by
  have hroot : ∀ id, t'.Named concepts id → t.Named concepts id := fun id hid =>
    (h.named_iff ht ht' (h.stored_of_inClosure ht ht' hstrict.stored hid.inClosure)).mp hid
  refine ⟨hstrict.nonempty, fun c hc => ?_, fun rel hrel hsource htarget => ?_,
    fun floor hfloor id hid => ?_, fun a b ha hb => ?_⟩
  · obtain ⟨row, hrow, hlower⟩ := hstrict.stored c hc
    obtain ⟨row', hrow', -, hsame⟩ := h.exists_row ht ht' hrow
    exact ⟨row', hrow', hsame.trans hlower⟩
  · have hrel := h.relata.mem_iff.mp hrel
    have hsource := (h.inClosure_iff ht ht' (ht.sources rel hrel)).mp hsource
    have htarget := (h.inClosure_iff ht ht' (ht.targets rel hrel)).mp htarget
    obtain ⟨hs, hd⟩ := hstrict.edges rel hrel hsource htarget
    exact ⟨h.meets_depthAt ht ht' hsource hs, h.meets_depthAt ht ht' htarget hd⟩
  · have hid := hroot id hid
    exact h.meets_depthAt ht ht' hid.inClosure (hstrict.floor floor hfloor id hid)
  · have hedge : t'.ClosureEdge concepts = t.ClosureEdge concepts := by
      funext a b
      simp only [ClosureEdge, (h.perm_closureRelata ht ht' concepts).mem_iff]
    rw [hedge]
    exact hstrict.connected a b (hroot a ha) (hroot b hb)

end Tables

end Vre
