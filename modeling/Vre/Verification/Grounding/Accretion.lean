import Vre.Verification.Grounding.Composition
import Vre.Verification.Grounding.Growth
import Vre.Verification.Store.Live

/-! # Stores that gain relata

A store that keeps what its primitives are grounded to, and their relata, may gain relata as
well. A query that was grounded stays grounded exactly when those that have come into its
closure are satisfied.
-/

namespace Vre

namespace Tables

/-! ## Growth -/

/-- Every primitive of `t` is one of `t'` under its name, with the content and the relata of
each depth that counts, and no relatum of `t` is lost. -/
structure Grows (t t' : Tables) : Prop where
  live : ∀ id p, t.live id = some p → ∃ p', t'.live id = some p' ∧ p'.name = p.name ∧
    ∀ d ∈ p.depths, d.grounds = true → ∃ d' ∈ p'.depths, d'.level = d.level ∧
      d'.properties = d.properties ∧ d.relata ⊆ d'.relata
  relata : t.relata.Subperm t'.relata

theorem Grows.refl (t : Tables) : t.Grows t where
  live _ p hp := ⟨p, hp, rfl, fun d hd _ => ⟨d, hd, rfl, rfl, List.Subset.refl _⟩⟩
  relata := List.Subperm.refl _

theorem Extends.grows {t t' : Tables} (h : t.Extends t') : t.Grows t' where
  live := by
    intro id p hp
    obtain ⟨p', hp', hname, hkept⟩ := h.live id p hp
    refine ⟨p', hp', hname, ?_⟩
    intro d hd hgrounds
    exact ⟨d, hkept d hd hgrounds, rfl, rfl, List.Subset.refl _⟩
  relata := h.relata.symm.subperm

theorem Grows.trans {t t' t'' : Tables} (h : t.Grows t') (h' : t'.Grows t'') : t.Grows t'' where
  live := by
    intro id p hp
    obtain ⟨p', hp', hname, hkept⟩ := h.live id p hp
    obtain ⟨p'', hp'', hname', hkept'⟩ := h'.live id p' hp'
    refine ⟨p'', hp'', hname'.trans hname, ?_⟩
    intro d hd hgrounds
    obtain ⟨d', hd', hlevel, hproperties, hrelata⟩ := hkept d hd hgrounds
    obtain ⟨d'', hd'', hlevel', hproperties', hrelata'⟩ :=
      hkept' d' hd' (grounds_of_subset hgrounds hlevel hproperties hrelata)
    exact ⟨d'', hd'', hlevel'.trans hlevel, hproperties'.trans hproperties,
      List.Subset.trans hrelata hrelata'⟩
  relata := h.relata.trans h'.relata

variable {t t' : Tables}

/-- What is stored under an identifier keeps its name. -/
theorem Grows.name_live (h : t.Grows t') {id : UUID} {p : Primitive} (hp : t.live id = some p) :
    (t'.live id).map Primitive.name = (t.live id).map Primitive.name := by
  obtain ⟨p', hp', hname, -⟩ := h.live id p hp
  rw [hp, hp', Option.map_some, Option.map_some, hname]

variable [NameFolding]

/-- What the record of a level gives for it to count: existence, content or a relatum. -/
def CountsAt (t : Tables) (row : PrimitiveRow) (level : DepthLevel) (entry : DepthEntry) : Prop :=
  level = .existence ∨ entry.properties ≠ [] ∨
    ∃ rel ∈ t.relata, rel.sourceId = row.id ∧ rel.sourceDepth = level

/-- The record of a primitive that has grown has a record for every level that counted, with
the content that was there. -/
theorem Grows.exists_row (h : t.Grows t') (ht : t.Schema) (ht' : t'.Schema) {row : PrimitiveRow}
    (hrow : row ∈ t.primitives) :
    ∃ row' ∈ t'.primitives, row'.id = row.id ∧ row'.nameLower = row.nameLower ∧
      ∀ level entry, lastAt row.depthsJson level = some entry → t.CountsAt row level entry →
        ∃ entry', lastAt row'.depthsJson level = some entry' ∧
          (entry.properties ≠ [] → entry'.properties ≠ []) := by
  obtain ⟨p', hp', hname, hkept⟩ := h.live row.id _ ((live_eq_some ht).mpr ⟨row, hrow, rfl, rfl⟩)
  obtain ⟨row', hrow', hid, rfl⟩ := (live_eq_some ht').mp hp'
  refine ⟨row', hrow', hid, ?_, ?_⟩
  · rw [ht'.folded row' hrow', ht.folded row hrow]
    exact congrArg foldName hname
  · intro level entry hlast hcounts
    have hdepth : row.depthAt (t.outgoing row.id) level = some _ :=
      depthAt_eq_some.mpr ⟨entry, hlast, rfl⟩
    have hlevel := level_of_depthAt hdepth
    let d := entry.toDepth (relataAt (t.outgoing row.id) level)
    have hmem : d ∈ (t.loadRow row).depths := mem_depths_load.mpr (hlevel.symm ▸ hdepth)
    have hgrounds : d.grounds = true := by
      apply grounds_iff.mpr
      rw [hlevel]
      apply hcounts.imp_right
      apply Or.imp
      · simp [d, DepthEntry.toDepth, jsonLoads]
      · intro hrelatum
        obtain ⟨rel, hrel, hsource, hat⟩ := hrelatum
        have hleaves := mem_outgoing.mpr ⟨hrel, hsource⟩
        exact List.ne_nil_of_mem (mem_relataAt.mpr ⟨rel, hleaves, hat, rfl⟩)
    obtain ⟨d', hd', hlevel', hproperties, -⟩ := hkept _ hmem hgrounds
    obtain ⟨entry', hlast', hentry'⟩ := depthAt_eq_some.mp (mem_depths_load.mp hd')
    refine ⟨entry', hlevel.symm ▸ hlevel' ▸ hlast', ?_⟩
    intro hcontent hnone
    rw [← hentry'] at hproperties
    simp [d, DepthEntry.toDepth, jsonLoads, hnone] at hproperties
    exact hcontent hproperties

/-- A primitive keeps its record, and the record its name. -/
theorem Grows.exists_named_row (h : t.Grows t') (ht : t.Schema) (ht' : t'.Schema)
    {row : PrimitiveRow} (hrow : row ∈ t.primitives) :
    ∃ row' ∈ t'.primitives, row'.id = row.id ∧ row'.name = row.name := by
  obtain ⟨p', hp', hname, -⟩ := h.live row.id _ ((live_eq_some ht).mpr ⟨row, hrow, rfl, rfl⟩)
  obtain ⟨row', hrow', hid, rfl⟩ := (live_eq_some ht').mp hp'
  exact ⟨row', hrow', hid, hname⟩

theorem Grows.named (h : t.Grows t') (ht : t.Schema) (ht' : t'.Schema) {names : List String}
    {id : UUID} (hid : t.Named names id) : t'.Named names id := by
  obtain ⟨row, hrow, rfl, hname⟩ := hid
  obtain ⟨row', hrow', hid, hsame, -⟩ := h.exists_row ht ht' hrow
  exact ⟨row', hrow', hid, hsame ▸ hname⟩

/-! ## Closures that widen -/

/-- The store `t'` shows in the closure of the names what `t` does, and may show more. -/
structure Widens (names : List String) (t t' : Tables) : Prop where
  relata : ∀ rel ∈ t.closureRelata names, rel ∈ t'.relata
  rows : ∀ row ∈ t.primitives, t.InClosure names row.id → ∃ row' ∈ t'.primitives,
    row'.id = row.id ∧ row'.nameLower = row.nameLower ∧
      (t.nodeRow names row).groundingLevels ⊆ (t'.nodeRow names row').groundingLevels

/-- A closure keeps its primitives when the roots keep their names, and the relata inside stay. -/
theorem InClosure.of_subset {names : List String}
    (hnamed : ∀ id, t.Named names id → t'.Named names id)
    (hrelata : ∀ rel ∈ t.closureRelata names, rel ∈ t'.relata) {id : UUID}
    (h : t.InClosure names id) : t'.InClosure names id := by
  obtain ⟨root, hroot, hpath⟩ := h
  induction hpath with
  | refl => exact (hnamed root hroot).inClosure
  | tail hpath hedge ih =>
      have hinside : t.InClosure names _ := ⟨root, hroot, hpath⟩
      have hnext := hinside.step hedge
      obtain ⟨rel, hrel, rfl, rfl, htype⟩ := hedge
      have hkept := hrelata rel (mem_closureRelata.mpr ⟨hrel, hinside, hnext⟩)
      exact ih.step ⟨rel, hkept, rfl, rfl, htype⟩

theorem Grows.inClosure (h : t.Grows t') (ht : t.Schema) (ht' : t'.Schema) {names : List String}
    {id : UUID} (hid : t.InClosure names id) : t'.InClosure names id := by
  apply hid.of_subset fun _ => h.named ht ht'
  intro rel hrel
  exact h.relata.subset (mem_closureRelata.mp hrel).1

/-- A closure that grows loses no relatum. -/
theorem Grows.subperm_closureRelata (h : t.Grows t') (ht : t.Schema) (ht' : t'.Schema)
    (names : List String) : (t.closureRelata names).Subperm (t'.closureRelata names) := by
  refine (h.relata.filter _).trans (List.Sublist.subperm ?_)
  apply List.monotone_filter_right
  intro rel hrel
  simp only [decide_eq_true_eq, mem_reachableIds] at hrel ⊢
  exact ⟨h.inClosure ht ht' hrel.1, h.inClosure ht ht' hrel.2⟩

namespace Widens

variable {names : List String} (h : Widens names t t')
include h

theorem named {id : UUID} (hid : t.Named names id) : t'.Named names id := by
  obtain ⟨row, hrow, rfl, hname⟩ := hid
  have hnamed : t.Named names row.id := ⟨row, hrow, rfl, hname⟩
  obtain ⟨row', hrow', hid, hsame, -⟩ := h.rows row hrow hnamed.inClosure
  exact ⟨row', hrow', hid, hsame ▸ hname⟩

theorem inClosure {id : UUID} (hid : t.InClosure names id) : t'.InClosure names id :=
  hid.of_subset (fun _ => h.named) h.relata

theorem mem_closureRelata {rel : RelatumRow} (hrel : rel ∈ t.closureRelata names) :
    rel ∈ t'.closureRelata names := by
  obtain ⟨-, hsource, htarget⟩ := Tables.mem_closureRelata.mp hrel
  exact Tables.mem_closureRelata.mpr
    ⟨h.relata rel hrel, h.inClosure hsource, h.inClosure htarget⟩

theorem connected {a b : UUID} (hab : Digraph.Connected (t.ClosureEdge names) a b) :
    Digraph.Connected (t'.ClosureEdge names) a b := by
  apply hab.mono
  intro x y hedge
  obtain ⟨rel, hrel, hends⟩ := hedge
  exact ⟨rel, h.mem_closureRelata hrel, hends⟩

variable (ht : t.Schema) (ht' : t'.Schema)
include ht ht'

theorem meets_depthAt {id : UUID} (hid : t.InClosure names id) {d : DepthLevel}
    (hmeets : Meets ((t.subgraph names).depthAt id) d) :
    Meets ((t'.subgraph names).depthAt id) d := by
  obtain ⟨row, hrow, rfl⟩ := hid.stored ht
  obtain ⟨row', hrow', hsame, -, hlevels⟩ := h.rows row hrow hid
  have hnode := mem_closureNodes.mpr ⟨row, hrow, hid, rfl⟩
  have hinside := hsame ▸ h.inClosure hid
  have hnode' := mem_closureNodes.mpr ⟨row', hrow', hinside, rfl⟩
  have hdepth := (ht.coherent names).depthAt_eq hnode
  have hdepth' := (ht'.coherent names).depthAt_eq hnode'
  rw [nodeRow_id] at hdepth hdepth'
  rw [hdepth] at hmeets
  rw [← hsame, hdepth']
  exact hmeets.of_subset hlevels

/-- A strict closure that widens is strict exactly when the relata that it has gained are
satisfied. -/
theorem closureStrict_iff {minDepth : Option DepthLevel}
    (hstrict : t.ClosureStrict names minDepth (t.subgraph names).depthAt) :
    t'.ClosureStrict names minDepth (t'.subgraph names).depthAt ↔
      ∀ rel ∈ t'.closureRelata names, rel ∉ t.closureRelata names →
        Meets ((t'.subgraph names).depthAt rel.sourceId) rel.sourceDepth ∧
          Meets ((t'.subgraph names).depthAt rel.targetId) rel.targetDepth := by
  constructor
  · intro hstrict' rel hrel _
    obtain ⟨hmem, hsource, htarget⟩ := Tables.mem_closureRelata.mp hrel
    exact hstrict'.edges rel hmem hsource htarget
  · intro hgained
    have hkept : ∀ c ∈ names, ∃ row ∈ t.primitives, row.nameLower = foldName c ∧
        ∃ row' ∈ t'.primitives, row'.id = row.id ∧ row'.nameLower = foldName c := by
      intro c hc
      obtain ⟨row, hrow, hname⟩ := hstrict.stored c hc
      have hnamed : t.Named names row.id := ⟨row, hrow, rfl, hname ▸ List.mem_map_of_mem hc⟩
      obtain ⟨row', hrow', hid, hsame, -⟩ := h.rows row hrow hnamed.inClosure
      exact ⟨row, hrow, hname, row', hrow', hid, hsame.trans hname⟩
    -- Each name was stored, so the roots are the ones there were.
    have hroot : ∀ id, t'.Named names id → t.Named names id := by
      intro id hid
      obtain ⟨other, hother, rfl, hname⟩ := hid
      obtain ⟨c, hc, hfold⟩ := List.mem_map.mp hname
      obtain ⟨row, hrow, hlower, row', hrow', hid, hlower'⟩ := hkept c hc
      have heq := ht'.row_unique_name hother hrow' (hfold.symm.trans hlower'.symm)
      exact ⟨row, hrow, heq ▸ hid.symm, hlower ▸ List.mem_map_of_mem hc⟩
    refine ⟨hstrict.nonempty, ?_, ?_, ?_, ?_⟩
    · intro c hc
      obtain ⟨-, -, -, row', hrow', -, hlower'⟩ := hkept c hc
      exact ⟨row', hrow', hlower'⟩
    · intro rel hrel hsource htarget
      have hmem := Tables.mem_closureRelata.mpr ⟨hrel, hsource, htarget⟩
      by_cases hold : rel ∈ t.closureRelata names
      · obtain ⟨hrel, hsource, htarget⟩ := Tables.mem_closureRelata.mp hold
        obtain ⟨hs, hd⟩ := hstrict.edges rel hrel hsource htarget
        exact ⟨h.meets_depthAt ht ht' hsource hs, h.meets_depthAt ht ht' htarget hd⟩
      · exact hgained rel hmem hold
    · intro floor hfloor id hid
      have hnamed := hroot id hid
      exact h.meets_depthAt ht ht' hnamed.inClosure (hstrict.floor floor hfloor id hnamed)
    · intro a b ha hb
      exact h.connected (hstrict.connected a b (hroot a ha) (hroot b hb))

end Widens

end Tables

end Vre
