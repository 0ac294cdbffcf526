import Vre.Verification.Grounding.Growth

/-! # What a query demands

A query demands a depth of a primitive through a relatum of its closure, or through the
override. A level that the query masks is never shown, so a demand for it is never met, and
no growth of the store changes that.
-/

namespace Vre

namespace Tables

/-- The query demands that the primitive be grounded to the depth: a relatum of the closure
leaves it there, leads to it there, or it is named and the override asks for it. -/
inductive Demands [NameFolding] (t : Tables) (concepts : List String)
    (minDepth : Option DepthLevel) : UUID → DepthLevel → Prop where
  | source {rel : RelatumRow} (hrel : rel ∈ t.closureRelata concepts) :
      Demands t concepts minDepth rel.sourceId rel.sourceDepth
  | target {rel : RelatumRow} (hrel : rel ∈ t.closureRelata concepts) :
      Demands t concepts minDepth rel.targetId rel.targetDepth
  | floor {id : UUID} {d : DepthLevel} (hfloor : minDepth = some d)
      (hroot : t.Named concepts id) : Demands t concepts minDepth id d

/-- No level that the query demands of a primitive is one that it masks. -/
def Unmasked [NameFolding] (t : Tables) (concepts : List String)
    (minDepth : Option DepthLevel) : Prop :=
  ∀ id d, t.Demands concepts minDepth id d → ∀ level ≤ d, ¬ t.Masked concepts id level

theorem Demands.inClosure [NameFolding] {t : Tables} {concepts : List String}
    {minDepth : Option DepthLevel} {id : UUID} {d : DepthLevel}
    (h : t.Demands concepts minDepth id d) : t.InClosure concepts id := by
  cases h with
  | source hrel => exact (mem_closureRelata.mp hrel).2.1
  | target hrel => exact (mem_closureRelata.mp hrel).2.2
  | floor _ hroot => exact hroot.inClosure

/-- A query that owes nothing meets every demand. -/
theorem Demands.met [NameFolding] {t : Tables} (ht : t.Schema) {draw : Draw}
    {concepts : List String} {minDepth : Option DepthLevel}
    (hsat : (t.inquiry draw concepts minDepth).Satisfied) {id : UUID} {d : DepthLevel}
    (h : t.Demands concepts minDepth id d) : Meets ((t.subgraph concepts).depthAt id) d := by
  obtain ⟨-, hedges, hfloor⟩ := (GroundingEngine.satisfied_iff ht).mp hsat
  cases h with
  | source hrel =>
      obtain ⟨hmem, hsource, htarget⟩ := mem_closureRelata.mp hrel
      exact (hedges _ hmem hsource htarget).1
  | target hrel =>
      obtain ⟨hmem, hsource, htarget⟩ := mem_closureRelata.mp hrel
      exact (hedges _ hmem hsource htarget).2
  | floor hmin hroot => exact hfloor d hmin id hroot

/-- A query that owes nothing masks nothing that it demands. -/
theorem unmasked_of_satisfied [NameFolding] {t : Tables} (ht : t.Schema) {draw : Draw}
    {concepts : List String} {minDepth : Option DepthLevel}
    (hsat : (t.inquiry draw concepts minDepth).Satisfied) : t.Unmasked concepts minDepth := by
  intro id d hdemands level hle hmask
  have hinside := hdemands.inClosure
  obtain ⟨row, hrow, rfl⟩ := hinside.stored ht
  have hmet := hdemands.met ht hsat
  have hnode := mem_closureNodes.mpr ⟨row, hrow, hinside, rfl⟩
  have hdepth : (t.subgraph concepts).depthAt row.id =
      (t.nodeRow concepts row).contiguousMaxDepth := (ht.coherent concepts).depthAt_eq hnode
  rw [hdepth] at hmet
  exact hmask.notMem_nodeRow ht hrow (meets_contiguousMaxDepth.mp hmet level hle)

/-! ## Masked levels of a growing store -/

/-- The masked levels, in terms of the stored primitive. -/
theorem masked_iff [NameFolding] {t : Tables} (ht : t.Schema) {names : List String} {id : UUID}
    {p : Primitive} (hp : t.live id = some p) {level : DepthLevel} :
    t.Masked names id level ↔ level ≠ .existence ∧ ∃ d ∈ p.depths, d.level = level ∧
      d.properties = [] ∧ d.relata ≠ [] ∧ ∀ r ∈ d.relata, ¬ t.InClosure names r.targetId := by
  have hrelata : ∀ d ∈ p.depths, ∀ r, r ∈ d.relata ↔ ∃ rel ∈ t.relata,
      rel.sourceId = id ∧ rel.sourceDepth = d.level ∧ rel.toRelatum = r :=
    fun d hd r => mem_relata_live ht hp hd
  obtain ⟨row, hrow, rfl, rfl⟩ := (live_eq_some ht).mp hp
  constructor
  · rintro ⟨hdeeper, ⟨row', hrow', hid, entry, hlast, hbare⟩, ⟨rel, hrel, hsource, hat⟩, hleave⟩
    cases ht.row_unique hrow' hrow hid
    obtain ⟨d, hd, rfl, hproperties⟩ := exists_mem_load (t.outgoing row.id) hlast
    refine ⟨hdeeper, d, hd, rfl, by simp [hproperties, hbare, jsonLoads], ?_, fun r hr => ?_⟩
    · exact List.ne_nil_of_mem ((hrelata d hd _).mpr ⟨rel, hrel, hsource, hat, rfl⟩)
    · obtain ⟨other, hother, hleaves, hlevel, rfl⟩ := (hrelata d hd r).mp hr
      exact hleave other hother hleaves hlevel
  · rintro ⟨hdeeper, d, hd, rfl, hbare, hne, hleave⟩
    obtain ⟨entry, hlast, hproperties⟩ := exists_entry_of_mem_load hd
    obtain ⟨r, hr⟩ := List.exists_mem_of_ne_nil _ hne
    obtain ⟨rel, hrel, hsource, hat, -⟩ := (hrelata d hd r).mp hr
    refine ⟨hdeeper, ⟨row, hrow, rfl, entry, hlast, ?_⟩, ⟨rel, hrel, hsource, hat⟩, ?_⟩
    · rw [hproperties] at hbare
      simpa [jsonLoads] using hbare
    · intro other hother hleaves hlevel hinside
      exact hleave _ ((hrelata d hd _).mpr ⟨other, hother, hleaves, hlevel, rfl⟩) hinside

/-- A masked level was there before, and stays as it was. -/
theorem Extends.masked_iff [NameFolding] {t t' : Tables} (ht : t.WellFormed) (ht' : t'.Schema)
    (h : t.Extends t') {names : List String} {id : UUID} (hid : t.Stored id)
    {level : DepthLevel} : t'.Masked names id level ↔ t.Masked names id level := by
  have hschema := ht.toSchema
  obtain ⟨p, hp⟩ := exists_live hid
  obtain ⟨p', hp', -, hkept⟩ := h.live id p hp
  have hinside : ∀ d ∈ p.depths, ∀ r ∈ d.relata,
      (t'.InClosure names r.targetId ↔ t.InClosure names r.targetId) := by
    intro d hd r hr
    obtain ⟨rel, hrel, -, -, rfl⟩ := (mem_relata_live hschema hp hd).mp hr
    exact h.inClosure_iff hschema ht' (hschema.targets rel hrel)
  have hsame : ∀ d ∈ p.depths, d.relata ≠ [] → d ∈ p'.depths :=
    fun d hd hne => hkept d hd (grounds_iff.mpr (Or.inr (Or.inr hne)))
  rw [Tables.masked_iff ht' hp', Tables.masked_iff hschema hp]
  refine and_congr_right fun _ => ⟨?_, ?_⟩
  · rintro ⟨d', hd', rfl, hbare, hne, hleave⟩
    obtain ⟨r', hr'⟩ := List.exists_mem_of_ne_nil _ hne
    obtain ⟨rel, hrel, hsource, hat, -⟩ := (mem_relata_live ht' hp' hd').mp hr'
    obtain ⟨q, hq, d, hd, hlevel, hmem⟩ := ht.exists_depth (h.relata.mem_iff.mp hrel)
    cases (hsource ▸ hq).symm.trans hp
    have hd'' := hsame d hd (List.ne_nil_of_mem hmem)
    obtain rfl := (ht'.normal_live hp').eq_of_level_eq hd'' hd' (hlevel.trans hat)
    exact ⟨d, hd, rfl, hbare, hne, fun r hr hin => hleave r hr ((hinside d hd r hr).mpr hin)⟩
  · rintro ⟨d, hd, rfl, hbare, hne, hleave⟩
    exact ⟨d, hsame d hd hne, rfl, hbare, hne,
      fun r hr hin => hleave r hr ((hinside d hd r hr).mp hin)⟩

/-! ## Demands of a growing store -/

theorem Extends.demands_iff [NameFolding] {t t' : Tables} (ht : t.Schema) (ht' : t'.Schema)
    (h : t.Extends t') {concepts : List String} {minDepth : Option DepthLevel} {id : UUID}
    (hid : t.Stored id) {d : DepthLevel} :
    t'.Demands concepts minDepth id d ↔ t.Demands concepts minDepth id d := by
  have hrelata := h.perm_closureRelata ht ht' concepts
  constructor
  · intro hdemands
    cases hdemands with
    | source hrel => exact .source (hrelata.mem_iff.mp hrel)
    | target hrel => exact .target (hrelata.mem_iff.mp hrel)
    | floor hfloor hroot => exact .floor hfloor ((h.named_iff ht ht' hid).mp hroot)
  · intro hdemands
    cases hdemands with
    | source hrel => exact .source (hrelata.mem_iff.mpr hrel)
    | target hrel => exact .target (hrelata.mem_iff.mpr hrel)
    | floor hfloor hroot => exact .floor hfloor ((h.named_iff ht ht' hid).mpr hroot)

/-- Growth neither masks a demanded level nor unmasks one. -/
theorem Extends.unmasked_iff [NameFolding] {t t' : Tables} (ht : t.WellFormed) (ht' : t'.Schema)
    (h : t.Extends t') {concepts : List String} {minDepth : Option DepthLevel} :
    t'.Unmasked concepts minDepth ↔ t.Unmasked concepts minDepth := by
  have hschema := ht.toSchema
  constructor
  · intro hunmasked id d hdemands level hle hmask
    have hid := hdemands.inClosure.stored hschema
    exact hunmasked id d ((h.demands_iff hschema ht' hid).mpr hdemands) level hle
      ((h.masked_iff ht ht' hid).mpr hmask)
  · intro hunmasked id d hdemands level hle hmask
    obtain ⟨rel, hrel, hsource, -⟩ := hmask.relata
    have hid : t.Stored id := hsource ▸ hschema.sources rel (h.relata.mem_iff.mp hrel)
    exact hunmasked id d ((h.demands_iff hschema ht' hid).mp hdemands) level hle
      ((h.masked_iff ht ht' hid).mp hmask)

end Tables

end Vre
