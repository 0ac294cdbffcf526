import Mathlib.Data.Finset.Image
import Mathlib.Tactic.Tauto
import Vre.Model.Rows
import Vre.Verification.Knowledge.Contiguity

/-! # Hydration

The primitive that `_hydrate_primitive` reads back from a stored record and its relata, as
a plain function: the last record at each level, in ascending order, each with the relata
stored at its level.
-/

namespace Vre

/-! ## The primitive a record stands for -/

def RelatumRow.toRelatum (rel : RelatumRow) : Relatum :=
  ⟨rel.relType, rel.targetId, rel.targetDepth, jsonLoads rel.metadataJson, rel.provenanceJson⟩

def DepthEntry.toDepth (entry : DepthEntry) (relata : List Relatum) : Depth :=
  ⟨entry.level, jsonLoads entry.properties, relata, entry.provenance⟩

/-- The record that counts at a level: the last one written there. -/
def lastAt (entries : List DepthEntry) (level : DepthLevel) : Option DepthEntry :=
  entries.reverse.find? fun entry => entry.level = level

/-- The relata stored at one level. -/
def relataAt (relata : List RelatumRow) (level : DepthLevel) : List Relatum :=
  (relata.filter fun rel => rel.sourceDepth = level).map RelatumRow.toRelatum

/-- The depth read back at one level. -/
def PrimitiveRow.depthAt (row : PrimitiveRow) (relata : List RelatumRow) (level : DepthLevel) :
    Option Depth :=
  (lastAt row.depthsJson level).map fun entry => entry.toDepth (relataAt relata level)

def PrimitiveRow.load (row : PrimitiveRow) (relata : List RelatumRow) : Primitive where
  id := row.id
  name := row.name
  depths := DepthLevel.sorted.filterMap (row.depthAt relata)
  provenance := row.provenanceJson
  metrics := row.metricsJson

/-- Every record of the row carries provenance. -/
structure PrimitiveRow.Stamped (row : PrimitiveRow) : Prop where
  primitive : row.provenanceJson.isSome
  depths : ∀ entry ∈ row.depthsJson, entry.provenance.isSome

theorem lastAt_cons (entry : DepthEntry) (rest : List DepthEntry) (level : DepthLevel) :
    lastAt (entry :: rest) level =
      (lastAt rest level).or (if entry.level = level then some entry else none) := by
  simp only [lastAt, List.reverse_cons, List.find?_append, List.find?_singleton]
  simp

theorem lastAt_eq_some {entries : List DepthEntry} {level : DepthLevel} {entry : DepthEntry}
    (h : lastAt entries level = some entry) : entry ∈ entries ∧ entry.level = level := by
  constructor
  · exact List.mem_reverse.mp (List.mem_of_find?_eq_some h)
  · simpa using List.find?_some h

theorem exists_lastAt {entries : List DepthEntry} {level : DepthLevel} {entry : DepthEntry}
    (hmem : entry ∈ entries) (hlevel : entry.level = level) :
    ∃ last, lastAt entries level = some last := by
  cases hlast : lastAt entries level with
  | some last => exact ⟨last, rfl⟩
  | none =>
      rw [lastAt, List.find?_eq_none] at hlast
      exact absurd (by simpa using hlevel) (hlast entry (List.mem_reverse.mpr hmem))

/-! ## The two loops -/

theorem foldlM_hydrateDepth (name : String) {entries : List DepthEntry}
    (hstamped : ∀ entry ∈ entries, entry.provenance.isSome) (depthsByLevel : DepthsByLevel) :
    entries.foldlM (hydrateDepth name) depthsByLevel =
      .ok fun level => ((lastAt entries level).map fun entry => entry.toDepth []).or
        (depthsByLevel level) := by
  induction entries generalizing depthsByLevel with
  | nil => rfl
  | cons entry rest ih =>
      obtain ⟨provenance, hprov⟩ := Option.isSome_iff_exists.mp (hstamped entry (by simp))
      have hstep : hydrateDepth name depthsByLevel entry =
          .ok (Function.update depthsByLevel entry.level (some (entry.toDepth []))) := by
        simp [hydrateDepth, DepthEntry.toDepth, hprov]
      rw [List.foldlM_cons, hstep]
      change rest.foldlM (hydrateDepth name) _ = _
      rw [ih fun e he => hstamped e (List.mem_cons_of_mem entry he)]
      congr 1
      funext level
      rw [lastAt_cons]
      by_cases hlevel : entry.level = level
      · subst hlevel
        cases lastAt rest entry.level <;> simp
      · have hne : level ≠ entry.level := fun h => hlevel h.symm
        cases lastAt rest level <;> simp [hlevel, hne]

theorem foldlM_hydrateRelatum (name : String) {relata : List RelatumRow}
    (hstamped : ∀ rel ∈ relata, rel.provenanceJson.isSome) (depthsByLevel : DepthsByLevel) :
    relata.foldlM (hydrateRelatum name) depthsByLevel =
      .ok fun level => (depthsByLevel level).map fun depth =>
        { depth with relata := depth.relata ++ relataAt relata level } := by
  induction relata generalizing depthsByLevel with
  | nil =>
      simp [relataAt]
      rfl
  | cons rel rest ih =>
      obtain ⟨provenance, hprov⟩ := Option.isSome_iff_exists.mp (hstamped rel (by simp))
      have hrest : ∀ r ∈ rest, r.provenanceJson.isSome :=
        fun r hr => hstamped r (List.mem_cons_of_mem rel hr)
      have hstep : hydrateRelatum name depthsByLevel rel =
          .ok fun level => (depthsByLevel level).map fun depth =>
            { depth with relata := depth.relata ++ relataAt [rel] level } := by
        simp only [hydrateRelatum, hprov]
        cases hdepth : depthsByLevel rel.sourceDepth with
        | none =>
            refine congrArg Except.ok (funext fun level => ?_)
            by_cases hlevel : rel.sourceDepth = level
            · subst hlevel
              simp [hdepth]
            · simp [relataAt, hlevel]
        | some depth =>
            refine congrArg Except.ok (funext fun level => ?_)
            by_cases hlevel : rel.sourceDepth = level
            · subst hlevel
              simp [hdepth, relataAt, RelatumRow.toRelatum, hprov]
            · have hne : level ≠ rel.sourceDepth := fun h => hlevel h.symm
              simp [relataAt, hlevel, hne]
      rw [List.foldlM_cons, hstep]
      change rest.foldlM (hydrateRelatum name) _ = _
      rw [ih hrest]
      congr 1
      funext level
      cases depthsByLevel level with
      | none => rfl
      | some depth =>
          by_cases hlevel : rel.sourceDepth = level <;> simp [relataAt, hlevel]

/-- Hydration of stamped records never fails, and reads back what they stand for. -/
theorem hydratePrimitive_eq {row : PrimitiveRow} {relata : List RelatumRow} (hrow : row.Stamped)
    (hrelata : ∀ rel ∈ relata, rel.provenanceJson.isSome) :
    hydratePrimitive row relata = .ok (row.load relata) := by
  obtain ⟨provenance, hprov⟩ := Option.isSome_iff_exists.mp hrow.primitive
  have hdepths : (fun level => (((lastAt row.depthsJson level).map fun entry =>
      entry.toDepth []).or none).map fun depth =>
        { depth with relata := depth.relata ++ relataAt relata level }) = row.depthAt relata := by
    funext level
    cases hlast : lastAt row.depthsJson level <;>
      simp [PrimitiveRow.depthAt, hlast, DepthEntry.toDepth]
  unfold hydratePrimitive
  rw [foldlM_hydrateDepth row.name hrow.depths]
  change (relata.foldlM (hydrateRelatum row.name) _ >>= _) = _
  rw [foldlM_hydrateRelatum row.name hrelata, hdepths]
  simp only [hprov, PrimitiveRow.load]
  rfl

/-! ## Depths of a loaded primitive -/

theorem depthAt_eq_some {row : PrimitiveRow} {relata : List RelatumRow} {level : DepthLevel}
    {depth : Depth} : row.depthAt relata level = some depth ↔
      ∃ entry, lastAt row.depthsJson level = some entry ∧
        entry.toDepth (relataAt relata level) = depth :=
  Option.map_eq_some_iff

theorem level_of_depthAt {row : PrimitiveRow} {relata : List RelatumRow} {level : DepthLevel}
    {depth : Depth} (h : row.depthAt relata level = some depth) : depth.level = level := by
  obtain ⟨entry, hlast, rfl⟩ := depthAt_eq_some.mp h
  exact (lastAt_eq_some hlast).2

theorem mem_depths_load {row : PrimitiveRow} {relata : List RelatumRow} {depth : Depth} :
    depth ∈ (row.load relata).depths ↔ row.depthAt relata depth.level = some depth := by
  simp only [PrimitiveRow.load, List.mem_filterMap, DepthLevel.mem_sorted, true_and]
  constructor
  · rintro ⟨level, h⟩
    rwa [level_of_depthAt h]
  · exact fun h => ⟨depth.level, h⟩

theorem mem_relataAt {relata : List RelatumRow} {level : DepthLevel} {r : Relatum} :
    r ∈ relataAt relata level ↔ ∃ rel ∈ relata, rel.sourceDepth = level ∧ rel.toRelatum = r := by
  simp [relataAt, and_assoc]

/-- A loaded depth holds the relata stored at its level. -/
theorem relata_of_mem_load {row : PrimitiveRow} {relata : List RelatumRow} {depth : Depth}
    (h : depth ∈ (row.load relata).depths) : depth.relata = relataAt relata depth.level := by
  obtain ⟨entry, -, hdepth⟩ := depthAt_eq_some.mp (mem_depths_load.mp h)
  exact (congrArg Depth.relata hdepth).symm

/-- The last record at a level is loaded, with the relata stored there. -/
theorem exists_mem_load {row : PrimitiveRow} (relata : List RelatumRow) {level : DepthLevel}
    {entry : DepthEntry} (h : lastAt row.depthsJson level = some entry) :
    ∃ d ∈ (row.load relata).depths,
      d.level = level ∧ d.properties = jsonLoads entry.properties := by
  obtain ⟨d, hdepth⟩ : ∃ d, row.depthAt relata level = some d :=
    ⟨_, depthAt_eq_some.mpr ⟨entry, h, rfl⟩⟩
  have hlevel := level_of_depthAt hdepth
  obtain ⟨entry', hlast, rfl⟩ := depthAt_eq_some.mp hdepth
  cases h.symm.trans hlast
  exact ⟨_, mem_depths_load.mpr (hlevel.symm ▸ hdepth), hlevel, rfl⟩

/-- A loaded depth is the last record at its level. -/
theorem exists_entry_of_mem_load {row : PrimitiveRow} {relata : List RelatumRow} {d : Depth}
    (h : d ∈ (row.load relata).depths) :
    ∃ entry, lastAt row.depthsJson d.level = some entry ∧
      d.properties = jsonLoads entry.properties := by
  obtain ⟨entry, hlast, hdepth⟩ := depthAt_eq_some.mp (mem_depths_load.mp h)
  exact ⟨entry, hlast, (congrArg Depth.properties hdepth).symm⟩

theorem pairwise_depths_load (row : PrimitiveRow) (relata : List RelatumRow) :
    (row.load relata).depths.Pairwise fun a b => a.level < b.level := by
  refine List.Pairwise.filterMap _ ?_ DepthLevel.pairwise_sorted
  intro a b hab depth hdepth depth' hdepth'
  rwa [level_of_depthAt hdepth, level_of_depthAt hdepth']

/-! ## Grounding levels -/

theorem mem_groundingLevels {p : Primitive} {level : DepthLevel} :
    level ∈ p.groundingLevels ↔ ∃ d ∈ p.depths, d.grounds ∧ d.level = level := by
  simp [Primitive.groundingLevels, and_assoc]

/-- A primitive that keeps the depths that ground keeps its levels. -/
theorem groundingLevels_subset {p p' : Primitive}
    (h : ∀ d ∈ p.depths, d.grounds = true → d ∈ p'.depths) :
    p.groundingLevels ⊆ p'.groundingLevels := by
  intro l hl
  obtain ⟨d, hd, hgrounds, rfl⟩ := mem_groundingLevels.mp hl
  exact mem_groundingLevels.mpr ⟨d, h d hd hgrounds, hgrounds, rfl⟩

theorem grounds_iff {d : Depth} :
    d.grounds ↔ d.level = .existence ∨ d.properties ≠ [] ∨ d.relata ≠ [] := by
  simp only [Depth.grounds, Depth.isEmpty, Bool.or_eq_true, decide_eq_true_eq, Bool.not_eq_true',
    Bool.and_eq_false_iff, List.isEmpty_eq_false_iff]

/-- A depth with the content and the relata of one that counts, counts. -/
theorem grounds_of_subset {d d' : Depth} (h : d.grounds = true) (hlevel : d'.level = d.level)
    (hproperties : d'.properties = d.properties) (hrelata : d.relata ⊆ d'.relata) :
    d'.grounds = true := by
  apply grounds_iff.mpr
  rw [hlevel, hproperties]
  apply (grounds_iff.mp h).imp_right
  apply Or.imp_right
  intro hne hnone
  rw [hnone] at hrelata
  exact hne (List.subset_nil.mp hrelata)

theorem meets_contiguousMaxDepth {p : Primitive} {required : DepthLevel} :
    Meets p.contiguousMaxDepth required ↔ ∀ l ≤ required, l ∈ p.groundingLevels :=
  meets_contiguousMax

/-- A level of a stored primitive grounds by its own properties or by a relatum there. -/
theorem mem_groundingLevels_load {row : PrimitiveRow} {relata : List RelatumRow}
    {level : DepthLevel} : level ∈ (row.load relata).groundingLevels ↔
      ∃ entry, lastAt row.depthsJson level = some entry ∧
        (level = .existence ∨ entry.properties ≠ [] ∨ ∃ rel ∈ relata, rel.sourceDepth = level) := by
  have hrels : relataAt relata level ≠ [] ↔ ∃ rel ∈ relata, rel.sourceDepth = level := by
    simp [relataAt, List.filter_eq_nil_iff]
  rw [mem_groundingLevels]
  constructor
  · rintro ⟨depth, hmem, hgrounds, hlevel⟩
    rw [mem_depths_load, hlevel] at hmem
    obtain ⟨entry, hlast, rfl⟩ := depthAt_eq_some.mp hmem
    refine ⟨entry, hlast, ?_⟩
    rw [grounds_iff, hlevel] at hgrounds
    rw [← hrels]
    simpa [DepthEntry.toDepth, jsonLoads] using hgrounds
  · rintro ⟨entry, hlast, hgrounds⟩
    have hdepth : row.depthAt relata level = some (entry.toDepth (relataAt relata level)) :=
      depthAt_eq_some.mpr ⟨entry, hlast, rfl⟩
    have hlevel := level_of_depthAt hdepth
    refine ⟨_, mem_depths_load.mpr (hlevel.symm ▸ hdepth), ?_, hlevel⟩
    rw [grounds_iff, hlevel]
    rw [← hrels] at hgrounds
    simpa [DepthEntry.toDepth, jsonLoads] using hgrounds

end Vre
