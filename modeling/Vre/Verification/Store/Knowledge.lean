import Vre.Verification.Grounding.Resolution
import Vre.Verification.Knowledge.Base
import Vre.Verification.Store.Live

/-! # The knowledge base of the tables

Well-formed tables hold a knowledge base: the map from each id to the primitive that reads
back under it. Each statement changes the tables as its operation changes the map.
-/

namespace Vre

/-! ## Loading after a statement -/

theorem load_toRow_settle [NameFolding] {p : Primitive} (h : p.Storable) :
    p.toRow.load p.toRelata = p.settle := by
  have hdepth : p.toRow.depthAt p.toRelata = fun level =>
      (p.lastDepth level).map fun d => { d with relata := p.relataOn level } := by
    funext level
    exact depthAt_toRow h level
  simp only [PrimitiveRow.load, Primitive.settle, hdepth]
  rfl

theorem settle_of_normal [NameFolding] {p : Primitive} (h : p.Storable) (hnormal : p.Normal) :
    p.settle = p :=
  (load_toRow_settle h).symm.trans ((load_toRow hnormal.nodup_levels h).trans hnormal.sortDepths_eq)

/-- Dropping relata from the records drops them from the loaded primitive. -/
theorem load_filter_restrict (row : PrimitiveRow) (relata : List RelatumRow) (keep : UUID → Prop)
    [DecidablePred keep] : row.load (relata.filter fun rel => keep rel.targetId) =
      (row.load relata).restrict keep := by
  have hdepth : ∀ level, row.depthAt (relata.filter fun rel => keep rel.targetId) level =
      (row.depthAt relata level).map fun d =>
        { d with relata := d.relata.filter fun r => keep r.targetId } := by
    intro level
    have hat : relataAt (relata.filter fun rel => keep rel.targetId) level =
        (relataAt relata level).filter fun r => keep r.targetId := by
      simp only [relataAt, List.filter_map, List.filter_filter]
      congr 1
      apply List.filter_congr
      intro rel _
      exact Bool.and_comm _ _
    simp only [PrimitiveRow.depthAt, hat, Option.map_map]
    rfl
  simp only [PrimitiveRow.load, Primitive.restrict, List.map_filterMap, hdepth]

namespace Tables

/-- Other primitives read back after a save as before. -/
theorem live_replace_of_ne [NameFolding] {t : Tables} (h : t.Schema) {p : Primitive}
    (hp : Sqlite.Accepts t p) {id : UUID} (hid : id ≠ p.id) :
    (t.replace p.toRow p.toRelata).live id = t.live id := by
  apply Option.ext
  intro q
  rw [live_eq_some (h.replace hp), live_eq_some h]
  constructor
  · intro hq
    obtain ⟨row, hrow, rfl, rfl⟩ := hq
    rcases mem_replaceRow.mp hrow with rfl | ⟨hrow, -⟩
    · exact absurd rfl hid
    · exact ⟨row, hrow, rfl, by rw [loadRow, loadRow, outgoing_replace_of_ne hid]⟩
  · intro hq
    obtain ⟨row, hrow, rfl, rfl⟩ := hq
    exact ⟨row, mem_replaceRow.mpr (Or.inr ⟨hrow, hid⟩), rfl,
      by rw [loadRow, loadRow, outgoing_replace_of_ne hid]⟩

theorem live_replace_settle [NameFolding] {t : Tables} (h : t.Schema) {p : Primitive}
    (hp : Sqlite.Accepts t p) :
    (t.replace p.toRow p.toRelata).live = Function.update t.live p.id (some p.settle) := by
  funext id
  by_cases hid : id = p.id
  · subst hid
    rw [Function.update_self, live_replace_self h hp, load_toRow_settle hp.storable]
  · rw [Function.update_of_ne hid, live_replace_of_ne h hp hid]

/-- What is left of a record's relata when another record is deleted. -/
theorem outgoing_deletePrimitiveRow {t : Tables} {id a : UUID} (ha : a ≠ id) :
    (t.deletePrimitiveRow id).outgoing a =
      (t.outgoing a).filter fun rel => rel.targetId ≠ id := by
  simp only [outgoing, deletePrimitiveRow, List.filter_filter]
  apply List.filter_congr
  intro rel _
  by_cases hsource : rel.sourceId = a
  · simp [hsource, ha]
  · simp [hsource]

theorem live_deletePrimitiveRow [NameFolding] {t : Tables} (h : t.WellFormed) (id : UUID) :
    (t.deletePrimitiveRow id).live = erased t.live id := by
  have hschema := (h.deletePrimitiveRow id).toSchema
  have hrows : ∀ row, row ∈ (t.deletePrimitiveRow id).primitives ↔
      row ∈ t.primitives ∧ row.id ≠ id := by
    simp [deletePrimitiveRow]
  have hload : ∀ row : PrimitiveRow, row.id ≠ id →
      (t.deletePrimitiveRow id).loadRow row = (t.loadRow row).restrict (· ≠ id) := by
    intro row hrow
    rw [loadRow, loadRow, outgoing_deletePrimitiveRow hrow]
    exact load_filter_restrict row (t.outgoing row.id) (· ≠ id)
  funext a
  apply Option.ext
  intro q
  rw [live_eq_some hschema, erased_eq_some]
  constructor
  · intro hq
    obtain ⟨row, hrow, rfl, rfl⟩ := hq
    obtain ⟨hmem, hne⟩ := (hrows row).mp hrow
    exact ⟨hne, _, (live_eq_some h.toSchema).mpr ⟨row, hmem, rfl, rfl⟩, (hload row hne).symm⟩
  · intro hq
    obtain ⟨hne, p, hp, rfl⟩ := hq
    obtain ⟨row, hmem, rfl, rfl⟩ := (live_eq_some h.toSchema).mp hp
    exact ⟨row, (hrows row).mpr ⟨hmem, hne⟩, rfl, hload row hne⟩

theorem live_setMetrics (t : Tables) (id : UUID) (metrics : PrimitiveMetrics) :
    (t.setMetrics id metrics).live =
      fun a => (t.live a).map (Primitive.counted id metrics a) := by
  funext a
  have hfind : (t.setMetrics id metrics).primitives.find? (fun row => row.id = a) =
      (t.primitives.find? fun row => row.id = a).map fun row =>
        if row.id = id then { row with metricsJson := some metrics } else row := by
    have hid : ((fun row : PrimitiveRow => decide (row.id = a)) ∘ fun row =>
        if row.id = id then { row with metricsJson := some metrics } else row) =
          fun row => decide (row.id = a) := by
      funext row
      simp only [Function.comp]
      split <;> rfl
    rw [setMetrics, List.find?_map, hid]
  rw [live, live, hfind, Option.map_map, Option.map_map]
  apply Option.map_congr
  intro row hrow
  have hrow : row.id = a := by simpa using List.find?_some hrow
  subst hrow
  simp only [Function.comp, Primitive.counted]
  split <;> rfl

/-! ## The map -/

/-- The edges of the map are the transitive relata of the tables. -/
theorem WellFormed.transitiveEdge_live [NameFolding] {t : Tables} (h : t.WellFormed) :
    TransitiveEdge t.live = t.TransEdge := by
  funext a b
  apply propext
  constructor
  · intro hab
    obtain ⟨p, hp, r, hr, rfl, htype⟩ := hab
    obtain ⟨d, hd, hr⟩ := mem_relata.mp hr
    obtain ⟨rel, hrel, hsource, -, rfl⟩ := (mem_relata_live h.toSchema hp hd).mp hr
    exact ⟨rel, hrel, hsource, rfl, htype⟩
  · intro hab
    obtain ⟨rel, hrel, rfl, rfl, htype⟩ := hab
    obtain ⟨p, hp, d, hd, -, hr⟩ := h.exists_depth hrel
    exact ⟨p, hp, rel.toRelatum, mem_relata.mpr ⟨d, hd, hr⟩, rfl, htype⟩

theorem isSome_live {t : Tables} {id : UUID} : (t.live id).isSome ↔ t.Stored id := by
  simp [live, Stored]

/-- The knowledge base that well-formed tables hold. -/
def knowledge [NameFolding] (t : Tables) (h : t.WellFormed) : KnowledgeBase where
  known := t.live
  finite := by
    apply (t.primitives.map PrimitiveRow.id).toFinset.finite_toSet.subset
    intro id hid
    simpa [Stored] using isSome_live.mp hid
  own_id := fun _ _ hp => live_id h.toSchema hp
  storable := fun _ _ hp => h.toSchema.storable_live hp
  normal := fun _ _ hp => h.toSchema.normal_live hp
  one_name := by
    intro a b p q hp hq hname
    have hsame : t.named p.name = some q := named_of_live h.toSchema hq hname.symm
    have hown : t.named p.name = some p := named_of_live h.toSchema hp rfl
    obtain rfl := Option.some.inj (hown.symm.trans hsame)
    exact (live_id h.toSchema hp).symm.trans (live_id h.toSchema hq)
  closed := by
    intro id p hp r hr
    obtain ⟨d, hd, hr⟩ := mem_relata.mp hr
    obtain ⟨rel, hrel, -, -, rfl⟩ := (mem_relata_live h.toSchema hp hd).mp hr
    exact isSome_live.mpr (h.targets rel hrel)
  acyclic := h.transitiveEdge_live ▸ h.acyclic

theorem known_knowledge [NameFolding] {t : Tables} (h : t.WellFormed) (id : UUID) :
    (t.knowledge h).known id = t.live id :=
  rfl

theorem knowledge_eq_none [NameFolding] {t : Tables} (h : t.WellFormed) {id : UUID} :
    (t.knowledge h).known id = none ↔ ¬ t.Stored id :=
  live_eq_none

theorem lookup_knowledge [NameFolding] {t : Tables} (h : t.WellFormed) (name : String) :
    (t.knowledge h).lookup name = t.named name := by
  apply Option.ext
  intro p
  rw [KnowledgeBase.lookup_eq_some]
  constructor
  · intro hp
    exact named_of_live h.toSchema hp.1 hp.2
  · intro hp
    exact live_of_named h.toSchema hp

theorem canonical_knowledge [NameFolding] {t : Tables} (h : t.WellFormed) (p : Primitive) :
    (t.knowledge h).canonical p = t.canonical p := by
  rw [KnowledgeBase.canonical, lookup_knowledge]
  rfl

/-! ## Admission -/

theorem nameFree_knowledge [NameFolding] {t : Tables} (h : t.WellFormed) {p : Primitive} :
    (t.knowledge h).NameFree p ↔ t.NameFree p.toRow := by
  constructor
  · intro hfree row hrow hname
    exact hfree row.id _ ((live_eq_some h.toSchema).mpr ⟨row, hrow, rfl, rfl⟩)
      ((h.nameLower_loadRow hrow).trans hname)
  · intro hfree id q hq hname
    obtain ⟨row, hrow, rfl, rfl⟩ := (live_eq_some h.toSchema).mp hq
    exact hfree row hrow ((h.nameLower_loadRow hrow).symm.trans hname)

/-- The map stays acyclic exactly when no proposed relatum closes a cycle over the edges that
stay. -/
theorem staysAcyclic_knowledge [NameFolding] {t : Tables} (h : t.WellFormed) {p : Primitive} :
    (t.knowledge h).StaysAcyclic p ↔ t.NoCycle p.id p.toRelata := by
  have hkept : Digraph.Without (TransitiveEdge (Function.update t.live p.id (some p))) p.id =
      Digraph.Without t.TransEdge p.id := by
    funext a b
    apply propext
    rw [← h.transitiveEdge_live]
    simp only [Digraph.Without, TransitiveEdge]
    apply and_congr_right
    intro ha
    rw [Function.update_of_ne ha]
  have hacyclic : Digraph.Acyclic
      (Digraph.Without (TransitiveEdge (Function.update t.live p.id (some p))) p.id) :=
    hkept ▸ h.acyclic.mono fun _ _ hab => hab.2
  have hnew : ∀ b, TransitiveEdge (Function.update t.live p.id (some p)) p.id b ↔
      ∃ rp ∈ p.toRelata, rp.targetId = b ∧ rp.relType ∈ transitiveRelationTypes := by
    intro b
    simp only [TransitiveEdge, Function.update_self, Option.some.injEq, exists_eq_left',
      mem_relata, mem_toRelata]
    constructor
    · intro hr
      obtain ⟨r, ⟨d, hd, hr⟩, htarget⟩ := hr
      exact ⟨_, ⟨d, hd, r, hr, rfl⟩, htarget⟩
    · intro hrp
      obtain ⟨rp, ⟨d, hd, r, hr, rfl⟩, htarget⟩ := hrp
      exact ⟨r, ⟨d, hd, hr⟩, htarget⟩
  refine (Digraph.acyclic_rewire_iff hacyclic).trans ?_
  rw [hkept]
  constructor
  · intro hno rp hrp htype
    exact hno rp.targetId ((hnew _).mpr ⟨rp, hrp, rfl, htype⟩)
  · intro hno b hb
    obtain ⟨rp, hrp, rfl, htype⟩ := (hnew b).mp hb
    exact hno rp hrp htype

theorem admits_knowledge [NameFolding] {t : Tables} (h : t.WellFormed) {p : Primitive} :
    (t.knowledge h).Admits p ↔ Sqlite.Accepts t p := by
  constructor
  · intro hp
    refine ⟨hp.storable, (nameFree_knowledge h).mp hp.name_free,
      (staysAcyclic_knowledge h).mp hp.acyclic, ?_⟩
    intro rp hrp
    obtain ⟨d, hd, r, hr, rfl⟩ := mem_toRelata.mp hrp
    exact (hp.targets r (mem_relata.mpr ⟨d, hd, hr⟩)).imp_right isSome_live.mp
  · intro hp
    refine ⟨hp.storable, (nameFree_knowledge h).mpr hp.name_free,
      (staysAcyclic_knowledge h).mpr hp.no_cycle, ?_⟩
    intro r hr
    obtain ⟨d, hd, hr⟩ := mem_relata.mp hr
    exact (hp.targets _ (mem_toRelata.mpr ⟨d, hd, r, hr, rfl⟩)).imp_right isSome_live.mpr

/-! ## Statements -/

theorem knowledge_replace [NameFolding] {t : Tables} (h : t.WellFormed) {p : Primitive}
    (hp : Sqlite.Accepts t p) : (t.replace p.toRow p.toRelata).knowledge (h.replace hp) =
      (t.knowledge h).write p ((admits_knowledge h).mpr hp) :=
  KnowledgeBase.ext_known (live_replace_settle h.toSchema hp)

theorem knowledge_deletePrimitiveRow [NameFolding] {t : Tables} (h : t.WellFormed) (id : UUID) :
    (t.deletePrimitiveRow id).knowledge (h.deletePrimitiveRow id) = (t.knowledge h).erase id :=
  KnowledgeBase.ext_known (live_deletePrimitiveRow h id)

theorem knowledge_setMetrics [NameFolding] {t : Tables} (h : t.WellFormed) (id : UUID)
    (metrics : PrimitiveMetrics) :
    (t.setMetrics id metrics).knowledge (h.sameKnowledge (sameKnowledge_setMetrics id metrics t)) =
      (t.knowledge h).setMetrics id metrics :=
  KnowledgeBase.ext_known (live_setMetrics t id metrics)

theorem foldl_setMetrics_knowledge [NameFolding] (entries : List (UUID × PrimitiveMetrics))
    {t : Tables} (h : t.WellFormed) :
    ∃ h', entries.foldl (fun kb e => kb.setMetrics e.1 e.2) (t.knowledge h) =
      (entries.foldl (fun t e => t.setMetrics e.1 e.2) t).knowledge h' := by
  induction entries generalizing t with
  | nil => exact ⟨h, rfl⟩
  | cons e rest ih =>
      obtain ⟨h', heq⟩ := ih (h.sameKnowledge (sameKnowledge_setMetrics e.1 e.2 t))
      rw [knowledge_setMetrics h] at heq
      exact ⟨h', heq⟩

/-- The tables hold as many primitives as the map knows. -/
theorem ncard_knowledge [NameFolding] {t : Tables} (h : t.WellFormed) :
    {id | ((t.knowledge h).known id).isSome}.ncard = t.primitives.length := by
  have hset : {id | ((t.knowledge h).known id).isSome} =
      ((t.primitives.map PrimitiveRow.id).toFinset : Set UUID) := by
    ext id
    rw [List.coe_toFinset]
    exact isSome_live.trans stored_iff_mem
  rw [hset, Set.ncard_coe_finset, List.toFinset_card_of_nodup h.nodup_ids, List.length_map]

end Tables

end Vre
