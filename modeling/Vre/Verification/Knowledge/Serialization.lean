import Mathlib.Data.List.Sort
import Vre.Library.Loops
import Vre.Verification.Knowledge.Hydration

/-! # Serialization

What both backends do before they open a transaction: the provenance checks and the two
calls of `json.dumps`. A primitive passes exactly when it is stamped and serializable, and
what is then written reads back as the same primitive.
-/

namespace Vre

/-! ## Properties -/

/-- Every value of the dictionary is one that `json.dumps` writes. -/
def Serializable (properties : Properties) : Prop :=
  ∀ e ∈ properties, ∃ text, e.2 = .json text

/-- The text of one item. An item without a text does not pass `json.dumps`. -/
def itemText (e : String × PyValue) : String × Json :=
  match e.2 with
  | .json text => (e.1, text)
  | .object repr => (e.1, repr)

def jsonText (properties : Properties) : List (String × Json) :=
  properties.map itemText

theorem jsonDumps_eq {properties : Properties} (h : Serializable properties) :
    jsonDumps properties = .ok (jsonText properties) := by
  apply Loops.except_mapM_eq_ok
  intro e he
  obtain ⟨key, value⟩ := e
  obtain ⟨text, rfl⟩ := h _ he
  rfl

theorem serializable_of_jsonDumps {properties : Properties} {texts : List (String × Json)}
    (h : jsonDumps properties = .ok texts) : Serializable properties := by
  intro e he
  obtain ⟨text, -, htext⟩ := Loops.except_mapM_ok h e he
  obtain ⟨key, value⟩ := e
  cases value with
  | json text => exact ⟨text, rfl⟩
  | object repr => cases htext

theorem jsonLoads_jsonText {properties : Properties} (h : Serializable properties) :
    jsonLoads (jsonText properties) = properties := by
  simp only [jsonLoads, jsonText, List.map_map]
  refine (List.map_congr_left fun e he => ?_).trans (List.map_id properties)
  obtain ⟨key, value⟩ := e
  obtain ⟨text, rfl⟩ := h _ he
  rfl

theorem serializable_jsonLoads (object : List (String × Json)) :
    Serializable (jsonLoads object) := by
  intro e he
  obtain ⟨item, -, rfl⟩ := List.mem_map.mp he
  exact ⟨item.2, rfl⟩

theorem jsonText_jsonLoads (object : List (String × Json)) :
    jsonText (jsonLoads object) = object := by
  simp [jsonText, jsonLoads, itemText, Function.comp_def]

/-! ## The records of a primitive -/

def Depth.toEntry (d : Depth) : DepthEntry :=
  ⟨d.level, jsonText d.properties, d.provenance⟩

def Relatum.toRow (r : Relatum) (sourceId : UUID) (level : DepthLevel) : RelatumRow :=
  ⟨sourceId, r.targetId, r.relationType, level, r.targetDepth, jsonText r.metadata, r.provenance⟩

def Primitive.toRow [NameFolding] (p : Primitive) : PrimitiveRow :=
  ⟨p.id, p.name, p.nameLower, p.depths.map Depth.toEntry, p.provenance, p.metrics⟩

def Primitive.toRelata (p : Primitive) : List RelatumRow :=
  p.depths.flatMap fun d => d.relata.map fun r => r.toRow p.id d.level

/-- Every depth and relatum of the primitive, and the primitive, carry provenance. -/
structure Primitive.Stamped (p : Primitive) : Prop where
  primitive : p.provenance.isSome
  depths : ∀ d ∈ p.depths, d.provenance.isSome
  relata : ∀ d ∈ p.depths, ∀ r ∈ d.relata, r.provenance.isSome

/-- A primitive that the serialization helpers accept. -/
structure Primitive.Storable (p : Primitive) : Prop extends p.Stamped where
  properties : ∀ d ∈ p.depths, Serializable d.properties
  metadata : ∀ d ∈ p.depths, ∀ r ∈ d.relata, Serializable r.metadata

/-! ## Provenance checks -/

theorem Relatum.validateProvenance_ok {r : Relatum} {context : String} :
    r.validateProvenance context = .ok () ↔ r.provenance.isSome := by
  cases h : r.provenance <;> simp [Relatum.validateProvenance, h, raise]

theorem Depth.validateProvenance_ok {d : Depth} {context : String} :
    d.validateProvenance context = .ok () ↔
      d.provenance.isSome ∧ ∀ r ∈ d.relata, r.provenance.isSome := by
  cases h : d.provenance with
  | none => simp [Depth.validateProvenance, h, raise]
  | some provenance =>
      simp only [Depth.validateProvenance, h, Loops.except_forM_ok, Relatum.validateProvenance_ok,
        Option.isSome_some, true_and]

theorem Primitive.validateProvenance_ok {p : Primitive} :
    p.validateProvenance = .ok () ↔ p.Stamped := by
  cases h : p.provenance with
  | none =>
      simp only [Primitive.validateProvenance, h, raise]
      exact ⟨fun hok => (nomatch hok), fun hp => by simpa [h] using hp.primitive⟩
  | some provenance =>
      simp only [Primitive.validateProvenance, h, Loops.except_forM_ok,
        Depth.validateProvenance_ok]
      exact ⟨fun hall => ⟨by simp [h], fun d hd => (hall d hd).1, fun d hd => (hall d hd).2⟩,
        fun hp d hd => ⟨hp.depths d hd, hp.relata d hd⟩⟩

theorem Depth.validateProvenance_error {d : Depth} {context : String} {exc : PyException}
    (h : d.validateProvenance context = .error exc) : exc.cls = .provenanceError := by
  cases hprov : d.provenance with
  | none =>
      simp only [Depth.validateProvenance, hprov] at h
      cases h
      rfl
  | some provenance =>
      simp only [Depth.validateProvenance, hprov] at h
      obtain ⟨r, -, hr⟩ := Loops.except_forM_error h
      cases hrel : r.provenance with
      | none =>
          simp only [Relatum.validateProvenance, hrel] at hr
          cases hr
          rfl
      | some relProvenance =>
          simp only [Relatum.validateProvenance, hrel] at hr
          cases hr

theorem Primitive.validateProvenance_error {p : Primitive} {exc : PyException}
    (h : p.validateProvenance = .error exc) : exc.cls = .provenanceError := by
  cases hprov : p.provenance with
  | none =>
      simp only [Primitive.validateProvenance, hprov] at h
      cases h
      rfl
  | some provenance =>
      simp only [Primitive.validateProvenance, hprov] at h
      obtain ⟨d, -, hd⟩ := Loops.except_forM_error h
      exact Depth.validateProvenance_error hd

/-! ## The serialization prefix of a save -/

/-- The part of `save_primitive` that runs before the transaction, in both backends. -/
def Primitive.serialize [NameFolding] (p : Primitive) :
    Except PyException (PrimitiveRow × List RelatumRow) := do
  p.validateProvenance
  let depthsJson ← depthsToJson p.depths
  let relataParams ← relataParams p
  return (⟨p.id, p.name, p.nameLower, depthsJson, p.provenance, p.metrics⟩, relataParams)

/-- A save serializes the primitive first, and goes on with the records. -/
theorem bind_serialize [NameFolding] {σ : Type} (p : Primitive)
    (write : List DepthEntry → List RelatumRow → Action σ Unit) (s : σ) :
    (do Action.lift p.validateProvenance
        let depthsJson ← Action.lift (depthsToJson p.depths)
        let relataParams ← Action.lift (relataParams p)
        write depthsJson relataParams : Action σ Unit) s =
      match p.serialize with
      | .error exc => .error exc s
      | .ok (row, params) => write row.depthsJson params s := by
  unfold Primitive.serialize
  cases hstamp : p.validateProvenance with
  | error exc => exact Loops.bind_of_error (Action.lift_of_error rfl s)
  | ok u =>
      rw [Loops.bind_of_ok (Action.lift_of_ok rfl s), Loops.ok_bind]
      cases hdepths : depthsToJson p.depths with
      | error exc => exact Loops.bind_of_error (Action.lift_of_error rfl s)
      | ok depthsJson =>
          rw [Loops.bind_of_ok (Action.lift_of_ok rfl s), Loops.ok_bind]
          cases hrelata : relataParams p with
          | error exc => exact Loops.bind_of_error (Action.lift_of_error rfl s)
          | ok params => exact Loops.bind_of_ok (Action.lift_of_ok rfl s)

theorem depthsToJson_eq {depths : List Depth} (h : ∀ d ∈ depths, Serializable d.properties) :
    depthsToJson depths = .ok (depths.map Depth.toEntry) := by
  apply Loops.except_mapM_eq_ok
  intro d hd
  simp only [depthEntry, jsonDumps_eq (h d hd)]
  rfl

theorem relataParams_eq {p : Primitive}
    (h : ∀ d ∈ p.depths, ∀ r ∈ d.relata, Serializable r.metadata) :
    relataParams p = .ok p.toRelata := by
  have hdepth : ∀ d ∈ p.depths, d.relata.mapM (relatumParams p d) =
      .ok (d.relata.map fun r => r.toRow p.id d.level) := by
    intro d hd
    apply Loops.except_mapM_eq_ok
    intro r hr
    simp only [relatumParams, jsonDumps_eq (h d hd r hr)]
    rfl
  simp only [relataParams, Loops.except_mapM_eq_ok hdepth]
  exact congrArg Except.ok (List.flatMap_def ..).symm

theorem serialize_eq [NameFolding] {p : Primitive} (h : p.Storable) :
    p.serialize = .ok (p.toRow, p.toRelata) := by
  simp only [Primitive.serialize, Primitive.validateProvenance_ok.mpr h.toStamped,
    depthsToJson_eq h.properties, relataParams_eq h.metadata]
  rfl

theorem storable_of_serialize [NameFolding] {p : Primitive}
    {records : PrimitiveRow × List RelatumRow} (h : p.serialize = .ok records) : p.Storable := by
  obtain ⟨_, hstamped, h⟩ := Loops.except_bind_ok.mp h
  obtain ⟨entries, hentries, h⟩ := Loops.except_bind_ok.mp h
  obtain ⟨params, hparams, -⟩ := Loops.except_bind_ok.mp h
  obtain ⟨rows, hrows, -⟩ := Loops.except_bind_ok.mp hparams
  refine ⟨Primitive.validateProvenance_ok.mp hstamped, fun d hd => ?_, fun d hd r hr => ?_⟩
  · obtain ⟨entry, -, hentry⟩ := Loops.except_mapM_ok hentries d hd
    obtain ⟨texts, htexts, -⟩ := Loops.except_bind_ok.mp hentry
    exact serializable_of_jsonDumps htexts
  · obtain ⟨row, -, hrow⟩ := Loops.except_mapM_ok hrows d hd
    obtain ⟨param, -, hparam⟩ := Loops.except_mapM_ok hrow r hr
    obtain ⟨texts, htexts, -⟩ := Loops.except_bind_ok.mp hparam
    exact serializable_of_jsonDumps htexts

/-! ## Round trip -/

/-- The depths stand in ascending order, one at each level. -/
def Primitive.Normal (p : Primitive) : Prop :=
  p.depths.Pairwise fun a b => a.level < b.level

theorem normal_load (row : PrimitiveRow) (relata : List RelatumRow) : (row.load relata).Normal :=
  pairwise_depths_load row relata

theorem Primitive.Normal.nodup_depths {p : Primitive} (h : p.Normal) : p.depths.Nodup :=
  h.imp fun hlt heq => absurd (congrArg Depth.level heq) hlt.ne

theorem Primitive.Normal.nodup_levels {p : Primitive} (h : p.Normal) :
    (p.depths.map Depth.level).Nodup :=
  (List.pairwise_map.mpr h).imp fun hlt => ne_of_lt hlt

theorem Primitive.Normal.eq_of_level_eq {p : Primitive} (h : p.Normal) {a b : Depth}
    (ha : a ∈ p.depths) (hb : b ∈ p.depths) (hlevel : a.level = b.level) : a = b :=
  List.inj_on_of_nodup_map h.nodup_levels ha hb hlevel

/-- The primitive with its depths in ascending order. -/
def Primitive.sortDepths (p : Primitive) : Primitive :=
  { p with depths := p.depths.insertionSort fun a b => a.level ≤ b.level }

theorem perm_sortDepths {p : Primitive} : p.sortDepths.depths.Perm p.depths :=
  List.perm_insertionSort _ _

/-- Sorting depths at distinct levels puts them in strictly ascending order. -/
theorem pairwise_sortedDepths {depths : List Depth} (h : (depths.map Depth.level).Nodup) :
    (depths.insertionSort fun a b => a.level ≤ b.level).Pairwise fun a b => a.level < b.level := by
  have hmap : (depths.insertionSort fun a b => a.level ≤ b.level).map Depth.level =
      (depths.map Depth.level).insertionSort (· ≤ ·) :=
    List.map_insertionSort _ _ Depth.level depths fun _ _ _ _ => Iff.rfl
  have hsorted := List.pairwise_insertionSort (· ≤ ·) (depths.map Depth.level)
  have hnodup := (List.perm_insertionSort (· ≤ ·) (depths.map Depth.level)).nodup_iff.mpr h
  rw [← hmap] at hsorted hnodup
  apply (List.pairwise_map.mp (hsorted.and hnodup)).imp
  exact fun hboth => lt_of_le_of_ne hboth.1 hboth.2

theorem normal_sortDepths {p : Primitive} (h : (p.depths.map Depth.level).Nodup) :
    p.sortDepths.Normal :=
  pairwise_sortedDepths h

theorem Primitive.Normal.sortDepths_eq {p : Primitive} (h : p.Normal) : p.sortDepths = p := by
  have hdepths := (h.imp fun hlt => hlt.le).insertionSort_eq
  obtain ⟨id, name, depths, provenance, metrics⟩ := p
  exact congrArg (Primitive.mk id name · provenance metrics) hdepths

theorem storable_load {row : PrimitiveRow} {relata : List RelatumRow} (hrow : row.Stamped)
    (hrelata : ∀ rel ∈ relata, rel.provenanceJson.isSome) : (row.load relata).Storable := by
  have hdepth : ∀ d ∈ (row.load relata).depths, ∃ entry ∈ row.depthsJson, ∃ level,
      entry.toDepth (relataAt relata level) = d := by
    intro d hd
    obtain ⟨entry, hlast, heq⟩ := depthAt_eq_some.mp (mem_depths_load.mp hd)
    exact ⟨entry, (lastAt_eq_some hlast).1, d.level, heq⟩
  have hrelatum : ∀ level, ∀ r ∈ relataAt relata level, ∃ rel ∈ relata, rel.toRelatum = r := by
    intro level r hr
    obtain ⟨rel, hrel, rfl⟩ := List.mem_map.mp hr
    exact ⟨rel, (List.mem_filter.mp hrel).1, rfl⟩
  refine ⟨⟨hrow.primitive, ?_, ?_⟩, ?_, ?_⟩
  · intro d hd
    obtain ⟨entry, hentry, level, rfl⟩ := hdepth d hd
    exact hrow.depths entry hentry
  · intro d hd r hr
    obtain ⟨entry, -, level, rfl⟩ := hdepth d hd
    obtain ⟨rel, hrel, rfl⟩ := hrelatum level r hr
    exact hrelata rel hrel
  · intro d hd
    obtain ⟨entry, -, level, rfl⟩ := hdepth d hd
    exact serializable_jsonLoads entry.properties
  · intro d hd r hr
    obtain ⟨entry, -, level, rfl⟩ := hdepth d hd
    obtain ⟨rel, -, rfl⟩ := hrelatum level r hr
    exact serializable_jsonLoads rel.metadataJson

theorem Depth.toDepth_toEntry {d : Depth} (h : Serializable d.properties) (relata : List Relatum) :
    d.toEntry.toDepth relata = { d with relata := relata } := by
  simp [Depth.toEntry, DepthEntry.toDepth, jsonLoads_jsonText h]

theorem Relatum.toRelatum_toRow {r : Relatum} (h : Serializable r.metadata) (sourceId : UUID)
    (level : DepthLevel) : (r.toRow sourceId level).toRelatum = r := by
  simp [Relatum.toRow, RelatumRow.toRelatum, jsonLoads_jsonText h]

/-- The record of the primitive that counts at a level: the last one there. -/
def Primitive.lastDepth (p : Primitive) (level : DepthLevel) : Option Depth :=
  p.depths.reverse.find? fun d => d.level = level

/-- The relata of all records of the primitive at a level. -/
def Primitive.relataOn (p : Primitive) (level : DepthLevel) : List Relatum :=
  (p.depths.filter fun d => d.level = level).flatMap Depth.relata

theorem lastDepth_eq_some {p : Primitive} {level : DepthLevel} {d : Depth}
    (h : p.lastDepth level = some d) : d ∈ p.depths ∧ d.level = level := by
  constructor
  · exact List.mem_reverse.mp (List.mem_of_find?_eq_some h)
  · simpa using List.find?_some h

theorem exists_lastDepth {p : Primitive} {d : Depth} (hd : d ∈ p.depths) :
    ∃ last, p.lastDepth d.level = some last := by
  cases hlast : p.lastDepth d.level with
  | some last => exact ⟨last, rfl⟩
  | none =>
      rw [Primitive.lastDepth, List.find?_eq_none] at hlast
      exact absurd (by simp) (hlast d (List.mem_reverse.mpr hd))

theorem lastDepth_of_mem {p : Primitive} (h : (p.depths.map Depth.level).Nodup) {d : Depth}
    (hd : d ∈ p.depths) : p.lastDepth d.level = some d := by
  obtain ⟨last, hlast⟩ := exists_lastDepth hd
  obtain ⟨hmem, hlevel⟩ := lastDepth_eq_some hlast
  rwa [List.inj_on_of_nodup_map h hmem hd hlevel] at hlast

theorem relataOn_of_mem {p : Primitive} (h : (p.depths.map Depth.level).Nodup) {d : Depth}
    (hd : d ∈ p.depths) : p.relataOn d.level = d.relata := by
  have hmem : ∀ b, b ∈ p.depths.filter (fun b => b.level = d.level) ↔ b ∈ [d] := by
    intro b
    rw [List.mem_filter, decide_eq_true_eq, List.mem_singleton]
    constructor
    · rintro ⟨hb, hlevel⟩
      exact List.inj_on_of_nodup_map h hb hd hlevel
    · rintro rfl
      exact ⟨hd, rfl⟩
  have hnodup := (List.Nodup.of_map _ h).filter fun b => decide (b.level = d.level)
  have honly : p.depths.filter (fun b => b.level = d.level) = [d] :=
    List.perm_singleton.mp
      ((List.perm_ext_iff_of_nodup hnodup (List.nodup_singleton d)).mpr hmem)
  rw [Primitive.relataOn, honly, List.flatMap_singleton]

/-- The relata written at a level are the relata of all records at that level. -/
theorem relataAt_toRelata {p : Primitive} (h : p.Storable) (level : DepthLevel) :
    relataAt p.toRelata level = p.relataOn level := by
  have hblock : ∀ b ∈ p.depths, relataAt (b.relata.map fun r => r.toRow p.id b.level) level =
      if b.level = level then b.relata else [] := by
    intro b hb
    have hback : b.relata.map (RelatumRow.toRelatum ∘ fun r => r.toRow p.id b.level) = b.relata :=
      (List.map_congr_left fun r hr =>
        Relatum.toRelatum_toRow (h.metadata b hb r hr) _ _).trans (List.map_id _)
    by_cases hlevel : b.level = level
    · rw [relataAt, List.filter_eq_self.mpr (by simp [Relatum.toRow, hlevel]), List.map_map, hback,
        if_pos hlevel]
    · rw [relataAt, List.filter_eq_nil_iff.mpr (by simp [Relatum.toRow, hlevel]), if_neg hlevel]
      rfl
  calc relataAt p.toRelata level
      = p.depths.flatMap fun b => relataAt (b.relata.map fun r => r.toRow p.id b.level) level := by
        simp only [relataAt, Primitive.toRelata, List.filter_flatMap, List.map_flatMap]
    _ = p.depths.flatMap fun b => if b.level = level then b.relata else [] :=
        List.flatMap_congr hblock
    _ = p.relataOn level := Loops.flatMap_ite (fun b => b.level = level) Depth.relata p.depths

/-- The last record at a level is read back, with the relata of all records there. -/
theorem depthAt_toRow [NameFolding] {p : Primitive} (h : p.Storable) (level : DepthLevel) :
    p.toRow.depthAt p.toRelata level =
      (p.lastDepth level).map fun d => { d with relata := p.relataOn level } := by
  have hlast : lastAt (p.depths.map Depth.toEntry) level =
      (p.lastDepth level).map Depth.toEntry := by
    rw [lastAt, ← List.map_reverse, List.find?_map]
    rfl
  rw [PrimitiveRow.depthAt, Primitive.toRow, hlast, Option.map_map, relataAt_toRelata h]
  apply Option.map_congr
  intro d hd
  exact Depth.toDepth_toEntry (h.properties d (lastDepth_eq_some hd).1) _

/-- What a save writes reads back as the primitive that was saved, its depths in ascending
order. -/
theorem load_toRow [NameFolding] {p : Primitive} (hlevels : (p.depths.map Depth.level).Nodup)
    (hstorable : p.Storable) : p.toRow.load p.toRelata = p.sortDepths := by
  have hmem : ∀ d, d ∈ (p.toRow.load p.toRelata).depths ↔ d ∈ p.sortDepths.depths := by
    intro d
    rw [perm_sortDepths.mem_iff, mem_depths_load, depthAt_toRow hstorable, Option.map_eq_some_iff]
    constructor
    · rintro ⟨last, hlast, hd⟩
      obtain ⟨hmem, hlevel⟩ := lastDepth_eq_some hlast
      rw [← hlevel, relataOn_of_mem hlevels hmem] at hd
      exact hd ▸ hmem
    · intro hd
      exact ⟨d, lastDepth_of_mem hlevels hd, by rw [relataOn_of_mem hlevels hd]⟩
  have hloaded := normal_load p.toRow p.toRelata
  have hsorted := normal_sortDepths hlevels
  have hperm : (p.toRow.load p.toRelata).depths.Perm p.sortDepths.depths :=
    (List.perm_ext_iff_of_nodup hloaded.nodup_depths hsorted.nodup_depths).mpr hmem
  have hdepths : (p.toRow.load p.toRelata).depths = p.sortDepths.depths :=
    hperm.eq_of_pairwise (fun a b _ _ hab hba => absurd hab hba.not_gt) hloaded hsorted
  simp only [PrimitiveRow.load, Primitive.toRow] at hdepths ⊢
  rw [hdepths]
  rfl

end Vre
