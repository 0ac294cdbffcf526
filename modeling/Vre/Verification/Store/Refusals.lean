import Vre.Verification.Store.Live
import Vre.Verification.Store.Runs

/-! # What a save refuses

The outcome that `save_primitive` owes, told from the primitive and the stored graph alone: the
reasons to refuse it in the order in which they count, and what a save that returns has
replaced. A save has this outcome exactly when it is refused before its transaction, or the
name has no surrogate.
-/

namespace Vre

/-- A transitive relatum of the primitive leads to the target, from any depth. -/
def Primitive.TransTarget (p : Primitive) (target : UUID) : Prop :=
  ∃ d ∈ p.depths, ∃ r ∈ d.relata, r.relationType ∈ transitiveRelationTypes ∧ r.targetId = target

namespace Tables

/-! ## The reasons to refuse -/

/-- Another primitive holds the folded name. -/
def NameHeld [NameFolding] (t : Tables) (p : PyPrimitive) : Prop :=
  ∃ row ∈ t.primitives, row.id ≠ p.id ∧ .ofString row.nameLower = p.nameLower

/-- The transitive relata of the store, once those that leave `p` are replaced by its own. -/
def RewiredEdge (t : Tables) (p : Primitive) (a b : UUID) : Prop :=
  if a = p.id then p.TransTarget b else t.TransEdge a b

/-- A relatum of `p` targets neither `p` nor a stored primitive. -/
def Dangles (t : Tables) (p : Primitive) : Prop :=
  ∃ d ∈ p.depths, ∃ r ∈ d.relata, r.targetId ≠ p.id ∧ ¬ t.Stored r.targetId

open Classical in
/-- The class of the error that a save owes to the primitive: the first reason that applies. -/
noncomputable def refusal [NameFolding] (t : Tables) (p : PyPrimitive) : Option ErrorClass :=
  if ¬ p.toPrimitive.Stamped then some .provenanceError
  else if t.NameHeld p then some .persistenceError
  else if ¬ Digraph.Acyclic (t.RewiredEdge p.toPrimitive) then some .cyclicRelationshipError
  else if t.Dangles p.toPrimitive then some .persistenceError
  else none

/-- `t'` is `t` with the record of `p` and the relata that leave `p` replaced. -/
structure Replaced [NameFolding] (t t' : Tables) (p : Primitive) : Prop where
  row : (t'.primitives.filter fun row => row.id = p.id) = [p.toRow]
  other_rows : (t'.primitives.filter fun row => row.id ≠ p.id) =
    t.primitives.filter fun row => row.id ≠ p.id
  outgoing : (t'.relata.filter fun rel => rel.sourceId = p.id) = p.toRelata
  other_relata : (t'.relata.filter fun rel => rel.sourceId ≠ p.id) =
    t.relata.filter fun rel => rel.sourceId ≠ p.id

theorem nameFree_iff [NameFolding] [JsonEncoder] {t : Tables} {p : PyPrimitive}
    (h : p.name.isEncodable = true) : t.NameFree p.written.toRow ↔ ¬ t.NameHeld p := by
  have hsame : ∀ name, PyStr.ofString name = p.nameLower ↔ name = p.written.nameLower := by
    intro name
    rw [← ofString_nameLower_written h, PyStr.ofString_inj]
  simp only [NameFree, NameHeld, hsame, not_exists, not_and]
  apply forall₂_congr
  intro row _
  exact not_imp_not.symm

theorem rewiredEdge_written [JsonEncoder] (t : Tables) (p : PyPrimitive) :
    t.RewiredEdge p.written = t.RewiredEdge p.toPrimitive := by
  funext a b
  have htarget : p.written.TransTarget b = p.toPrimitive.TransTarget b :=
    propext (exists_relatum_written
      (P := fun type target => type ∈ transitiveRelationTypes ∧ target = b))
  rw [RewiredEdge, RewiredEdge, htarget]
  rfl

theorem dangles_written [JsonEncoder] {t : Tables} {p : PyPrimitive} :
    t.Dangles p.written ↔ t.Dangles p.toPrimitive :=
  exists_relatum_written (P := fun _ target => target ≠ p.id ∧ ¬ t.Stored target)

/-- The check of the new targets against the store without the old relata of `p` is a search
of the whole rewired graph for a cycle. -/
theorem acyclic_rewiredEdge_iff {t : Tables} (h : Digraph.Acyclic t.TransEdge) {p : Primitive} :
    Digraph.Acyclic (t.RewiredEdge p) ↔ t.NoCycle p.id p.toRelata := by
  have hkept : Digraph.Without (t.RewiredEdge p) p.id = Digraph.Without t.TransEdge p.id := by
    funext a b
    refine propext (and_congr_right fun hne => ?_)
    rw [RewiredEdge, if_neg hne]
  have hacyclic : Digraph.Acyclic (Digraph.Without (t.RewiredEdge p) p.id) :=
    hkept ▸ h.mono fun _ _ hedge => hedge.2
  rw [Digraph.acyclic_rewire_iff hacyclic, hkept]
  constructor
  · intro hnew rp hrp htype
    obtain ⟨d, hd, r, hr, rfl⟩ := mem_toRelata.mp hrp
    exact hnew _ ((if_pos rfl).mpr ⟨d, hd, r, hr, htype, rfl⟩)
  · intro hnew target hedge
    rw [RewiredEdge, if_pos rfl] at hedge
    obtain ⟨d, hd, r, hr, htype, rfl⟩ := hedge
    exact hnew _ (mem_toRelata.mpr ⟨d, hd, r, hr, rfl⟩) htype

theorem targetsStored_iff {t : Tables} {p : Primitive} :
    t.TargetsStored p.id p.toRelata ↔ ¬ t.Dangles p := by
  constructor
  · rintro hall ⟨d, hd, r, hr, hne, habsent⟩
    exact (hall _ (mem_toRelata.mpr ⟨d, hd, r, hr, rfl⟩)).elim hne habsent
  · intro hnone rp hrp
    obtain ⟨d, hd, r, hr, rfl⟩ := mem_toRelata.mp hrp
    by_contra hdangles
    obtain ⟨hne, habsent⟩ := not_or.mp hdangles
    exact hnone ⟨d, hd, r, hr, hne, habsent⟩

/-! ## What a save replaces -/

theorem filter_replaceRow_self (row : PrimitiveRow) {rows : List PrimitiveRow}
    (hids : (rows.map PrimitiveRow.id).Nodup) :
    ((replaceRow row rows).filter fun r => r.id = row.id) = [row] := by
  have hnodup : (replaceRow row rows).Nodup :=
    List.Nodup.of_map _ (nodup_map_replaceRow PrimitiveRow.id hids hids fun _ _ heq => heq)
  have hmem : ∀ r, r ∈ (replaceRow row rows).filter (fun r => r.id = row.id) ↔ r ∈ [row] := by
    intro r
    rw [List.mem_filter, mem_replaceRow, decide_eq_true_eq, List.mem_singleton]
    constructor
    · rintro ⟨rfl | ⟨-, hne⟩, heq⟩
      · rfl
      · exact absurd heq hne
    · rintro rfl
      exact ⟨Or.inl rfl, rfl⟩
  exact List.perm_singleton.mp
    ((List.perm_ext_iff_of_nodup (hnodup.filter _) (List.nodup_singleton row)).mpr hmem)

theorem filter_replaceRow_other (row : PrimitiveRow) (rows : List PrimitiveRow) :
    ((replaceRow row rows).filter fun r => r.id ≠ row.id) =
      rows.filter fun r => r.id ≠ row.id := by
  unfold replaceRow
  split
  · have hsame : ((fun r : PrimitiveRow => decide (r.id ≠ row.id)) ∘
        fun r => if r.id = row.id then row else r) = fun r => decide (r.id ≠ row.id) := by
      funext r
      by_cases hid : r.id = row.id <;> simp [hid]
    rw [List.filter_map, hsame]
    refine (List.map_congr_left fun r hr => ?_).trans (List.map_id _)
    exact if_neg (of_decide_eq_true (List.mem_filter.mp hr).2)
  · simp

theorem replaced_replace [NameFolding] {t : Tables} (h : t.Schema) (p : Primitive) :
    t.Replaced (t.replace p.toRow p.toRelata) p where
  row := filter_replaceRow_self p.toRow h.nodup_ids
  other_rows := filter_replaceRow_other p.toRow t.primitives
  outgoing := outgoing_replace_self
  other_relata := by
    have hown : (p.toRelata.filter fun rel => rel.sourceId ≠ p.id) = [] := by
      apply List.filter_eq_nil_iff.mpr
      intro rel hrel
      simp [Sqlite.sourceId_of_mem_toRelata hrel]
    rw [replace, List.filter_append, hown, List.append_nil, List.filter_filter]
    apply List.filter_congr
    intro rel _
    by_cases hid : rel.sourceId = p.id <;> simp [Primitive.toRow, hid]

end Tables

/-! ## The outcome of a save -/

theorem serialize_error_of_unstamped [NameFolding] {p : Primitive} (h : ¬ p.Stamped) :
    ∃ message, p.serialize = .error ⟨.provenanceError, message⟩ := by
  cases hcheck : p.validateProvenance with
  | ok u => exact absurd (Primitive.validateProvenance_ok.mp hcheck) h
  | error exc =>
      obtain ⟨cls, message⟩ := exc
      obtain rfl : cls = .provenanceError := Primitive.validateProvenance_error hcheck
      refine ⟨message, ?_⟩
      unfold Primitive.serialize
      rw [hcheck]
      rfl

namespace Sqlite

section

variable [NameFolding] [JsonEncoder]

/-- A save raises the error it owes, and nothing has changed. If it owes none, it replaces the
record and the outgoing relata of the primitive, and nothing else. Its transaction is over. -/
def SaveOutcome (t : Tables) (p : PyPrimitive) : Prop :=
  match t.refusal p with
  | some cls => ∃ message, savePyPrimitive p ⟨t, none⟩ = .error ⟨cls, message⟩ ⟨t, none⟩
  | none => ∃ t', savePyPrimitive p ⟨t, none⟩ = .ok () ⟨t', none⟩ ∧ t.Replaced t' p.written

omit [JsonEncoder] in
theorem refusal_of_unstamped {t : Tables} {p : PyPrimitive} (h : ¬ p.toPrimitive.Stamped) :
    t.refusal p = some .provenanceError :=
  if_pos h

theorem refusal_of_accepts {t : Tables} (h : t.WellFormed) {p : PyPrimitive}
    (hencodable : p.name.isEncodable = true) (hp : Accepts t p.written) : t.refusal p = none := by
  have hstamped := stamped_written.mp hp.storable.toStamped
  have hname := (Tables.nameFree_iff hencodable).mp hp.name_free
  have hcycle := (Tables.acyclic_rewiredEdge_iff h.acyclic).mpr hp.no_cycle
  have htargets := mt Tables.dangles_written.mpr (Tables.targetsStored_iff.mp hp.targets)
  rw [Tables.rewiredEdge_written] at hcycle
  simp [Tables.refusal, hstamped, hname, hcycle, htargets]

/-- A save of JSON values that is refused raises the error it owes. -/
theorem refusal_of_refused {t : Tables} (h : t.WellFormed) {p : PyPrimitive}
    (hencodable : p.name.isEncodable = true) (hjson : p.written.JsonValued) {exc : PyException}
    (hrefused : Refusal t p.written exc) : t.refusal p = some exc.cls := by
  obtain ⟨cls, message⟩ := exc
  cases hrefused with
  | serialize hserialize =>
      have hunstamped : ¬ p.written.Stamped := by
        intro hstamped
        have hstorable : p.written.Storable := ⟨hstamped, hjson.properties, hjson.metadata⟩
        cases (serialize_eq hstorable).symm.trans hserialize
      obtain ⟨message', hmessage⟩ := serialize_error_of_unstamped hunstamped
      cases hmessage.symm.trans hserialize
      exact refusal_of_unstamped (mt stamped_written.mpr hunstamped)
  | name hp htaken hcls =>
      obtain rfl : cls = .persistenceError := hcls
      have hstamped := stamped_written.mp hp.toStamped
      have hheld := not_not.mp (mt (Tables.nameFree_iff hencodable).mpr htaken)
      simp [Tables.refusal, hstamped, hheld]
  | cycle hp hname hcycle hcls =>
      obtain rfl : cls = .cyclicRelationshipError := hcls
      have hstamped := stamped_written.mp hp.toStamped
      have hcyclic := mt (Tables.acyclic_rewiredEdge_iff h.acyclic).mp hcycle
      rw [Tables.rewiredEdge_written] at hcyclic
      simp [Tables.refusal, hstamped, (Tables.nameFree_iff hencodable).mp hname, hcyclic]
  | target hp hname hcycle htargets hcls =>
      obtain rfl : cls = .persistenceError := hcls
      have hstamped := stamped_written.mp hp.toStamped
      have hacyclic := (Tables.acyclic_rewiredEdge_iff h.acyclic).mpr hcycle
      have hdangles := Tables.dangles_written.mp
        (not_not.mp (mt Tables.targetsStored_iff.mpr htargets))
      rw [Tables.rewiredEdge_written] at hacyclic
      simp [Tables.refusal, hstamped, (Tables.nameFree_iff hencodable).mp hname, hacyclic,
        hdangles]

theorem saveOutcome_of_encodable {t : Tables} (h : t.WellFormed) {p : PyPrimitive}
    (hencodable : p.name.isEncodable = true) (hjson : p.written.JsonValued) : SaveOutcome t p := by
  unfold SaveOutcome
  rw [savePyPrimitive_eq hencodable]
  rcases savePrimitive_cases p.written t with ⟨haccepts, hok⟩ | ⟨exc, hrefused, herror⟩
  · rw [refusal_of_accepts h hencodable haccepts]
    exact ⟨_, hok, Tables.replaced_replace h.toSchema p.written⟩
  · rw [refusal_of_refused h hencodable hjson hrefused]
    exact ⟨exc.message, herror⟩

theorem saveOutcome_of_unstamped {t : Tables} {p : PyPrimitive} (h : ¬ p.toPrimitive.Stamped) :
    SaveOutcome t p := by
  unfold SaveOutcome
  rw [refusal_of_unstamped h]
  obtain ⟨message, hmessage⟩ := serialize_error_of_unstamped (mt stamped_written.mp h)
  exact ⟨message, savePrimitiveBinding_of_serialize_error hmessage _ _⟩

/-- A save that leaves a transaction open does not do what it owes. -/
theorem not_saveOutcome_of_open {t : Tables} {p : PyPrimitive} {exc : PyException}
    (h : savePyPrimitive p ⟨t, none⟩ = .error exc ⟨t, some t⟩) : ¬ SaveOutcome t p := by
  unfold SaveOutcome
  rw [h]
  cases t.refusal p with
  | none =>
      rintro ⟨t', hok, -⟩
      cases hok
  | some cls =>
      rintro ⟨message, herror⟩
      cases herror

/-- A save of values that `json.dumps` writes does what it owes exactly when UTF-8 encodes the
name and the folded name, or provenance is missing, so that it is refused before its transaction
begins. -/
theorem savePyPrimitive_outcome_iff {t : Tables} (h : t.WellFormed) {p : PyPrimitive}
    (hjson : p.written.JsonValued) : SaveOutcome t p ↔
      (p.name.isEncodable = true ∧ p.nameLower.isEncodable = true) ∨ ¬ p.toPrimitive.Stamped := by
  constructor
  · intro houtcome
    by_contra hnot
    obtain ⟨hname, hstamped⟩ := not_or.mp hnot
    rw [PyPrimitive.nameLower, PyStr.isEncodable_foldName, and_self,
      Bool.not_eq_true] at hname
    have hp := stamped_written.mpr (not_not.mp hstamped)
    obtain ⟨message, hopen⟩ :=
      savePyPrimitive_of_surrogate hname ⟨hp, hjson.properties, hjson.metadata⟩ t
    exact not_saveOutcome_of_open hopen houtcome
  · intro hcondition
    rcases hcondition with ⟨hname, -⟩ | hunstamped
    · exact saveOutcome_of_encodable h hname hjson
    · exact saveOutcome_of_unstamped hunstamped

end

/-- `Write` requires `File`. -/
def writeOnFile [NameFolding] : SqliteRepository :=
  List.foldl Operation.next .fresh
    [.save (sample 0 "File" [.existence] []),
      .save (sample 1 "Write" [.existence] [⟨.requires, 0, .existence, [], some authored⟩])]

/-- `File` would depend on `Write`. -/
def fileOnWrite : Primitive :=
  sample 0 "file" [.existence] [⟨.dependsOn, 1, .existence, [], some authored⟩]

theorem savePyPrimitive_outcome_cycle : letI := asciiFolding; letI := strictEncoder
    ∃ message, savePyPrimitive fileOnWrite.toPy writeOnFile =
      .error ⟨.cyclicRelationshipError, message⟩ writeOnFile := by
  let _ := asciiFolding
  let _ := strictEncoder
  have hsound : writeOnFile.Sound := Operation.sound_foldl _
  have hdepths : fileOnWrite.toPy.depths = [⟨.existence, [],
      [⟨.dependsOn, 1, .existence, [], some authored⟩], some authored⟩] := rfl
  have hwritten : fileOnWrite.toPy.written.depths = [⟨.existence, [],
      [⟨.dependsOn, 1, .existence, [], some authored⟩], some authored⟩] := rfl
  have hjson : fileOnWrite.toPy.written.JsonValued := by
    constructor <;> simp [hwritten, Serializable]
  have hstamped : fileOnWrite.toPy.toPrimitive.Stamped :=
    ⟨rfl, by simp [PyPrimitive.toPrimitive, hdepths], by simp [PyPrimitive.toPrimitive, hdepths]⟩
  have hname : ¬ writeOnFile.tables.NameHeld fileOnWrite.toPy := by
    unfold Tables.NameHeld
    decide
  have hout : writeOnFile.tables.RewiredEdge fileOnWrite.toPy.toPrimitive 0 1 :=
    (if_pos rfl).mpr ⟨_, List.mem_singleton.mpr rfl, _, List.mem_singleton.mpr rfl, by decide, rfl⟩
  have hback : writeOnFile.tables.RewiredEdge fileOnWrite.toPy.toPrimitive 1 0 :=
    (if_neg (by decide)).mpr ⟨⟨1, 0, .requires, .existence, .existence, [], some authored⟩,
      by decide, rfl, rfl, by decide⟩
  have hcycle : ¬ Digraph.Acyclic (writeOnFile.tables.RewiredEdge fileOnWrite.toPy.toPrimitive) :=
    fun hacyclic => hacyclic 0 ((Relation.TransGen.single hout).tail hback)
  have howed : writeOnFile.tables.refusal fileOnWrite.toPy = some .cyclicRelationshipError := by
    simp [Tables.refusal, hstamped, hname, hcycle]
  have houtcome := (savePyPrimitive_outcome_iff hsound.2 hjson).mpr (Or.inl ⟨by decide, by decide⟩)
  unfold SaveOutcome at houtcome
  rw [howed, ← hsound.eq_idle] at houtcome
  exact houtcome

/-- `Write`, and a surrogate after its name. -/
def brokenWrite : PyPrimitive :=
  { (sample 1 "Write" [.existence] []).toPy with
    name := PyStr.ofString "Write" ++ [.surrogate 0] }

/-- A save of `Write` under a name with a surrogate leaves its transaction open. The deletion of
`File` then returns, the next save is refused, and `File` is back. -/
theorem not_saveOutcome_brokenWrite : letI := asciiFolding; letI := strictEncoder
    let t : Tables := ⟨[(sample 0 "File" [.existence] []).toRow], []⟩
    t.WellFormed ∧ ¬ SaveOutcome t brokenWrite ∧
    (∃ message, savePyPrimitive brokenWrite ⟨t, none⟩ =
      .error ⟨.unicodeEncodeError, message⟩ ⟨t, some t⟩) ∧
    deletePrimitive 0 ⟨t, some t⟩ = .ok true ⟨⟨[], []⟩, some t⟩ ∧
    ∃ message, savePrimitive (sample 2 "Read" [.existence] []) ⟨⟨[], []⟩, some t⟩ =
      .error ⟨.persistenceError, message⟩ ⟨t, none⟩ := by
  let _ := asciiFolding
  let _ := strictEncoder
  intro t
  have hdb : List.foldl Operation.next .fresh [.save (sample 0 "File" [.existence] [])] =
      (⟨t, none⟩ : SqliteRepository) := rfl
  have hsound : (⟨t, none⟩ : SqliteRepository).Sound := hdb ▸ Operation.sound_foldl _
  have hopen : savePyPrimitive brokenWrite ⟨t, none⟩ = .error ⟨.unicodeEncodeError,
      "'utf-8' codec can't encode characters: surrogates not allowed"⟩ ⟨t, some t⟩ := rfl
  exact ⟨hsound.2, not_saveOutcome_of_open hopen, ⟨_, hopen⟩, rfl, _, rfl⟩

end Sqlite

end Vre
