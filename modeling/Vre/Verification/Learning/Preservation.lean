import Vre.Verification.Grounding.Growth
import Vre.Verification.Learning.Additions

/-! # Filling knowledge revokes nothing

Learning a concept or filling a depth makes the store grow. What was grounded before is
grounded after, over the same closure and along the same pathway.
-/

namespace Vre

/-! ## Growth by learning -/

theorem Primitive.toRelata_eq_nil {p : Primitive} (h : ∀ d ∈ p.depths, d.relata = []) :
    p.toRelata = [] := by
  apply List.flatMap_eq_nil_iff.mpr
  intro d hd
  rw [h d hd, List.map_nil]

namespace LearningEngine

/-- The saved primitive is new, or keeps the depths that grounded the one it replaces. -/
theorem Updated.extends {t t' : Tables} {p : Primitive} (hlive : Updated t t' p)
    (hrelata : t'.relata.Perm t.relata) (hkept : ∀ old, t.live p.id = some old →
      p.name = old.name ∧ ∀ d ∈ old.depths, d.grounds = true → d ∈ p.depths) :
    t.Extends t' where
  relata := hrelata
  live := by
    intro id old hold
    by_cases hid : id = p.id
    · subst hid
      exact ⟨p, (hlive p.id).trans (if_pos rfl), hkept old hold⟩
    · exact ⟨old, (hlive id).trans ((if_neg hid).trans hold), rfl, fun d hd _ => hd⟩

/-- Saving a valid fill makes the store grow. -/
theorem extends_filledPrimitive [NameFolding] (draw : Draw) {t : Tables} (h : t.WellFormed)
    {p : Primitive} (hlive : t.live p.id = some p) {required : DepthLevel}
    {newDepths : List ProposedDepth} (hvalid : ValidFill newDepths required p.groundingLevels)
    {saved : Primitive}
    (hsaved : saved = filledPrimitive p newDepths (makeProvenance draw .learned))
    (hupdated : Updated t (t.replace saved.toRow saved.toRelata) saved) :
    t.Extends (t.replace saved.toRow saved.toRelata) := by
  subst hsaved
  have hfilled := filled_filledPrimitive draw hvalid
  have hnormal := h.toSchema.normal_live hlive
  have hsame := hfilled.perm_toRelata hnormal
    (normal_filledPrimitive hnormal hvalid.distinct _)
  have hrelata := Tables.relata_replace_stored (p := filledPrimitive _ _ _) h hlive hsame
  apply hupdated.extends hrelata
  intro old hold
  cases hlive.symm.trans hold
  exact ⟨hfilled.name, hfilled.kept⟩

/-- Whatever is learned but an edge makes the store grow. -/
theorem Learned.extends [NameFolding] {draw : Draw} {t : Tables} (h : t.WellFormed)
    {gap : KnowledgeGap} {candidate : LearningCandidate} (hkind : gap.kind ≠ .reachability)
    (hfresh : ¬ t.Stored (draw.uuid4 0)) {p : Primitive} (hp : Learned draw t gap candidate p)
    (haccepts : Sqlite.Accepts t p) : t.Extends (t.replace p.toRow p.toRelata) := by
  have hlive : Updated t (t.replace p.toRow p.toRelata) p :=
    Tables.live_replace h.toSchema haccepts (hp.normal h.toSchema)
  cases hp with
  | existence hname hd1 hlevel hcontent =>
      have hcreated := created_createdPrimitive draw hd1 hlevel hcontent
      have hrelata := Tables.relata_replace_new h.toSchema hfresh
        (Primitive.toRelata_eq_nil hcreated.bare)
      apply hlive.extends (List.Perm.of_eq hrelata)
      intro old hold
      cases (Tables.live_eq_none.mpr hfresh).symm.trans hold
  | fill htarget hold _ hvalid =>
      have hid := Tables.live_id h.toSchema hold
      subst hid
      exact extends_filledPrimitive draw h hold hvalid rfl hlive
  | edge => exact absurd rfl hkind

end LearningEngine

/-! ## Queries after growth -/

namespace GroundingEngine

open Tables

/-- The trace of a satisfied query shows the closure. -/
theorem mem_trace_of_satisfied [NameFolding] {t : Tables} (h : t.Schema) {draw : Draw}
    {concepts : List String} {minDepth : Option DepthLevel}
    (hsat : (t.inquiry draw concepts minDepth).Satisfied) {id : UUID} :
    id ∈ (t.inquiry draw concepts minDepth).result.getPrimitives.map Primitive.id ↔
      t.InClosure concepts id := by
  have hprimitives : (t.inquiry draw concepts minDepth).result.getPrimitives =
      filterDepths (t.closureNodes concepts) := primitives_of_satisfied h hsat
  rw [hprimitives, map_id_filterDepths, mem_ids_closureNodes h]

/-- A grounded query is grounded in every store that grew from its own. -/
theorem ground_of_extends [NameFolding] {db db' : SqliteRepository} (h : db.tables.Schema)
    (h' : db'.tables.Schema) (hgrowth : db.tables.Extends db'.tables) {draw : Draw}
    {concepts : List String} {minDepth : Option DepthLevel} {result : GroundingResult}
    (hground : ground draw db concepts minDepth = .ok result)
    (hgrounded : result.grounded = true) (draw' : Draw) :
    ∃ result', ground draw' db' concepts minDepth = .ok result' ∧ result'.grounded = true ∧
      (∀ id, id ∈ result'.getPrimitives.map Primitive.id ↔
        id ∈ result.getPrimitives.map Primitive.id) ∧
      result'.getPathwaySteps.Perm result.getPathwaySteps := by
  obtain ⟨hne, rfl, hsat⟩ := satisfied_of_grounded h hground hgrounded
  have hstrict := (gaps_eq_nil_iff h hne).mp (List.isEmpty_iff.mp hgrounded)
  have hgaps : (db'.tables.inquiry draw' concepts minDepth).gaps = [] :=
    (gaps_eq_nil_iff h' hne).mpr (hgrowth.closureStrict h h' hstrict)
  have hgrounded' : (db'.tables.inquiry draw' concepts minDepth).result.grounded = true :=
    List.isEmpty_iff.mpr hgaps
  have hground' := ground_eq h' draw' hne minDepth
  have hsat' := (satisfied_of_grounded h' hground' hgrounded').2.2
  refine ⟨_, hground', hgrounded', fun id => ?_, ?_⟩
  · rw [mem_trace_of_satisfied h' hsat', mem_trace_of_satisfied h hsat]
    constructor
    · intro hinside
      exact (hgrowth.inClosure_iff h h'
        (hgrowth.stored_of_inClosure h h' hstrict.stored hinside)).mp hinside
    · intro hinside
      exact (hgrowth.inClosure_iff h h' (hinside.stored h)).mpr hinside
  · have hpathway := (hgrowth.perm_closureRelata h h' concepts).map RelatumRow.toStep
    change (db'.tables.inquiry draw' concepts minDepth).frontierVisible.Perm
      (db.tables.inquiry draw concepts minDepth).frontierVisible
    rw [frontierVisible_of_satisfied h' hsat', frontierVisible_of_satisfied h hsat]
    exact hpathway

end GroundingEngine

namespace LearningEngine

/-- Filling knowledge never revokes a permission. -/
theorem learnGap_keeps_grounded [NameFolding] {db db' : SqliteRepository} (h : db.Sound)
    {draw : Draw} (hfresh : ¬ db.tables.Stored (draw.uuid4 0)) {gap : KnowledgeGap}
    (hkind : gap.kind ≠ .reachability) {candidate : LearningCandidate}
    (hlearn : learnGap draw gap candidate db = .ok () db') {before : Draw}
    {concepts : List String} {minDepth : Option DepthLevel} {result : GroundingResult}
    (hground : GroundingEngine.ground before db concepts minDepth = .ok result)
    (hgrounded : result.grounded = true) (after : Draw) :
    ∃ result', GroundingEngine.ground after db' concepts minDepth = .ok result' ∧
      result'.grounded = true ∧
      (∀ id, id ∈ result'.getPrimitives.map Primitive.id ↔
        id ∈ result.getPrimitives.map Primitive.id) ∧
      result'.getPathwaySteps.Perm result.getPathwaySteps := by
  have hschema := h.2.toSchema
  rw [h.eq_idle] at hlearn
  rcases learnGap_outcome hschema draw gap candidate with ⟨exc, herror⟩ | ⟨p, hp, haccepts, hok⟩
  · cases herror.symm.trans hlearn
  · cases hok.symm.trans hlearn
    exact GroundingEngine.ground_of_extends hschema (hschema.replace haccepts)
      (hp.extends h.2 hkind hfresh haccepts) hground hgrounded after

/-- `Write` stays grounded when `File`, which it requires, is filled. -/
theorem learnGap_keeps_grounded_write : letI := asciiFolding
    ∃ db' result', learnGap ⟨fun i => i + 9, 0⟩ (.depth fileDepthGap) (.depth fileDepthCandidate)
        GroundingEngine.writeFile = .ok () db' ∧
      GroundingEngine.ground ⟨fun i => i, 0⟩ db' ["write"] none = .ok result' ∧
      result'.grounded = true := by
  let _ := asciiFolding
  have hsound : GroundingEngine.writeFile.Sound := Operation.sound_foldl _
  have hfresh : ¬ GroundingEngine.writeFile.tables.Stored 9 := by
    rw [Tables.stored_iff_mem]
    decide
  have hreturned : (match learnGap ⟨fun i => i + 9, 0⟩ (.depth fileDepthGap)
      (.depth fileDepthCandidate) GroundingEngine.writeFile with
      | .ok _ _ => true
      | .error _ _ => false) = true := by
    decide +kernel
  have hgrounded : (GroundingEngine.ground ⟨fun i => i, 0⟩ GroundingEngine.writeFile ["write"]
      none).map GroundingResult.grounded = .ok true := by
    decide
  have hground := GroundingEngine.ground_eq hsound.2.toSchema ⟨fun i => i, 0⟩
    (List.cons_ne_nil "write" []) none
  cases hlearn : learnGap ⟨fun i => i + 9, 0⟩ (.depth fileDepthGap) (.depth fileDepthCandidate)
      GroundingEngine.writeFile with
  | error exc db' =>
      rw [hlearn] at hreturned
      cases hreturned
  | ok u db' =>
      rw [hground] at hgrounded
      obtain ⟨result', hground', hgrounded', -⟩ := learnGap_keeps_grounded hsound hfresh
        (by decide) hlearn hground (Except.ok.inj hgrounded) ⟨fun i => i, 0⟩
      exact ⟨db', result', rfl, hground', hgrounded'⟩

end LearningEngine

end Vre
