import Vre.Verification.Learning.Preservation

/-! # What is learned is saved

The store accepts every concept and every fill that `learn_gap` has validated: a fill keeps
the name and the relata of its primitive, and a new concept has no relata.
-/

namespace Vre

/-! ## The primitives that are saved -/

/-- The levels a candidate proposes, with their content. -/
def LearningCandidate.proposed : LearningCandidate → List ProposedDepth
  | existence c => c.d1.toList
  | depth c => c.newDepths
  | relational c => c.newDepths
  | reachability _ => []

namespace LearningEngine

theorem FillTarget.proposed {gap : KnowledgeGap} {candidate : LearningCandidate} {id : UUID}
    {required : DepthLevel} {newDepths : List ProposedDepth}
    (h : FillTarget gap candidate id required newDepths) : candidate.proposed = newDepths := by
  cases h <;> rfl

theorem storable_createdPrimitive (draw : Draw) {c : ExistenceCandidate}
    (h : ∀ d ∈ c.d1.toList, Serializable d.properties) :
    (createdPrimitive draw c (makeProvenance draw .learned)).Storable := by
  have hcases : ∀ d ∈ (createdPrimitive draw c (makeProvenance draw .learned)).depths,
      d.provenance.isSome ∧ d.relata = [] ∧ Serializable d.properties := by
    refine List.forall_mem_cons.mpr ⟨⟨rfl, rfl, ?_⟩, List.forall_mem_map.mpr fun d hd => ?_⟩
    · exact List.forall_mem_singleton.mpr ⟨_, rfl⟩
    · exact ⟨rfl, rfl, h d hd⟩
  refine ⟨⟨rfl, fun d hd => (hcases d hd).1, fun d hd r hr => ?_⟩,
    fun d hd => (hcases d hd).2.2, fun d hd r hr => ?_⟩
  · rw [(hcases d hd).2.1] at hr
    cases hr
  · rw [(hcases d hd).2.1] at hr
    cases hr

theorem storable_filledPrimitive (draw : Draw) {p : Primitive} (hp : p.Storable)
    {newDepths : List ProposedDepth} (h : ∀ d ∈ newDepths, Serializable d.properties) :
    (filledPrimitive p newDepths (makeProvenance draw .learned)).Storable := by
  have hcases : ∀ d ∈ (filledPrimitive p newDepths (makeProvenance draw .learned)).depths,
      d ∈ p.depths ∨ d.provenance.isSome ∧ d.relata = [] ∧ Serializable d.properties := by
    intro d hd
    rcases mem_appendedDepths.mp hd with hnew | ⟨hkept, -⟩
    · obtain ⟨proposed, hproposed, rfl⟩ := List.mem_map.mp hnew
      exact Or.inr ⟨rfl, rfl, h proposed hproposed⟩
    · exact Or.inl hkept
  refine ⟨⟨hp.primitive, fun d hd => ?_, fun d hd r hr => ?_⟩, fun d hd => ?_, fun d hd r hr => ?_⟩
  · exact (hcases d hd).elim (hp.depths d) fun hnew => hnew.1
  · rcases hcases d hd with hkept | ⟨-, hbare, -⟩
    · exact hp.relata d hkept r hr
    · rw [hbare] at hr
      cases hr
  · exact (hcases d hd).elim (hp.properties d) fun hnew => hnew.2.2
  · rcases hcases d hd with hkept | ⟨-, hbare, -⟩
    · exact hp.metadata d hkept r hr
    · rw [hbare] at hr
      cases hr

/-- The store accepts every validated candidate but an edge. -/
theorem Learned.accepts [NameFolding] {draw : Draw} {t : Tables} (h : t.WellFormed)
    {gap : KnowledgeGap} {candidate : LearningCandidate} (hkind : gap.kind ≠ .reachability)
    (hcontent : ∀ d ∈ candidate.proposed, Serializable d.properties) {p : Primitive}
    (hp : Learned draw t gap candidate p) : Sqlite.Accepts t p := by
  cases hp with
  | existence _ hd1 hlevel hnonempty habsent =>
      have hcreated := created_createdPrimitive draw hd1 hlevel hnonempty
      exact Sqlite.accepts_of_bare (storable_createdPrimitive draw hcontent)
        (Primitive.toRelata_eq_nil hcreated.bare) habsent
  | fill htarget hold _ hvalid =>
      have hid := Tables.live_id h.toSchema hold
      subst hid
      have hnormal := h.toSchema.normal_live hold
      have hfilled := filled_filledPrimitive draw hvalid
      have hsame := hfilled.perm_toRelata hnormal
        (normal_filledPrimitive hnormal hvalid.distinct _)
      have hstorable := storable_filledPrimitive draw (h.toSchema.storable_live hold)
        (htarget.proposed ▸ hcontent)
      exact Sqlite.accepts_of_stored h hstorable hold rfl hsame
  | edge => exact absurd rfl hkind

/-- What the candidate determines is what the call saves. -/
theorem learnGap_of_learned [NameFolding] {draw : Draw} {t : Tables} (h : t.WellFormed)
    {gap : KnowledgeGap} {candidate : LearningCandidate} (hkind : gap.kind ≠ .reachability)
    (hcontent : ∀ d ∈ candidate.proposed, Serializable d.properties) {p : Primitive}
    (hp : Learned draw t gap candidate p) :
    ∃ p', Learned draw t gap candidate p' ∧ Sqlite.Accepts t p' ∧
      learnGap draw gap candidate (⟨t, none⟩ : SqliteRepository) =
        .ok () ⟨t.replace p'.toRow p'.toRelata, none⟩ := by
  rcases learnGap_cases h.toSchema draw gap candidate with ⟨p', hp', hsave⟩ | ⟨hnone, -⟩
  · have haccepts := hp'.accepts h hkind hcontent
    exact ⟨p', hp', haccepts, hsave.trans (Sqlite.savePrimitive_of_accepts haccepts)⟩
  · exact absurd hp (hnone p)

theorem FillTarget.unique {gap : KnowledgeGap} {candidate : LearningCandidate} {id id' : UUID}
    {required required' : DepthLevel} {newDepths newDepths' : List ProposedDepth}
    (h : FillTarget gap candidate id required newDepths)
    (h' : FillTarget gap candidate id' required' newDepths') :
    id = id' ∧ required = required' ∧ newDepths = newDepths' := by
  cases h <;> cases h' <;> exact ⟨rfl, rfl, rfl⟩

/-- A valid fill of a stored primitive is saved, and the store grows by it. -/
theorem learnGap_fill [NameFolding] (draw : Draw) {t : Tables} (h : t.WellFormed)
    {gap : KnowledgeGap} {candidate : LearningCandidate} {id : UUID} {required : DepthLevel}
    {newDepths : List ProposedDepth} (htarget : FillTarget gap candidate id required newDepths)
    (hcontent : ∀ d ∈ newDepths, Serializable d.properties) {p : Primitive}
    (hlive : t.live id = some p) (hunmet : ¬ Meets p.contiguousMaxDepth required)
    (hvalid : ValidFill newDepths required p.groundingLevels) :
    ∃ t', learnGap draw gap candidate (⟨t, none⟩ : SqliteRepository) = .ok () ⟨t', none⟩ ∧
      t'.WellFormed ∧ t.Extends t' ∧
      Updated t t' (filledPrimitive p newDepths (makeProvenance draw .learned)) := by
  have hkind : gap.kind ≠ .reachability := by
    cases htarget <;> exact nofun
  have hlearned : Learned draw t gap candidate _ := .fill htarget hlive hunmet hvalid
  obtain ⟨saved, hsaved, haccepts, hok⟩ :=
    learnGap_of_learned h hkind (htarget.proposed ▸ hcontent) hlearned
  have heq : saved = filledPrimitive p newDepths (makeProvenance draw .learned) := by
    cases hsaved with
    | existence => cases htarget
    | fill htarget' hlive' =>
        obtain ⟨rfl, -, rfl⟩ := htarget.unique htarget'
        cases hlive.symm.trans hlive'
        rfl
    | edge => exact absurd rfl hkind
  have hupdated : Updated t (t.replace saved.toRow saved.toRelata) saved :=
    Tables.live_replace h.toSchema haccepts (hsaved.normal h.toSchema)
  have hid := Tables.live_id h.toSchema hlive
  exact ⟨_, hok, h.replace haccepts,
    extends_filledPrimitive draw h (hid ▸ hlive) hvalid heq hupdated, heq ▸ hupdated⟩

end LearningEngine

end Vre
