import Mathlib.Data.Nat.Pairing
import Vre.Verification.Learning.Holes
import Vre.Verification.Learning.Templates

/-! # The reference loop ends

Each iteration of the loop persists a concept or a fill, which closes a hole. The loop comes
to its end exactly when the query masks no level that it demands.
-/

namespace Vre

/-! ## The first open gap -/

theorem of_firstOpenGap {gaps : List KnowledgeGap} {gap : KnowledgeGap}
    (h : firstOpenGap gaps = some gap) : gap ∈ gaps ∧ gap.kind ≠ .reachability := by
  unfold firstOpenGap at h
  exact ⟨List.mem_of_find?_eq_some h, by simpa using List.find?_some h⟩

namespace GroundingEngine

theorem Inquiry.kind_of_mem_knowledgeGaps [NameFolding] {q : Inquiry}
    (h : q.subgraph.Coherent q.concepts) {gap : KnowledgeGap} (hgap : gap ∈ q.knowledgeGaps) :
    gap.kind ≠ .reachability := by
  rcases List.mem_append.mp hgap with hgap | hgap
  · rcases List.mem_append.mp hgap with hgap | hgap
    · obtain ⟨n, -, rfl⟩ := List.mem_map.mp hgap
      exact nofun
    · obtain ⟨g, rfl, -⟩ := Inquiry.owesDepth_of_mem h hgap
      exact nofun
  · obtain ⟨g, rfl, -⟩ := Inquiry.owesTarget_of_mem h hgap
    exact nofun

/-- No gap is open exactly when the query owes no knowledge. -/
theorem Inquiry.firstOpenGap_eq_none [NameFolding] {q : Inquiry}
    (h : q.subgraph.Coherent q.concepts) : firstOpenGap q.gaps = none ↔ q.Satisfied := by
  rw [← Inquiry.knowledgeGaps_eq_nil h, firstOpenGap, List.find?_eq_none]
  simp only [decide_eq_true_eq, not_not]
  constructor
  · intro hall
    apply List.eq_nil_iff_forall_not_mem.mpr
    intro gap hgap
    exact Inquiry.kind_of_mem_knowledgeGaps h hgap (hall gap (List.mem_append_left _ hgap))
  · intro hnil gap hgap
    rw [Inquiry.gaps, hnil, List.nil_append] at hgap
    obtain ⟨g, rfl⟩ := Inquiry.reachability_of_mem hgap
    rfl

end GroundingEngine

/-! ## One iteration -/

theorem reground_of_ok {ρ : Type} {learn : Action ρ Unit} {repo repo' : ρ}
    (h : learn repo = .ok () repo') : reground learn repo = .ok () repo' :=
  Loops.tryCatch_of_ok h

theorem reground_of_error {ρ : Type} {learn : Action ρ Unit} {repo repo' : ρ} {exc : PyException}
    (h : learn repo = .error exc repo') : reground learn repo =
      if exc.cls = .gapResolvedError then .ok () repo' else .error exc repo' := by
  apply (Loops.tryCatch_of_error h).trans
  obtain ⟨cls, message⟩ := exc
  cases cls <;> rfl

/-- An iteration that goes on has learned, or found its gap resolved. -/
theorem reground_ok {ρ : Type} {learn : Action ρ Unit} {repo repo' : ρ}
    (h : reground learn repo = .ok () repo') :
    learn repo = .ok () repo' ∨ ∃ exc, learn repo = .error exc repo' := by
  cases hlearn : learn repo with
  | ok u s =>
      cases (reground_of_ok hlearn).symm.trans h
      exact Or.inl rfl
  | error exc s =>
      rw [reground_of_error hlearn] at h
      split at h
      · cases h
        exact Or.inr ⟨exc, rfl⟩
      · cases h

/-- The calls of the iteration draw the id. -/
def Iteration.Draws (iteration : Iteration) (id : UUID) : Prop :=
  ∃ i, iteration.checking.uuid4 i = id ∨ iteration.learning.uuid4 i = id

/-- What an iteration leaves of a store: it has grown, by at most a primitive whose id the
iteration has drawn. -/
structure Iteration.Advances [NameFolding] (iteration : Iteration) (t t' : Tables) : Prop where
  wellFormed : t'.WellFormed
  growth : t.Extends t'
  stored : ∀ id, t'.Stored id → t.Stored id ∨ iteration.Draws id

theorem Iteration.advances_of_sameKnowledge [NameFolding] (iteration : Iteration) {t t' : Tables}
    (h : t.WellFormed) (hsame : t.SameKnowledge t') : iteration.Advances t t' where
  wellFormed := h.sameKnowledge hsame
  growth := hsame.extends h.toSchema
  stored := fun _ hid => Or.inl (hsame.stored.mp hid)

theorem Iteration.advances_of_learned [NameFolding] {iteration : Iteration} {t t' : Tables}
    (h : t.WellFormed) (hsame : t.SameKnowledge t')
    (hfresh : ∀ id, iteration.Draws id → ¬ t.Stored id) {gap : KnowledgeGap}
    (hkind : gap.kind ≠ .reachability) {candidate : LearningCandidate} {p : Primitive}
    (hp : LearningEngine.Learned iteration.learning t' gap candidate p)
    (haccepts : Sqlite.Accepts t' p) :
    iteration.Advances t (t'.replace p.toRow p.toRelata) := by
  have h' := h.sameKnowledge hsame
  have hdrawn : iteration.Draws (iteration.learning.uuid4 0) := ⟨0, Or.inr rfl⟩
  have hnew : ¬ t'.Stored (iteration.learning.uuid4 0) :=
    fun hstored => hfresh _ hdrawn (hsame.stored.mp hstored)
  refine ⟨h'.replace haccepts,
    (hsame.extends h.toSchema).trans (hp.extends h' hkind hnew haccepts), fun id hid => ?_⟩
  have hid : id = p.id ∨ t'.Stored id := Tables.stored_replace.mp hid
  rcases hid with rfl | hid
  · rcases hp.id_cases h'.toSchema hkind with hstored | heq
    · exact Or.inl (hsame.stored.mp hstored)
    · exact Or.inr (heq ▸ hdrawn)
  · exact Or.inl (hsame.stored.mp hid)

namespace VRE

/-- One iteration: the check leaves nothing to fill, or the first open gap is learned. -/
theorem iterate_cases {σ : Type} [NameFolding] (vre : VRE σ) (iteration : Iteration)
    {t : Tables} (h : t.Schema) {concepts : List String} (hne : concepts ≠ [])
    (minDepth : Option DepthLevel) :
    ∃ t', t.SameKnowledge t' ∧
      ((t.inquiry iteration.checking concepts minDepth).Satisfied ∧
        vre.iterate concepts minDepth iteration (⟨t, none⟩ : SqliteRepository) =
          .ok true ⟨t', none⟩ ∨
      ∃ gap ∈ (t.inquiry iteration.checking concepts minDepth).gaps, gap.kind ≠ .reachability ∧
        vre.iterate concepts minDepth iteration (⟨t, none⟩ : SqliteRepository) =
          (do
            reground (LearningEngine.learnGap iteration.learning gap
              ((templateForGap gap).fill (iteration.content gap)))
            return false) ⟨t', none⟩) := by
  let q := t.inquiry iteration.checking concepts minDepth
  have hground : GroundingEngine.ground iteration.checking (⟨t, none⟩ : SqliteRepository) concepts
      minDepth = .ok q.result := GroundingEngine.ground_eq h iteration.checking hne minDepth
  obtain ⟨t', hcheck, hsame⟩ := vre.check_eq iteration.checking hground
  have hgaps : (vre.stampIdentity q.result).gaps = q.gaps := vre.gaps_stampIdentity q.result
  refine ⟨t', hsame, ?_⟩
  unfold iterate
  rw [Loops.bind_of_ok hcheck, hgaps]
  cases hfirst : firstOpenGap q.gaps with
  | none =>
      have hsat := (GroundingEngine.Inquiry.firstOpenGap_eq_none (h.coherent concepts)).mp hfirst
      exact Or.inl ⟨hsat, rfl⟩
  | some gap =>
      obtain ⟨hmem, hkind⟩ := of_firstOpenGap hfirst
      exact Or.inr ⟨gap, hmem, hkind, rfl⟩

/-- What an iteration that returned has done. -/
theorem iterate_ok {σ : Type} [NameFolding] (vre : VRE σ) {iteration : Iteration} {t : Tables}
    (h : t.WellFormed) (hfresh : ∀ id, iteration.Draws id → ¬ t.Stored id) {concepts : List String}
    (hne : concepts ≠ []) {minDepth : Option DepthLevel} {done : Bool} {db : SqliteRepository}
    (hok : vre.iterate concepts minDepth iteration (⟨t, none⟩ : SqliteRepository) = .ok done db) :
    db.savepoint = none ∧ iteration.Advances t db.tables ∧
      (done = true → (t.inquiry iteration.checking concepts minDepth).Satisfied) := by
  obtain ⟨t', hsame, ⟨hsat, hdone⟩ | ⟨gap, -, hkind, hopen⟩⟩ :=
    vre.iterate_cases iteration h.toSchema hne minDepth
  · cases hdone.symm.trans hok
    exact ⟨rfl, iteration.advances_of_sameKnowledge h hsame, fun _ => hsat⟩
  · rw [hopen] at hok
    obtain ⟨u, db₁, hreground, hfalse⟩ := Loops.bind_ok.mp hok
    cases hfalse
    have h' := (h.sameKnowledge hsame).toSchema
    rcases LearningEngine.learnGap_outcome h' iteration.learning gap
        ((templateForGap gap).fill (iteration.content gap)) with
      ⟨exc, herror⟩ | ⟨p, hp, haccepts, hlearn⟩
    · rcases reground_ok hreground with hlearn | ⟨exc', herror'⟩
      · cases herror.symm.trans hlearn
      · cases herror.symm.trans herror'
        exact ⟨rfl, iteration.advances_of_sameKnowledge h hsame, nofun⟩
    · cases (reground_of_ok hlearn).symm.trans hreground
      exact ⟨rfl, iteration.advances_of_learned h hsame hfresh hkind hp haccepts, nofun⟩

/-- When nothing that is demanded is masked, an iteration ends the loop or closes a hole. -/
theorem iterate_progress {σ : Type} [NameFolding] (vre : VRE σ) {iteration : Iteration} {t : Tables}
    (h : t.WellFormed) (hfresh : ∀ id, iteration.Draws id → ¬ t.Stored id) {concepts : List String}
    (hne : concepts ≠ []) {minDepth : Option DepthLevel}
    (hunmasked : t.Unmasked concepts minDepth) :
    (∃ db, vre.iterate concepts minDepth iteration (⟨t, none⟩ : SqliteRepository) = .ok true db) ∨
    ∃ db, vre.iterate concepts minDepth iteration (⟨t, none⟩ : SqliteRepository) =
        .ok false db ∧ (db.tables.holes concepts).card < (t.holes concepts).card := by
  obtain ⟨t', hsame, ⟨-, hdone⟩ | ⟨gap, hgap, hkind, hopen⟩⟩ :=
    vre.iterate_cases iteration h.toSchema hne minDepth
  · exact Or.inl ⟨_, hdone⟩
  · have h' := h.sameKnowledge hsame
    have hchecking : ∀ i, ¬ t.Stored (iteration.checking.uuid4 i) :=
      fun i => hfresh _ ⟨i, Or.inl rfl⟩
    have hlearning : ¬ t'.Stored (iteration.learning.uuid4 0) :=
      fun hid => hfresh _ ⟨0, Or.inr rfl⟩ (hsame.stored.mp hid)
    obtain ⟨p, hp⟩ := LearningEngine.exists_learned h.toSchema hsame hchecking hunmasked hgap hkind
      iteration.learning (iteration.content gap)
    obtain ⟨p, hp, haccepts, hlearn⟩ := LearningEngine.learnGap_of_learned h' hkind
      (LearningCandidate.serializable_fill _ _) hp
    have hasked := GroundingEngine.subject_mem_of_existence h.toSchema hchecking hgap
    refine Or.inr ⟨_, hopen.trans (Loops.bind_of_ok (reground_of_ok hlearn)), ?_⟩
    refine (hp.card_holes_lt h' hkind hasked hlearning haccepts).trans_le (Finset.card_le_card ?_)
    apply (hsame.extends h.toSchema).holes_subset h.toSchema h'.toSchema
    intro id q hq
    exact Or.inl (hsame.stored.mp (Tables.stored_of_live hq))

end VRE

/-! ## The loop -/

/-- The ids that a run of the loop draws: none is stored, and no two iterations share one. -/
structure FreshRounds (rounds : Stream' Iteration) (t : Tables) : Prop where
  unstored : ∀ k id, (rounds.get k).Draws id → ¬ t.Stored id
  distinct : ∀ j k, j < k → ∀ id, (rounds.get j).Draws id → ¬ (rounds.get k).Draws id

theorem FreshRounds.tail [NameFolding] {rounds : Stream' Iteration} {t t' : Tables}
    (h : FreshRounds rounds t) (hadvances : rounds.head.Advances t t') :
    FreshRounds rounds.tail t' where
  unstored := by
    intro k id hdraws hid
    rcases hadvances.stored id hid with hstored | hdrawn
    · exact h.unstored (k + 1) id hdraws hstored
    · exact h.distinct 0 (k + 1) k.succ_pos id hdrawn hdraws
  distinct := fun j k hlt => h.distinct (j + 1) (k + 1) (Nat.succ_lt_succ hlt)

/-- What holds between the iterations of a run from `t`. -/
structure Underway [NameFolding] (t : Tables) (db : SqliteRepository)
    (rounds : Stream' Iteration) : Prop where
  sound : db.Sound
  growth : t.Extends db.tables
  fresh : FreshRounds rounds db.tables

theorem Underway.step [NameFolding] {σ : Type} {vre : VRE σ} {t : Tables}
    {db db' : SqliteRepository} {rounds : Stream' Iteration} (h : Underway t db rounds)
    {concepts : List String} (hne : concepts ≠ []) {minDepth : Option DepthLevel} {done : Bool}
    (hok : vre.iterate concepts minDepth rounds.head db = .ok done db') :
    Underway t db' rounds.tail ∧
      (done = true → (db.tables.inquiry rounds.head.checking concepts minDepth).Satisfied) := by
  rw [h.sound.eq_idle] at hok
  obtain ⟨hidle, hadvances, hsat⟩ := vre.iterate_ok h.sound.2 (h.fresh.unstored 0) hne hok
  exact ⟨⟨⟨hidle, hadvances.wellFormed⟩, h.growth.trans hadvances.growth, h.fresh.tail hadvances⟩,
    hsat⟩

namespace VRE

/-- A loop that has ended had nothing masked. -/
theorem unmasked_of_referenceLoop {σ : Type} [NameFolding] (vre : VRE σ)
    {db db' : SqliteRepository} (h : db.Sound) {concepts : List String} (hne : concepts ≠ [])
    {minDepth : Option DepthLevel} {rounds : Stream' Iteration}
    (hfresh : FreshRounds rounds db.tables) {n : ℕ}
    (hended : vre.referenceLoop concepts minDepth (rounds.take n) db = .ok true db') :
    db.tables.Unmasked concepts minDepth := by
  refine Loops.of_untilDone (Underway db.tables)
    (Q := fun _ => db.tables.Unmasked concepts minDepth) ?_ ?_ ⟨h, .refl _, hfresh⟩ hended
  · intro db₁ rounds₁ db₂ hunderway hdone
    have hschema := hunderway.sound.2.toSchema
    have hsat := (hunderway.step hne hdone).2 rfl
    exact (hunderway.growth.unmasked_iff h.2 hschema).mp
      (Tables.unmasked_of_satisfied hschema hsat)
  · exact fun db₁ rounds₁ db₂ hunderway hopen => (hunderway.step hne hopen).1

/-- With nothing masked, the loop ends. -/
theorem referenceLoop_of_unmasked {σ : Type} [NameFolding] (vre : VRE σ)
    {db : SqliteRepository} (h : db.Sound) {concepts : List String} (hne : concepts ≠ [])
    {minDepth : Option DepthLevel} {rounds : Stream' Iteration}
    (hfresh : FreshRounds rounds db.tables)
    (hunmasked : db.tables.Unmasked concepts minDepth) :
    ∃ n db', vre.referenceLoop concepts minDepth (rounds.take n) db = .ok true db' := by
  refine Loops.exists_untilDone (Underway db.tables)
    (fun db => (db.tables.holes concepts).card) ?_ ⟨h, .refl _, hfresh⟩
  intro db₁ rounds₁ hunderway
  have hstill := (hunderway.growth.unmasked_iff h.2 hunderway.sound.2.toSchema).mpr hunmasked
  have hprogress := vre.iterate_progress hunderway.sound.2 (hunderway.fresh.unstored 0) hne hstill
  rw [← hunderway.sound.eq_idle] at hprogress
  rcases hprogress with hdone | ⟨db₂, hopen, hlower⟩
  · exact Or.inl hdone
  · exact Or.inr ⟨db₂, hopen, (hunderway.step hne hopen).1, hlower⟩

/-- The documented loop raises nothing and comes to its end, with no knowledge owed, exactly
when no level that the query demands is one that it masks. -/
theorem referenceLoop_ends_iff {σ : Type} [NameFolding] (vre : VRE σ)
    {db : SqliteRepository} (h : db.Sound) {concepts : List String} (hne : concepts ≠ [])
    (minDepth : Option DepthLevel) {rounds : Stream' Iteration}
    (hfresh : FreshRounds rounds db.tables) :
    (∃ n db', vre.referenceLoop concepts minDepth (rounds.take n) db = .ok true db') ↔
      db.tables.Unmasked concepts minDepth := by
  constructor
  · rintro ⟨n, db', hended⟩
    exact vre.unmasked_of_referenceLoop h hne hfresh hended
  · exact vre.referenceLoop_of_unmasked h hne hfresh

/-- Rounds that draw ids from 10 on, and put one item into each slot. -/
def countedRounds : Stream' Iteration := fun k =>
  ⟨⟨fun i => 10 + Nat.pair k i, 0⟩, ⟨fun i => 10 + Nat.pair k i, 0⟩,
    fun _ _ => ⟨[("note", "1")], by simp⟩⟩

theorem freshRounds_countedRounds {t : Tables} (h : ∀ row ∈ t.primitives, row.id < 10) :
    FreshRounds countedRounds t where
  unstored := by
    rintro k _ ⟨i, hid⟩ ⟨row, hrow, rfl⟩
    have hlt := h row hrow
    have hdrawn : 10 + Nat.pair k i = row.id := hid.elim id id
    exact hlt.not_ge (hdrawn ▸ Nat.le_add_right 10 _)
  distinct := by
    rintro j k hlt _ ⟨i, hid⟩ ⟨i', hid'⟩
    have hdrawn : 10 + Nat.pair j i = 10 + Nat.pair k i' := by
      exact (hid.elim id id).trans (hid'.elim Eq.symm Eq.symm)
    have hpair := (Nat.pair_eq_pair.mp (Nat.add_left_cancel hdrawn)).1
    exact hlt.ne hpair

/-- Queried with `Log`, `Delete` shows its D1, and the loop fills its D2. -/
theorem referenceLoop_ends_deleteLog : letI := asciiFolding
    ∃ n db', (⟨.new, none⟩ : VRE Unit).referenceLoop ["delete", "log"] (some .capabilities)
      (countedRounds.take n) deleteLog = .ok true db' := by
  let _ := asciiFolding
  have hsound : deleteLog.Sound := Operation.sound_foldl _
  have hfresh : FreshRounds countedRounds deleteLog.tables :=
    freshRounds_countedRounds (by decide)
  have hinside : ∀ rel ∈ deleteLog.tables.relata,
      rel.targetId ∈ Sqlite.reachableIds deleteLog.tables ["delete", "log"] := by decide
  apply (referenceLoop_ends_iff ⟨.new, none⟩ hsound (by simp) _ hfresh).mpr
  rintro id d - level - ⟨-, -, ⟨rel, hrel, hsource, hdepth⟩, hleave⟩
  exact hleave rel hrel hsource hdepth (Tables.mem_reachableIds.mp (hinside rel hrel))

/-- On its own, `Delete` is shown at D0: the template of its gap proposes D1 again, and the
fill is refused. -/
theorem not_referenceLoop_ends_deleteLog : letI := asciiFolding
    (∃ exc db', (⟨.new, none⟩ : VRE Unit).iterate ["delete"] (some .capabilities)
      countedRounds.head deleteLog = .error exc db' ∧ exc.cls = .candidateValidationError) ∧
    ¬ ∃ n db', (⟨.new, none⟩ : VRE Unit).referenceLoop ["delete"] (some .capabilities)
      (countedRounds.take n) deleteLog = .ok true db' := by
  let _ := asciiFolding
  have hrefused : (match (⟨.new, none⟩ : VRE Unit).iterate ["delete"] (some .capabilities)
      countedRounds.head deleteLog with
      | .ok _ _ => none
      | .error exc _ => some exc.cls) = some .candidateValidationError := by
    decide +kernel
  cases hiterate : (⟨.new, none⟩ : VRE Unit).iterate ["delete"] (some .capabilities)
      countedRounds.head deleteLog with
  | ok done db' =>
      rw [hiterate] at hrefused
      cases hrefused
  | error exc db' =>
      rw [hiterate] at hrefused
      refine ⟨⟨exc, db', rfl, Option.some.inj hrefused⟩, ?_⟩
      rintro ⟨n, db'', hended⟩
      cases n with
      | zero => cases hended
      | succ n =>
          cases (Loops.untilDone_cons_of_error hiterate).symm.trans hended

end VRE

end Vre
