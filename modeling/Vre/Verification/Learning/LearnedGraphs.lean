import Vre.Verification.Learning.Preservation

/-! # Graphs that were learned

A graph that only learning has built owes no depth: every primitive is grounded without a
hole, every relatum is satisfied, and no later fill can change that.
-/

namespace Vre

namespace LearningEngine

/-! ## The invariant -/

/-- The two ends of a relatum are grounded as deeply as it asks. -/
def IsSatisfied (t : Tables) (rel : RelatumRow) : Prop :=
  ∃ source target, t.live rel.sourceId = some source ∧ t.live rel.targetId = some target ∧
    Meets source.contiguousMaxDepth rel.sourceDepth ∧
    Meets target.contiguousMaxDepth rel.targetDepth

/-- Every stored depth carries content, every primitive is grounded without a hole, and every
relatum is satisfied. -/
structure OwesNothing (t : Tables) : Prop where
  content : ∀ id p, t.live id = some p → ∀ d ∈ p.depths, d.properties ≠ []
  unbroken : ∀ id p, t.live id = some p → Unbroken p.groundingLevels
  satisfied : ∀ rel ∈ t.relata, IsSatisfied t rel

/-- Every primitive of `t` is one of `t'`, grounded to no less. -/
def Deepens (t t' : Tables) : Prop :=
  ∀ id p, t.live id = some p → ∃ p', t'.live id = some p' ∧ p.groundingLevels ⊆ p'.groundingLevels

theorem Deepens.refl (t : Tables) : Deepens t t :=
  fun _ p hp => ⟨p, hp, subset_rfl⟩

theorem Deepens.trans {t t' t'' : Tables} (h : Deepens t t') (h' : Deepens t' t'') :
    Deepens t t'' := by
  intro id p hp
  obtain ⟨p', hp', hsub⟩ := h id p hp
  obtain ⟨p'', hp'', hsub'⟩ := h' id p' hp'
  exact ⟨p'', hp'', hsub.trans hsub'⟩

/-- What is satisfied stays satisfied. -/
theorem IsSatisfied.deepens {t t' : Tables} {rel : RelatumRow} (h : IsSatisfied t rel)
    (hdeeper : Deepens t t') : IsSatisfied t' rel := by
  obtain ⟨source, target, hsource, htarget, hs, ht⟩ := h
  obtain ⟨source', hsource', hsub⟩ := hdeeper _ _ hsource
  obtain ⟨target', htarget', hsub'⟩ := hdeeper _ _ htarget
  exact ⟨source', target', hsource', htarget', hs.of_subset hsub, ht.of_subset hsub'⟩

/-! ## The primitives that are saved -/

/-- When every depth carries content, every stored level grounds. -/
theorem mem_groundingLevels_of_content {p : Primitive} (h : ∀ d ∈ p.depths, d.properties ≠ [])
    {level : DepthLevel} : level ∈ p.groundingLevels ↔ level ∈ p.depths.map Depth.level := by
  rw [mem_groundingLevels, List.mem_map]
  refine exists_congr fun d => and_congr_right fun hd => and_iff_right ?_
  exact grounds_iff.mpr (Or.inr (Or.inl (h d hd)))

theorem Created.unbroken {name : String} {p : Primitive} (h : Created name p) :
    Unbroken p.groundingLevels := by
  have hlevels : ∀ l, l ∈ p.groundingLevels ↔ l = .existence ∨ l = .identity := by
    intro l
    rw [mem_groundingLevels_of_content h.content, h.levels]
    simp
  refine ⟨(hlevels _).mpr (Or.inr rfl), fun l hl l' hle => (hlevels l').mpr ?_⟩
  rcases (hlevels l).mp hl with rfl | rfl
  · exact Or.inl (le_antisymm hle (DepthLevel.existence_le l'))
  · revert hle
    cases l' <;> decide

/-- A valid fill leaves no hole below what it adds. -/
theorem unbroken_filled (draw : Draw) {p : Primitive} {required : DepthLevel}
    {newDepths : List ProposedDepth} (h : ValidFill newDepths required p.groundingLevels)
    (hp : Unbroken p.groundingLevels) :
    Unbroken (filledPrimitive p newDepths (makeProvenance draw .learned)).groundingLevels := by
  have hlevels : ∀ l, l ∈ (filledPrimitive p newDepths
      (makeProvenance draw .learned)).groundingLevels ↔
        l ∈ p.groundingLevels ∨ l ∈ newDepths.map ProposedDepth.level := by
    intro l
    rw [(filled_filledPrimitive draw h).mem_groundingLevels_iff, levels_toDepth]
  refine ⟨(hlevels _).mpr (Or.inl hp.identity), fun l hl l' hle => (hlevels l').mpr ?_⟩
  rcases (hlevels l).mp hl with hold | hnew
  · exact Or.inl (hp.below l hold l' hle)
  · obtain ⟨d, hd, rfl⟩ := List.mem_map.mp hnew
    exact h.contiguous d hd l' hle

theorem Linked.levels {level : DepthLevel} {r : Relatum} {p p' : Primitive}
    (h : Linked level r p p') : p'.depths.map Depth.level = p.depths.map Depth.level := by
  rw [h.depths, List.map_map]
  exact List.map_congr_left fun d _ => level_ite_attach d

/-- The relata of a linked primitive are those it had, and the new one. -/
theorem Linked.mem_toRelata {level : DepthLevel} {r : Relatum} {p p' : Primitive}
    (h : Linked level r p p') {rel : RelatumRow} (hrel : rel ∈ p'.toRelata) :
    rel ∈ p.toRelata ∨ rel = r.toRow p.id level := by
  obtain ⟨d', hd', r', hr', rfl⟩ := Tables.mem_toRelata.mp hrel
  obtain ⟨d, hd, hlevel, -, -, hmem⟩ := h.mem_depths hd'
  rw [h.id, hlevel]
  rcases hmem r' hr' with hold | ⟨rfl, rfl⟩
  · exact Or.inl (Tables.mem_toRelata.mpr ⟨d, hd, r', hold, rfl⟩)
  · exact Or.inr rfl

theorem Linked.content {level : DepthLevel} {r : Relatum} {p p' : Primitive}
    (h : Linked level r p p') (hp : ∀ d ∈ p.depths, d.properties ≠ []) :
    ∀ d ∈ p'.depths, d.properties ≠ [] := by
  intro d' hd'
  obtain ⟨d, hd, -, hsame, -, -⟩ := h.mem_depths hd'
  rw [hsame]
  exact hp d hd

theorem Linked.groundingLevels_eq {level : DepthLevel} {r : Relatum} {p p' : Primitive}
    (h : Linked level r p p') (hp : ∀ d ∈ p.depths, d.properties ≠ []) :
    p'.groundingLevels = p.groundingLevels := by
  ext l
  rw [mem_groundingLevels_of_content (h.content hp), h.levels, mem_groundingLevels_of_content hp]

/-! ## One call -/

/-- Every depth of what is saved carries content, and it has no hole. -/
theorem Learned.unbroken [NameFolding] {draw : Draw} {t : Tables} (h : t.Schema)
    (howes : OwesNothing t) {gap : KnowledgeGap} {candidate : LearningCandidate} {p : Primitive}
    (hp : Learned draw t gap candidate p) :
    (∀ d ∈ p.depths, d.properties ≠ []) ∧ Unbroken p.groundingLevels := by
  cases hp with
  | existence _ hd1 hlevel hcontent =>
      have hcreated := created_createdPrimitive draw hd1 hlevel hcontent
      exact ⟨hcreated.content, hcreated.unbroken⟩
  | fill _ hold _ hvalid =>
      have hfilled := filled_filledPrimitive draw hvalid
      refine ⟨fun d hd => ?_, unbroken_filled draw hvalid (howes.unbroken _ _ hold)⟩
      rcases (hfilled.mem_iff d).mp hd with hadded | ⟨hkept, -⟩
      · exact hfilled.content d hadded
      · exact howes.content _ _ hold d hkept
  | edge _ hsource _ hdepth =>
      have hold := (Tables.live_of_named h hsource).1
      have hcontent := howes.content _ _ hold
      have hlinked := linked_linkedPrimitive draw (h.normal_live hold) hdepth
      refine ⟨(hlinked _).1.content hcontent, ?_⟩
      rw [(hlinked _).1.groundingLevels_eq hcontent]
      exact howes.unbroken _ _ hold

theorem deepens_of_extends {t t' : Tables} (h : t.Extends t') : Deepens t t' := by
  intro id p hp
  obtain ⟨p', hp', -, hkept⟩ := h.live id p hp
  exact ⟨p', hp', groundingLevels_subset hkept⟩

/-- No primitive loses a level to a call. -/
theorem Learned.deepens [NameFolding] {draw : Draw} {t : Tables} (h : t.WellFormed)
    (howes : OwesNothing t) {gap : KnowledgeGap} {candidate : LearningCandidate}
    (hfresh : ¬ t.Stored (draw.uuid4 0)) {p : Primitive} (hp : Learned draw t gap candidate p)
    (haccepts : Sqlite.Accepts t p) : Deepens t (t.replace p.toRow p.toRelata) := by
  by_cases hkind : gap.kind = .reachability
  · have hlive := Tables.live_replace h.toSchema haccepts (hp.normal h.toSchema)
    intro id old hold
    by_cases hid : id = p.id
    · refine ⟨p, (hlive id).trans (if_pos hid), ?_⟩
      obtain ⟨edge, source, target, hsource, -, hdepth, -, rfl⟩ := hp.linked_of_reachability hkind
      have hsaved := (Tables.live_of_named h.toSchema hsource).1
      cases (hid ▸ hold : t.live _ = some old).symm.trans hsaved
      have hlinked := linked_linkedPrimitive draw (h.toSchema.normal_live hsaved) hdepth
      exact ((hlinked _).1.groundingLevels_eq (howes.content _ _ hsaved)).ge
    · exact ⟨old, (hlive id).trans ((if_neg hid).trans hold), subset_rfl⟩
  · exact deepens_of_extends (hp.extends h hkind hfresh haccepts)

/-- Every relatum of the store that a call leaves was satisfied before it. -/
theorem Learned.satisfied [NameFolding] {draw : Draw} {t : Tables} (h : t.WellFormed)
    (howes : OwesNothing t) {gap : KnowledgeGap} {candidate : LearningCandidate}
    (hfresh : ¬ t.Stored (draw.uuid4 0)) {p : Primitive} (hp : Learned draw t gap candidate p)
    (haccepts : Sqlite.Accepts t p) {rel : RelatumRow}
    (hrel : rel ∈ (t.replace p.toRow p.toRelata).relata) : IsSatisfied t rel := by
  by_cases hkind : gap.kind = .reachability
  · obtain ⟨edge, source, target, hsource, htarget, hsourceDepth, htargetDepth, rfl⟩ :=
      hp.linked_of_reachability hkind
    have hlive := (Tables.live_of_named h.toSchema hsource).1
    have hlinked := linked_linkedPrimitive draw (h.toSchema.normal_live hlive) hsourceDepth
    rcases Tables.mem_relata_replace.mp hrel with ⟨hold, -⟩ | hnew
    · exact howes.satisfied rel hold
    · rcases (hlinked _).1.mem_toRelata hnew with hold | rfl
      · have hleaves := (Tables.perm_toRelata h hlive).mem_iff.mp hold
        exact howes.satisfied rel (Tables.mem_outgoing.mp hleaves).1
      · exact ⟨_, _, hlive, (Tables.live_of_named h.toSchema htarget).1, hsourceDepth,
          htargetDepth⟩
  · have hsame := (hp.extends h hkind hfresh haccepts).relata
    exact howes.satisfied rel (hsame.mem_iff.mp hrel)

/-- A call that saves keeps the invariant. -/
theorem OwesNothing.replace [NameFolding] {draw : Draw} {t : Tables} (h : t.WellFormed)
    (howes : OwesNothing t) {gap : KnowledgeGap} {candidate : LearningCandidate}
    (hfresh : ¬ t.Stored (draw.uuid4 0)) {p : Primitive} (hp : Learned draw t gap candidate p)
    (haccepts : Sqlite.Accepts t p) : OwesNothing (t.replace p.toRow p.toRelata) := by
  obtain ⟨hcontent, hunbroken⟩ := hp.unbroken h.toSchema howes
  have hlive := Tables.live_replace h.toSchema haccepts (hp.normal h.toSchema)
  have horigin : ∀ id q, (t.replace p.toRow p.toRelata).live id = some q →
      q = p ∨ t.live id = some q := by
    intro id q hq
    rw [hlive id] at hq
    split at hq
    · exact Or.inl (Option.some.inj hq).symm
    · exact Or.inr hq
  refine ⟨fun id q hq => ?_, fun id q hq => ?_, fun rel hrel => ?_⟩
  · rcases horigin id q hq with rfl | hold
    · exact hcontent
    · exact howes.content id q hold
  · rcases horigin id q hq with rfl | hold
    · exact hunbroken
    · exact howes.unbroken id q hold
  · exact (hp.satisfied h howes hfresh haccepts hrel).deepens
      (hp.deepens h howes hfresh haccepts)

/-! ## Queries -/

/-- A query sees every level of a primitive whose depths carry content. -/
theorem OwesNothing.meets_depthAt [NameFolding] {t : Tables} (h : t.Schema) (howes : OwesNothing t)
    {names : List String} {id : UUID} (hinside : t.InClosure names id) {p : Primitive}
    (hp : t.live id = some p) {d : DepthLevel} (hmeets : Meets p.contiguousMaxDepth d) :
    Meets ((t.subgraph names).depthAt id) d := by
  apply (Tables.meets_depthAt h hinside hp).mpr
  intro l hl
  obtain ⟨depth, hdepth, -, hlevel⟩ := mem_groundingLevels.mp
    (meets_contiguousMaxDepth.mp hmeets l hl)
  exact ⟨depth, hdepth, hlevel, Or.inr (Or.inl (howes.content id p hp depth hdepth))⟩

/-- Both ends of an edge of the closure show the depth that the edge asks. -/
theorem OwesNothing.edge_met [NameFolding] {t : Tables} (h : t.Schema) (howes : OwesNothing t)
    {names : List String} {e : EpistemicStep} (he : e ∈ (t.subgraph names).edges) :
    Meets ((t.subgraph names).depthAt e.sourceId) e.sourceDepth ∧
      Meets ((t.subgraph names).depthAt e.targetId) e.targetDepth := by
  obtain ⟨rel, hrel, rfl⟩ := List.mem_map.mp he
  obtain ⟨hmem, hsource, htarget⟩ := Tables.mem_closureRelata.mp hrel
  obtain ⟨source, target, hs, ht, hsourceDepth, htargetDepth⟩ := howes.satisfied rel hmem
  exact ⟨howes.meets_depthAt h hsource hs hsourceDepth,
    howes.meets_depthAt h htarget ht htargetDepth⟩

theorem OwesNothing.gap_kind [NameFolding] {t : Tables} (h : t.Schema) (howes : OwesNothing t)
    {draw : Draw} {concepts : List String} {gap : KnowledgeGap}
    (hgap : gap ∈ (t.inquiry draw concepts none).gaps) :
    gap.kind = .existence ∨ gap.kind = .reachability := by
  have hcoh := h.coherent concepts
  rcases GroundingEngine.Inquiry.gap_cases hcoh hgap with
    ⟨g, rfl, -⟩ | ⟨g, rfl, hdepth⟩ | ⟨g, rfl, hrelational⟩ | ⟨g, rfl⟩
  · exact Or.inl rfl
  · rcases hdepth.demand with ⟨e, he, hid, hrequired⟩ | ⟨hnone, -⟩
    · have hmet := (howes.edge_met h (GroundingEngine.Inquiry.mem_frontierGated.mp he).1).1
      rw [hid, hrequired, hcoh.depthAt_eq hdepth.mem, ← hdepth.current] at hmet
      exact absurd hmet hdepth.unmet
    · cases hnone
  · obtain ⟨e, he, -, hid, hrequired⟩ := hrelational.demand
    have hmet := (howes.edge_met h (GroundingEngine.Inquiry.mem_frontierVisible.mp he).1).2
    rw [hid, hrequired, hcoh.depthAt_eq hrelational.mem, ← hrelational.current] at hmet
    exact absurd hmet hrelational.unmet
  · exact Or.inr rfl

/-- A check without an override finds concepts that are unknown or unconnected, and no more. -/
theorem OwesNothing.check [NameFolding] {σ : Type} (vre : VRE σ) (draw : Draw) {t : Tables}
    (h : t.Schema) (howes : OwesNothing t) (concepts : List String) :
    ∃ result db', vre.check draw concepts none (⟨t, none⟩ : SqliteRepository) = .ok result db' ∧
      ∀ gap ∈ result.gaps, gap.kind = .existence ∨ gap.kind = .reachability := by
  have hdb : (⟨t, none⟩ : SqliteRepository).tables.Schema := h
  by_cases hne : concepts = []
  · subst hne
    obtain ⟨t', hcheck, -⟩ := vre.check_eq draw (GroundingEngine.ground_nil draw ⟨t, none⟩ none)
    refine ⟨_, _, hcheck, fun gap hgap => ?_⟩
    rw [VRE.gaps_stampIdentity] at hgap
    cases hgap
  · obtain ⟨t', hcheck, -⟩ := vre.check_eq draw (GroundingEngine.ground_eq hdb draw hne none)
    refine ⟨_, _, hcheck, fun gap hgap => ?_⟩
    rw [VRE.gaps_stampIdentity] at hgap
    exact howes.gap_kind h hgap

/-! ## Runs -/

/-- A call of `learn_gap`, and what it draws. -/
structure LearnCall where
  draw : Draw
  gap : KnowledgeGap
  candidate : LearningCandidate

/-- The store that a call leaves, whether it returned or raised. -/
def LearnCall.next [NameFolding] (db : SqliteRepository) (call : LearnCall) : SqliteRepository :=
  Action.after (learnGap call.draw call.gap call.candidate db)

theorem LearnCall.sound_next [NameFolding] (call : LearnCall) {db : SqliteRepository}
    (h : db.Sound) : (call.next db).Sound := by
  have hstep : Operation.Step db (.learn call.draw call.gap call.candidate) (call.next db) := rfl
  exact Operation.sound_step h hstep

/-- One call, whose drawn id is new. -/
def LearnStep [NameFolding] (db : SqliteRepository) (call : LearnCall) (db' : SqliteRepository) :
    Prop :=
  ¬ db.tables.Stored (call.draw.uuid4 0) ∧ call.next db = db'

/-- A store that learning has built. -/
def Grown [NameFolding] (db : SqliteRepository) : Prop :=
  db.Sound ∧ OwesNothing db.tables

theorem grown_fresh [NameFolding] : Grown SqliteRepository.fresh :=
  ⟨⟨rfl, Tables.wellFormed_empty⟩, fun _ _ hp => (nomatch hp), fun _ _ hp => (nomatch hp),
    fun _ hrel => (nomatch hrel)⟩

/-- A step stays put, or it saves what it has learned. -/
theorem learnStep_cases [NameFolding] {db db' : SqliteRepository} (h : db.Sound)
    {call : LearnCall} (hstep : LearnStep db call db') : db' = db ∨
      ∃ p, Learned call.draw db.tables call.gap call.candidate p ∧ Sqlite.Accepts db.tables p ∧
        db' = ⟨db.tables.replace p.toRow p.toRelata, none⟩ := by
  obtain ⟨-, rfl⟩ := hstep
  rw [h.eq_idle, LearnCall.next]
  rcases learnGap_outcome h.2.toSchema call.draw call.gap call.candidate with
    ⟨exc, herror⟩ | ⟨p, hp, haccepts, hok⟩
  · rw [herror]
    exact Or.inl rfl
  · rw [hok]
    exact Or.inr ⟨p, hp, haccepts, rfl⟩

/-- A step keeps the invariant and deepens the store. -/
theorem learnStep_grown [NameFolding] {db db' : SqliteRepository} (h : Grown db)
    {call : LearnCall} (hstep : LearnStep db call db') :
    Grown db' ∧ Deepens db.tables db'.tables := by
  obtain ⟨hsound, howes⟩ := h
  rcases learnStep_cases hsound hstep with rfl | ⟨p, hp, haccepts, rfl⟩
  · exact ⟨⟨hsound, howes⟩, .refl _⟩
  · exact ⟨⟨⟨rfl, hsound.2.replace haccepts⟩, howes.replace hsound.2 hstep.1 hp haccepts⟩,
      hp.deepens hsound.2 howes hstep.1 haccepts⟩

theorem grown_run [NameFolding] {calls : List LearnCall} {db db' : SqliteRepository}
    (h : Grown db) (hrun : Runs.Run LearnStep db calls db') :
    Grown db' ∧ Deepens db.tables db'.tables := by
  induction hrun with
  | nil => exact ⟨h, .refl _⟩
  | snoc _ hstep ih =>
      obtain ⟨hgrown, hdeeper⟩ := learnStep_grown ih.1 hstep
      exact ⟨hgrown, ih.2.trans hdeeper⟩

theorem Asks.id_unique {gap : KnowledgeGap} {id id' : UUID} {required required' : DepthLevel}
    (h : Asks gap id required) (h' : Asks gap id' required') : id = id' := by
  cases h <;> cases h' <;> rfl

/-- A fill that returns takes its primitive strictly deeper. -/
theorem fill_deepens [NameFolding] {db db' : SqliteRepository} (h : Grown db) {draw : Draw}
    (hfresh : ¬ db.tables.Stored (draw.uuid4 0)) {gap : KnowledgeGap}
    {candidate : LearningCandidate} (hok : learnGap draw gap candidate db = .ok () db') {id : UUID}
    {required : DepthLevel} (hasks : Asks gap id required) :
    ∃ p p' top top', db.tables.live id = some p ∧ db'.tables.live id = some p' ∧
      p.contiguousMaxDepth = some top ∧ p'.contiguousMaxDepth = some top' ∧ top < top' := by
  obtain ⟨hsound, howes⟩ := h
  rw [hsound.eq_idle] at hok
  rcases learnGap_outcome hsound.2.toSchema draw gap candidate with
    ⟨exc, herror⟩ | ⟨saved, hsaved, haccepts, hreturned⟩
  · cases herror.symm.trans hok
  cases hreturned.symm.trans hok
  have howes' := howes.replace hsound.2 hfresh hsaved haccepts
  cases hsaved.added hsound.2.toSchema hfresh haccepts with
  | existence => cases hasks
  | edge => cases hasks
  | fill hasked hold hfilled hlive =>
      obtain rfl := hasks.id_unique hasked
      have hnew := (hlive _).trans (if_pos hfilled.id.symm)
      obtain ⟨top, htop, -, hlevels⟩ := (howes.unbroken _ _ hold).exists_top
      obtain ⟨top', htop', -, hlevels'⟩ := (howes'.unbroken _ _ hnew).exists_top
      obtain ⟨d, hd⟩ := List.exists_mem_of_ne_nil _ hfilled.nonempty
      have habove : top < d.level :=
        not_le.mp fun hle => hfilled.holes d hd ((hlevels d.level).mpr hle)
      have hbelow : d.level ≤ top' :=
        (hlevels' d.level).mp (hfilled.mem_groundingLevels_iff.mpr
          (Or.inr (List.mem_map_of_mem hd)))
      exact ⟨_, _, top, top', hold, hnew, htop, htop', habove.trans_le hbelow⟩

/-- In every state that learning reaches from an empty store: each primitive is grounded to
exactly D0 up to some level from D1 on, no later call takes depth from it and every fill of it
adds some, each relatum is satisfied, and a check owes no depth. -/
theorem learned_run_owes_nothing [NameFolding] {calls : List LearnCall} {db : SqliteRepository}
    (h : Runs.Run LearnStep .fresh calls db) {σ : Type} (vre : VRE σ) :
    (∀ id p, db.tables.live id = some p → ∃ top, p.contiguousMaxDepth = some top ∧
      .identity ≤ top ∧ ∀ l, l ∈ p.groundingLevels ↔ l ≤ top) ∧
    (∀ later db', Runs.Run LearnStep db later db' → ∀ id p, db.tables.live id = some p →
      ∃ p' top top', db'.tables.live id = some p' ∧ p.contiguousMaxDepth = some top ∧
        p'.contiguousMaxDepth = some top' ∧ top ≤ top') ∧
    (∀ draw gap candidate db', ¬ db.tables.Stored (draw.uuid4 0) →
      learnGap draw gap candidate db = .ok () db' → ∀ id required, Asks gap id required →
        ∃ p p' top top', db.tables.live id = some p ∧ db'.tables.live id = some p' ∧
          p.contiguousMaxDepth = some top ∧ p'.contiguousMaxDepth = some top' ∧ top < top') ∧
    (∀ rel ∈ db.tables.relata, IsSatisfied db.tables rel) ∧
    ∀ draw concepts, ∃ result db', vre.check draw concepts none db = .ok result db' ∧
      ∀ gap ∈ result.gaps, gap.kind = .existence ∨ gap.kind = .reachability := by
  obtain ⟨hgrown, -⟩ := grown_run grown_fresh h
  have hsound := hgrown.1
  have howes := hgrown.2
  refine ⟨fun id p hp => (howes.unbroken id p hp).exists_top, ?_, ?_, howes.satisfied, ?_⟩
  · intro later db' hlater id p hp
    obtain ⟨⟨-, howes'⟩, hdeeper⟩ := grown_run hgrown hlater
    obtain ⟨p', hp', hsub⟩ := hdeeper id p hp
    obtain ⟨top, htop, -⟩ := (howes.unbroken id p hp).exists_top
    obtain ⟨top', htop', -⟩ := (howes'.unbroken id p' hp').exists_top
    exact ⟨p', top, top', hp', htop, htop',
      (howes.unbroken id p hp).le_of_subset (howes'.unbroken id p' hp') hsub htop htop'⟩
  · intro draw gap candidate db' hfresh hok id required hasks
    exact fill_deepens hgrown hfresh hok hasks
  · intro draw concepts
    rw [hsound.eq_idle]
    exact OwesNothing.check vre draw hsound.2.toSchema howes concepts

/-- `File` is learned. -/
def learnFile : LearnCall :=
  ⟨⟨fun i => i, 0⟩, .existence fileGap, .existence fileCandidate⟩

/-- `Write` is learned. -/
def learnWrite : LearnCall :=
  ⟨⟨fun i => i + 1, 0⟩, .existence ⟨⟨7, "Write", [], none, none⟩⟩,
    .existence ⟨"Write", some ⟨.identity, [("kind", .json "1")]⟩⟩⟩

/-- That `Write` requires `File` is learned. -/
def linkWrite : LearnCall :=
  ⟨⟨fun i => i + 2, 0⟩, .reachability ⟨⟨1, "Write", [], none, none⟩⟩,
    .reachability ⟨some "write", some "file", some .requires, some .identity, some .identity⟩⟩

theorem learned_run_owes_nothing_write : let _ := asciiFolding
    ((linkWrite.next (learnWrite.next (learnFile.next .fresh))).tables.relata.length = 1 ∧
      ∀ rel ∈ (linkWrite.next (learnWrite.next (learnFile.next .fresh))).tables.relata,
        IsSatisfied (linkWrite.next (learnWrite.next (learnFile.next .fresh))).tables rel) := by
  intro _
  have hfile : LearnStep .fresh learnFile (learnFile.next .fresh) := by
    refine ⟨?_, rfl⟩
    rw [Tables.stored_iff_mem]
    decide
  have hwrite : LearnStep (learnFile.next .fresh) learnWrite
      (learnWrite.next (learnFile.next .fresh)) := by
    refine ⟨?_, rfl⟩
    rw [Tables.stored_iff_mem]
    decide +kernel
  have hlink : LearnStep (learnWrite.next (learnFile.next .fresh)) linkWrite
      (linkWrite.next (learnWrite.next (learnFile.next .fresh))) := by
    refine ⟨?_, rfl⟩
    rw [Tables.stored_iff_mem]
    decide +kernel
  have hrun := ((Runs.Run.nil.snoc hfile).snoc hwrite).snoc hlink
  refine ⟨by decide +kernel, ?_⟩
  exact (learned_run_owes_nothing hrun (⟨.new, none⟩ : VRE Unit)).2.2.2.1

end LearningEngine

end Vre
