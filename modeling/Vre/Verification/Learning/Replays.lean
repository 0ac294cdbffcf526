import Vre.Verification.Learning.LearnedGraphs
import Vre.Verification.Learning.Placement

/-! # Replays

What `learn_gap` persisted is recognised from the live store when the same gap and candidate
come again, however much was learned in between: the concept is there, the required depth is
met, or the proposed levels are grounded. An edge is not recognised. Each replay of an edge
stores it once more.
-/

namespace Vre

namespace Tables

/-! ## Growth by edges too -/

/-- Every primitive of `t` is one of `t'` under the same name, grounded to no less, and every
relatum of `t` is one of `t'`. -/
structure GrowsTo (t t' : Tables) : Prop where
  live : ∀ id p, t.live id = some p → ∃ p', t'.live id = some p' ∧ p'.name = p.name ∧
    p.groundingLevels ⊆ p'.groundingLevels
  relata : t.relata ⊆ t'.relata

theorem GrowsTo.refl (t : Tables) : t.GrowsTo t :=
  ⟨fun _ p hp => ⟨p, hp, rfl, subset_rfl⟩, List.Subset.refl _⟩

theorem GrowsTo.trans {t t' t'' : Tables} (h : t.GrowsTo t') (h' : t'.GrowsTo t'') :
    t.GrowsTo t'' where
  live := by
    intro id p hp
    obtain ⟨p', hp', hname, hlevels⟩ := h.live id p hp
    obtain ⟨p'', hp'', hname', hlevels'⟩ := h'.live id p' hp'
    exact ⟨p'', hp'', hname'.trans hname, hlevels.trans hlevels'⟩
  relata := List.Subset.trans h.relata h'.relata

theorem Extends.growsTo {t t' : Tables} (h : t.Extends t') : t.GrowsTo t' where
  live := by
    intro id p hp
    obtain ⟨p', hp', hname, hkept⟩ := h.live id p hp
    exact ⟨p', hp', hname, groundingLevels_subset hkept⟩
  relata := h.relata.symm.subset

/-- A name still finds its primitive. -/
theorem GrowsTo.named [NameFolding] {t t' : Tables} (ht : t.Schema) (ht' : t'.Schema)
    (h : t.GrowsTo t') {name : String} {p : Primitive} (hp : t.named name = some p) :
    ∃ p', t'.named name = some p' ∧ p'.id = p.id ∧ p.groundingLevels ⊆ p'.groundingLevels := by
  obtain ⟨hlive, hname⟩ := live_of_named ht hp
  obtain ⟨p', hlive', hsame, hlevels⟩ := h.live p.id p hlive
  exact ⟨p', named_of_live ht' hlive' ((congrArg foldName hsame).trans hname),
    live_id ht' hlive', hlevels⟩

end Tables

namespace LearningEngine

/-- A new relatum takes no level from its source. -/
theorem Linked.groundingLevels_subset {level : DepthLevel} {r : Relatum} {p p' : Primitive}
    (h : Linked level r p p') : p.groundingLevels ⊆ p'.groundingLevels := by
  intro l hl
  obtain ⟨d, hd, hgrounds, rfl⟩ := mem_groundingLevels.mp hl
  refine mem_groundingLevels.mpr ⟨_, h.depths ▸ List.mem_map_of_mem hd, ?_, level_ite_attach d⟩
  by_cases hlevel : d.level = level
  · rw [if_pos hlevel, grounds_iff]
    exact (grounds_iff.mp hgrounds).imp_right (Or.imp_right fun _ => by simp)
  · rwa [if_neg hlevel]

theorem EdgePlaced.growsTo [NameFolding] {draw : Draw} {t t' : Tables} (h : t.Schema)
    {edge : EdgeProposal} {sourceId targetId : UUID}
    (hplaced : EdgePlaced draw t t' edge sourceId targetId) : t.GrowsTo t' where
  live := by
    obtain ⟨p, p', hp, hlinked, hupdated⟩ := hplaced.linked
    intro id old hold
    by_cases hid : id = p'.id
    · have hsource : id = sourceId := hid.trans (hlinked.id.trans (Tables.live_id h hp))
      cases (hsource ▸ hold : t.live sourceId = some old).symm.trans hp
      exact ⟨p', (hupdated id).trans (if_pos hid), hlinked.name, hlinked.groundingLevels_subset⟩
    · exact ⟨old, (hupdated id).trans ((if_neg hid).trans hold), rfl, subset_rfl⟩
  relata := fun _ hrel => hplaced.relata.mem_iff.mpr (List.mem_cons_of_mem _ hrel)

/-- Whatever a call saves, the store grows. -/
theorem Learned.growsTo [NameFolding] {draw : Draw} {t : Tables} (h : t.WellFormed)
    {gap : KnowledgeGap} {candidate : LearningCandidate} (hfresh : ¬ t.Stored (draw.uuid4 0))
    {p : Primitive} (hp : Learned draw t gap candidate p) (haccepts : Sqlite.Accepts t p) :
    t.GrowsTo (t.replace p.toRow p.toRelata) := by
  by_cases hkind : gap.kind = .reachability
  · obtain ⟨edge, source, target, hsource, -, hdepth, -, rfl⟩ := hp.linked_of_reachability hkind
    have hlive := (Tables.live_of_named h.toSchema hsource).1
    exact (edgePlaced_replace draw h hlive hdepth rfl haccepts).growsTo h.toSchema
  · exact (hp.extends h hkind hfresh haccepts).growsTo

/-- What is learned takes no relatum away. -/
theorem Learned.subperm_relata [NameFolding] {draw : Draw} {t : Tables} (h : t.WellFormed)
    {gap : KnowledgeGap} {candidate : LearningCandidate} (hfresh : ¬ t.Stored (draw.uuid4 0))
    {p : Primitive} (hp : Learned draw t gap candidate p) (haccepts : Sqlite.Accepts t p) :
    t.relata.Subperm (t.replace p.toRow p.toRelata).relata := by
  by_cases hkind : gap.kind = .reachability
  · obtain ⟨edge, source, target, hsource, -, hdepth, -, rfl⟩ := hp.linked_of_reachability hkind
    have hlive := (Tables.live_of_named h.toSchema hsource).1
    have hplaced := edgePlaced_replace draw h hlive hdepth rfl haccepts
    exact (List.sublist_cons_self _ _).subperm.trans hplaced.relata.symm.subperm
  · exact (hp.extends h hkind hfresh haccepts).relata.symm.subperm

theorem growsTo_run [NameFolding] {calls : List LearnCall} {db db' : SqliteRepository}
    (h : db.Sound) (hrun : Runs.Run LearnStep db calls db') :
    db'.Sound ∧ db.tables.GrowsTo db'.tables := by
  induction hrun with
  | nil => exact ⟨h, .refl _⟩
  | snoc _ hstep ih =>
      obtain ⟨hsound, hgrows⟩ := ih
      rcases learnStep_cases hsound hstep with rfl | ⟨p, hp, haccepts, rfl⟩
      · exact ⟨hsound, hgrows⟩
      · exact ⟨⟨rfl, hsound.2.replace haccepts⟩,
          hgrows.trans (hp.growsTo hsound.2 hstep.1 haccepts)⟩

/-! ## What a call leaves behind -/

/-- What a call that returned has left in the store: the concept, the levels of the fill, or
the edge between two ends that are grounded as deeply as it asks. -/
inductive Persisted [NameFolding] (t : Tables) : KnowledgeGap → LearningCandidate → Prop where
  | existence {g : ExistenceGap} {c : ExistenceCandidate}
      (hchecked : c.validateForGap (.existence g) = .ok ()) {p : Primitive}
      (hnamed : t.named c.name = some p) : Persisted t (.existence g) (.existence c)
  | fill {gap : KnowledgeGap} {candidate : LearningCandidate} {id : UUID} {required : DepthLevel}
      {newDepths : List ProposedDepth} (htarget : FillTarget gap candidate id required newDepths)
      (hnonempty : newDepths ≠ []) {p : Primitive} (hlive : t.live id = some p)
      (hpresent : ∀ d ∈ newDepths, d.level ∈ p.groundingLevels) : Persisted t gap candidate
  | edge {g : ReachabilityGap} {c : ReachabilityCandidate} {edge : EdgeProposal}
      (hedge : c.validateForGap (.reachability g) = .ok edge) {source target : Primitive}
      (hsource : t.named edge.sourceName = some source)
      (htarget : t.named edge.targetName = some target)
      (hsourceDepth : Meets source.contiguousMaxDepth edge.sourceDepthLevel)
      (htargetDepth : Meets target.contiguousMaxDepth edge.targetDepthLevel)
      (hrel : ∃ rel ∈ t.relata, rel.sourceId = source.id ∧ rel.targetId = target.id ∧
        rel.relType = edge.relationType) : Persisted t (.reachability g) (.reachability c)

/-- It is still there when the store has grown. -/
theorem Persisted.growsTo [NameFolding] {t t' : Tables} (ht : t.Schema) (ht' : t'.Schema)
    (hgrows : t.GrowsTo t') {gap : KnowledgeGap} {candidate : LearningCandidate}
    (h : Persisted t gap candidate) : Persisted t' gap candidate := by
  cases h with
  | existence hchecked hnamed =>
      obtain ⟨p', hnamed', -⟩ := hgrows.named ht ht' hnamed
      exact .existence hchecked hnamed'
  | fill htarget hnonempty hlive hpresent =>
      obtain ⟨p', hlive', -, hlevels⟩ := hgrows.live _ _ hlive
      exact .fill htarget hnonempty hlive' fun d hd => hlevels (hpresent d hd)
  | edge hedge hsource htarget hsourceDepth htargetDepth hrel =>
      obtain ⟨source', hsource', hsourceId, hsourceLevels⟩ := hgrows.named ht ht' hsource
      obtain ⟨target', htarget', htargetId, htargetLevels⟩ := hgrows.named ht ht' htarget
      obtain ⟨rel, hmem, hends⟩ := hrel
      refine .edge hedge hsource' htarget' (hsourceDepth.of_subset hsourceLevels)
        (htargetDepth.of_subset htargetLevels) ⟨rel, hgrows.relata hmem, ?_⟩
      rwa [hsourceId, htargetId]

/-- A call that returned has saved what it learned. -/
theorem learned_of_ok [NameFolding] {t : Tables} (h : t.WellFormed) {draw : Draw}
    {gap : KnowledgeGap} {candidate : LearningCandidate} {db' : SqliteRepository}
    (hok : learnGap draw gap candidate ⟨t, none⟩ = .ok () db') :
    ∃ p, Learned draw t gap candidate p ∧ Sqlite.Accepts t p ∧
      db' = ⟨t.replace p.toRow p.toRelata, none⟩ := by
  rcases learnGap_outcome h.toSchema draw gap candidate with
    ⟨exc, herror⟩ | ⟨p, hp, haccepts, hreturned⟩
  · cases herror.symm.trans hok
  · cases hreturned.symm.trans hok
    exact ⟨p, hp, haccepts, rfl⟩

theorem Learned.persisted [NameFolding] {draw : Draw} {t : Tables} (h : t.WellFormed)
    {gap : KnowledgeGap} {candidate : LearningCandidate} {p : Primitive}
    (hp : Learned draw t gap candidate p) (haccepts : Sqlite.Accepts t p) :
    Persisted (t.replace p.toRow p.toRelata) gap candidate := by
  have hschema := (h.replace haccepts).toSchema
  have hlive : (t.replace p.toRow p.toRelata).live p.id = some p :=
    (Tables.live_replace h.toSchema haccepts (hp.normal h.toSchema) p.id).trans (if_pos rfl)
  cases hp with
  | existence hname hd1 hlevel =>
      exact .existence (existenceCandidate_validateForGap_ok.mpr ⟨hname, _, hd1, hlevel⟩)
        (Tables.named_of_live hschema hlive rfl)
  | fill htarget hold _ hvalid =>
      have hid := Tables.live_id h.toSchema hold
      subst hid
      refine .fill htarget hvalid.nonempty hlive fun d hd => ?_
      rw [(filled_filledPrimitive draw hvalid).mem_groundingLevels_iff, levels_toDepth]
      exact Or.inr (List.mem_map_of_mem hd)
  | edge hedge hsource htarget hsourceDepth htargetDepth =>
      have hold := (Tables.live_of_named h.toSchema hsource).1
      have hplaced := edgePlaced_replace draw h hold hsourceDepth rfl haccepts
      have hgrows := hplaced.growsTo h.toSchema
      obtain ⟨source', hsource', hsourceId, hsourceLevels⟩ :=
        hgrows.named h.toSchema hschema hsource
      obtain ⟨target', htarget', htargetId, htargetLevels⟩ :=
        hgrows.named h.toSchema hschema htarget
      exact .edge hedge hsource' htarget' (hsourceDepth.of_subset hsourceLevels)
        (htargetDepth.of_subset htargetLevels)
        ⟨_, hplaced.relata.mem_iff.mpr List.mem_cons_self, hsourceId.symm, htargetId.symm, rfl⟩

/-! ## The same call again -/

/-- The call raises `GapResolvedError` or `CandidateValidationError`, and the store is as
before. -/
def Refused [NameFolding] (draw : Draw) (gap : KnowledgeGap) (candidate : LearningCandidate)
    (db : SqliteRepository) : Prop :=
  ∃ exc, learnGap draw gap candidate db = .error exc db ∧
    (exc.cls = .gapResolvedError ∨ exc.cls = .candidateValidationError)

/-- A fill whose levels are grounded is refused: the gap is resolved, or it fills no hole. -/
theorem persistDepthFill_refused [NameFolding] {t : Tables} (h : t.Schema) {id : UUID}
    {p : Primitive} (hlive : t.live id = some p) {newDepths : List ProposedDepth}
    (hnonempty : newDepths ≠ []) (hpresent : ∀ d ∈ newDepths, d.level ∈ p.groundingLevels)
    (snapshotName : String) (required : DepthLevel) (provenance : Provenance) (label : String) :
    ∃ exc, persistDepthFill id snapshotName required newDepths provenance label
        (⟨t, none⟩ : SqliteRepository) = .error exc ⟨t, none⟩ ∧
      (exc.cls = .gapResolvedError ∨ exc.cls = .candidateValidationError) := by
  unfold persistDepthFill
  rw [Loops.bind_of_ok (read_findById h id), hlive]
  dsimp only
  by_cases hmet : Meets p.contiguousMaxDepth required
  · obtain ⟨exc, hresolved, hcls⟩ := raiseIfResolved_of_meets p.name hmet
    exact ⟨exc, Loops.bind_of_error (Action.lift_of_error hresolved _), Or.inl hcls⟩
  · rw [Loops.bind_of_ok (Action.lift_of_ok (raiseIfResolved_ok.mpr hmet) _)]
    cases hvalid : validateDepthFill newDepths p.contiguousMaxDepth required p.groundingLevels
        s!"{label} for '{p.name}'" with
    | ok u =>
        obtain ⟨d, hd⟩ := List.exists_mem_of_ne_nil newDepths hnonempty
        exact absurd (hpresent d hd) ((validateDepthFill_ok.mp hvalid).holes d hd)
    | error exc =>
        exact ⟨exc, Loops.bind_of_error (Action.lift_of_error rfl _),
          Or.inr (validateDepthFill_error hvalid)⟩

/-- Whatever was persisted but an edge is refused when it comes again. -/
theorem Persisted.refused [NameFolding] {t : Tables} (h : t.Schema) {gap : KnowledgeGap}
    {candidate : LearningCandidate} (hp : Persisted t gap candidate)
    (hkind : gap.kind ≠ .reachability) (draw : Draw) :
    Refused draw gap candidate ⟨t, none⟩ := by
  cases hp with
  | @existence g c hchecked p hnamed =>
      change ∃ exc, (do
        Action.lift (c.validateForGap (.existence g))
        persistExistence draw c (makeProvenance draw .learned) : Action SqliteRepository Unit)
          ⟨t, none⟩ = .error exc ⟨t, none⟩ ∧ _
      rw [Loops.bind_of_ok (Action.lift_of_ok hchecked _), persistExistence,
        Loops.bind_of_ok (read_findByName h c.name), hnamed]
      exact ⟨_, rfl, Or.inl rfl⟩
  | @fill _ _ id required newDepths htarget hnonempty p hlive hpresent =>
      have hrefused := persistDepthFill_refused h hlive hnonempty hpresent
      have hcheck : ∀ label, validateNewDepths label newDepths gap = .ok () :=
        fun label => if_neg fun hempty => hnonempty (List.isEmpty_iff.mp hempty)
      have hpath : ∀ snapshotName label, ∃ exc, (do
          Action.lift (validateNewDepths label newDepths gap)
          persistDepthFill id snapshotName required newDepths (makeProvenance draw .learned) label :
            Action SqliteRepository Unit) ⟨t, none⟩ = .error exc ⟨t, none⟩ ∧
          (exc.cls = .gapResolvedError ∨ exc.cls = .candidateValidationError) := by
        intro snapshotName label
        rw [Loops.bind_of_ok (Action.lift_of_ok (hcheck label) _)]
        exact hrefused snapshotName required _ label
      cases htarget with
      | depth g c => exact hpath g.primitive.name "DepthCandidate"
      | relational g c => exact hpath g.target.name "RelationalCandidate"
  | edge => exact absurd rfl hkind

/-- An edge that was placed is placed again: it closes no cycle, or it would have closed one
before. -/
theorem Persisted.repeated [NameFolding] {t : Tables} (h : t.WellFormed) {gap : KnowledgeGap}
    {candidate : LearningCandidate} (hp : Persisted t gap candidate)
    (hkind : gap.kind = .reachability) (draw : Draw) :
    ∃ t', learnGap draw gap candidate (⟨t, none⟩ : SqliteRepository) = .ok () ⟨t', none⟩ ∧
      t'.WellFormed ∧ t.GrowsTo t' ∧ t'.relata.length = t.relata.length + 1 := by
  cases hp with
  | existence => cases hkind
  | fill htarget => cases htarget <;> cases hkind
  | edge hedge hsource htarget hsourceDepth htargetDepth hrel =>
      rcases learnGap_places draw h hedge hsource htarget hsourceDepth htargetDepth with
        ⟨-, db', hok, hplaced⟩ | ⟨⟨htype, hreach⟩, -⟩
      · obtain ⟨p, -, haccepts, rfl⟩ := learned_of_ok h hok
        exact ⟨_, hok, h.replace haccepts, hplaced.growsTo h.toSchema,
          hplaced.relata.length_eq.trans List.length_cons⟩
      · obtain ⟨rel, hmem, hfrom, hto, hsame⟩ := hrel
        have hedge : t.TransEdge _ _ := ⟨rel, hmem, hfrom, hto, hsame ▸ htype⟩
        exact absurd (Relation.TransGen.head' hedge hreach) (h.acyclic _)

theorem Persisted.refused_iff [NameFolding] {t : Tables} (h : t.WellFormed) {gap : KnowledgeGap}
    {candidate : LearningCandidate} (hp : Persisted t gap candidate) (draw : Draw) :
    Refused draw gap candidate ⟨t, none⟩ ↔ gap.kind ≠ .reachability := by
  constructor
  · rintro ⟨exc, herror, -⟩ hkind
    obtain ⟨t', hok, -⟩ := hp.repeated h hkind draw
    cases hok.symm.trans herror
  · exact fun hkind => hp.refused h.toSchema hkind draw

/-! ## Sequences of replays -/

theorem next_of_refused [NameFolding] {call : LearnCall} {db : SqliteRepository}
    (h : Refused call.draw call.gap call.candidate db) : call.next db = db := by
  obtain ⟨exc, herror, -⟩ := h
  rw [LearnCall.next, herror]
  rfl

/-- Replays store one relatum for each edge among them, and no more. -/
theorem length_relata_replays [NameFolding] {replays : List LearnCall} {t : Tables}
    (h : t.WellFormed) (hp : ∀ call ∈ replays, Persisted t call.gap call.candidate) :
    (List.foldl LearnCall.next ⟨t, none⟩ replays).tables.relata.length =
      t.relata.length + replays.countP fun call => call.gap.kind = .reachability := by
  induction replays generalizing t with
  | nil => rfl
  | cons call rest ih =>
      obtain ⟨hcall, hrest⟩ := List.forall_mem_cons.mp hp
      rw [List.foldl_cons]
      by_cases hkind : call.gap.kind = .reachability
      · obtain ⟨t', hok, hwell, hgrows, hlength⟩ := hcall.repeated h hkind call.draw
        have hnext : call.next ⟨t, none⟩ = ⟨t', none⟩ := by
          rw [LearnCall.next, hok]
          rfl
        have hkeep := fun other hother =>
          (hrest other hother).growsTo h.toSchema hwell.toSchema hgrows
        rw [hnext, ih hwell hkeep, hlength, List.countP_cons, if_pos (decide_eq_true hkind)]
        omega
      · rw [next_of_refused (hcall.refused h.toSchema hkind call.draw), ih h hrest,
          List.countP_cons, if_neg (by simpa using hkind), Nat.add_zero]

/-- Replays leave the store as it was exactly when none of them is about an edge. -/
theorem foldl_replays_iff [NameFolding] {replays : List LearnCall} {t : Tables}
    (h : t.WellFormed) (hp : ∀ call ∈ replays, Persisted t call.gap call.candidate) :
    List.foldl LearnCall.next ⟨t, none⟩ replays = ⟨t, none⟩ ↔
      ∀ call ∈ replays, call.gap.kind ≠ .reachability := by
  constructor
  · intro hsame
    have hlength := length_relata_replays h hp
    rw [hsame] at hlength
    dsimp only at hlength
    have hnone : replays.countP (fun call => call.gap.kind = .reachability) = 0 := by omega
    simpa using List.countP_eq_zero.mp hnone
  · intro hkinds
    induction replays with
    | nil => rfl
    | cons call rest ih =>
        obtain ⟨hcall, hrest⟩ := List.forall_mem_cons.mp hp
        obtain ⟨hkind, hkinds⟩ := List.forall_mem_cons.mp hkinds
        rw [List.foldl_cons, next_of_refused (hcall.refused h.toSchema hkind call.draw)]
        exact ih hrest hkinds

/-- Somewhere in the run from `db` to `db'` a call with this gap and candidate returned. -/
def AcceptedIn [NameFolding] (db db' : SqliteRepository) (calls : List LearnCall)
    (gap : KnowledgeGap) (candidate : LearningCandidate) : Prop :=
  ∃ before draw later mid mid', calls = before ++ ⟨draw, gap, candidate⟩ :: later ∧
    Runs.Run LearnStep db before mid ∧ learnGap draw gap candidate mid = .ok () mid' ∧
    Runs.Run LearnStep mid' later db'

theorem AcceptedIn.persisted [NameFolding] {db db' : SqliteRepository} (h : db.Sound)
    {calls : List LearnCall} {gap : KnowledgeGap} {candidate : LearningCandidate}
    (hin : AcceptedIn db db' calls gap candidate) :
    Persisted db'.tables gap candidate := by
  obtain ⟨before, draw, later, mid, mid', -, hbefore, hok, hlater⟩ := hin
  have hmid := (growsTo_run h hbefore).1
  rw [hmid.eq_idle] at hok
  obtain ⟨p, hp, haccepts, rfl⟩ := learned_of_ok hmid.2 hok
  have hsaved := hmid.2.replace haccepts
  obtain ⟨hsound, hgrows⟩ := growsTo_run ⟨rfl, hsaved⟩ hlater
  exact (hp.persisted hmid.2 haccepts).growsTo hsaved.toSchema hsound.2.toSchema hgrows

/-- A gap that learning has closed is refused from then on, unless it is about an edge: at
once, and after whatever else was learned. A sequence of such replays leaves the store as it
was exactly when none of them is about an edge. -/
theorem replays_refused_iff [NameFolding] {db : SqliteRepository} (h : db.Sound) :
    (∀ draw gap candidate db', learnGap draw gap candidate db = .ok () db' →
      ∀ draw', Refused draw' gap candidate db' ↔ gap.kind ≠ .reachability) ∧
    ∀ calls db', Runs.Run LearnStep db calls db' → ∀ replays : List LearnCall,
      (∀ call ∈ replays, AcceptedIn db db' calls call.gap call.candidate) →
      (∀ call ∈ replays, Refused call.draw call.gap call.candidate db' ↔
        call.gap.kind ≠ .reachability) ∧
      (List.foldl LearnCall.next db' replays = db' ↔
        ∀ call ∈ replays, call.gap.kind ≠ .reachability) := by
  constructor
  · intro draw gap candidate db' hok draw'
    rw [h.eq_idle] at hok
    obtain ⟨p, hp, haccepts, rfl⟩ := learned_of_ok h.2 hok
    exact (hp.persisted h.2 haccepts).refused_iff (h.2.replace haccepts) draw'
  · intro calls db' hrun replays haccepted
    have hsound := (growsTo_run h hrun).1
    have hpersisted := fun call hcall => (haccepted call hcall).persisted h
    rw [hsound.eq_idle]
    exact ⟨fun call hcall => (hpersisted call hcall).refused_iff hsound.2 call.draw,
      foldl_replays_iff hsound.2 hpersisted⟩

/-- A call that changed the store has returned. -/
theorem learnGap_of_changed [NameFolding] {db : SqliteRepository} (h : db.Sound)
    (call : LearnCall) (hchanged : call.next db ≠ db) :
    learnGap call.draw call.gap call.candidate db = .ok () (call.next db) := by
  rw [h.eq_idle] at hchanged ⊢
  rcases learnGap_outcome h.2.toSchema call.draw call.gap call.candidate with
    ⟨exc, herror⟩ | ⟨p, -, -, hok⟩
  · refine absurd ?_ hchanged
    rw [LearnCall.next, herror]
    rfl
  · rw [LearnCall.next, hok]
    rfl

/-- The concept `File` is learned once, and refused twice. -/
theorem replays_refused_iff_file : letI := asciiFolding
    Refused learnWrite.draw learnFile.gap learnFile.candidate (learnFile.next .fresh) ∧
      List.foldl LearnCall.next (learnFile.next .fresh) [learnFile, learnFile] =
        learnFile.next .fresh := by
  let _ := asciiFolding
  have hsound : SqliteRepository.fresh.Sound := ⟨rfl, Tables.wellFormed_empty⟩
  have hok := learnGap_of_changed hsound learnFile (by decide +kernel)
  have hfresh : ¬ SqliteRepository.fresh.tables.Stored (learnFile.draw.uuid4 0) :=
    fun ⟨_, hrow, _⟩ => (nomatch hrow)
  have hrun : Runs.Run LearnStep .fresh [learnFile] (learnFile.next .fresh) :=
    Runs.Run.nil.snoc ⟨hfresh, rfl⟩
  have haccepted : AcceptedIn .fresh (learnFile.next .fresh) [learnFile] learnFile.gap
      learnFile.candidate := ⟨[], learnFile.draw, [], _, _, rfl, .nil, hok, .nil⟩
  obtain ⟨hcalls, hruns⟩ := replays_refused_iff hsound
  refine ⟨(hcalls _ _ _ _ hok _).mpr (by decide), ?_⟩
  refine (hruns _ _ hrun [learnFile, learnFile] ?_).2.mpr ?_
  · simpa using haccepted
  · simp [learnFile, KnowledgeGap.kind]

/-- That `Write` requires `File` is learned, and learned again: the store then holds the
relatum twice. -/
theorem learnGap_repeats_edge : letI := asciiFolding
    ∃ db db', learnGap linkWrite.draw linkWrite.gap linkWrite.candidate
        (learnWrite.next (learnFile.next .fresh)) = .ok () db ∧
      learnGap linkWrite.draw linkWrite.gap linkWrite.candidate db = .ok () db' ∧
      ∃ rel, db.tables.relata = [rel] ∧ db'.tables.relata = [rel, rel] := by
  let _ := asciiFolding
  have hfresh : SqliteRepository.fresh.Sound := ⟨rfl, Tables.wellFormed_empty⟩
  have hfiles := learnWrite.sound_next (learnFile.sound_next hfresh)
  exact ⟨_, _, learnGap_of_changed hfiles linkWrite (by decide +kernel),
    learnGap_of_changed (linkWrite.sound_next hfiles) linkWrite (by decide +kernel),
    ⟨1, 0, .requires, .identity, .identity, [], some (makeProvenance linkWrite.draw .learned)⟩,
    by decide +kernel, by decide +kernel⟩

end LearningEngine

end Vre
