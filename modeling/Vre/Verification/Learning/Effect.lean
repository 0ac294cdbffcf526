import Vre.Verification.Learning.Validation
import Vre.Verification.Store.Save

/-! # What one call of `learn_gap` does

A call either raises before it writes, or it is one save of a primitive that the candidate
determines. Each kind of gap has its own such primitive.
-/

namespace Vre

namespace LearningEngine

/-! ## The primitives that are saved -/

/-- The placeholder D0 of a learned concept. -/
def existsDepth (provenance : Provenance) : Depth :=
  ⟨.existence, [("exists", .json "true")], [], some provenance⟩

/-- The primitive an existence candidate creates. -/
def createdPrimitive (draw : Draw) (c : ExistenceCandidate) (provenance : Provenance) : Primitive :=
  ⟨draw.uuid4 0, c.name,
    existsDepth provenance :: c.d1.toList.map fun proposed => toDepth proposed provenance,
    some provenance, none⟩

/-- A primitive with a fill appended. -/
def filledPrimitive (p : Primitive) (newDepths : List ProposedDepth) (provenance : Provenance) :
    Primitive :=
  { p with depths := appendedDepths p.depths newDepths provenance }

/-- The relatum an edge proposal stands for. -/
def EdgeProposal.toRelatum (edge : EdgeProposal) (targetId : UUID) (provenance : Provenance) :
    Relatum :=
  ⟨edge.relationType, targetId, edge.targetDepthLevel, [], some provenance⟩

/-- A source primitive with a proposed edge attached. -/
def linkedPrimitive (source : Primitive) (edge : EdgeProposal) (targetId : UUID)
    (provenance : Provenance) : Primitive :=
  let depths := attachRelatum edge.sourceDepthLevel
    (EdgeProposal.toRelatum edge targetId provenance) source.depths
  { source with depths := depths.insertionSort fun a b => a.level ≤ b.level }

/-- What a depth or a relational gap asks to be filled, and with what: the primitive, the
required depth, and the proposed depths. -/
inductive FillTarget : KnowledgeGap → LearningCandidate → UUID → DepthLevel →
    List ProposedDepth → Prop where
  | depth (g : DepthGap) (c : DepthCandidate) :
      FillTarget (.depth g) (.depth c) g.primitive.id g.requiredDepth c.newDepths
  | relational (g : RelationalGap) (c : RelationalCandidate) :
      FillTarget (.relational g) (.relational c) g.target.id g.requiredDepth c.newDepths

/-- The primitive that `learn_gap` saves for a gap and a candidate it accepts. -/
inductive Learned [NameFolding] (draw : Draw) (t : Tables) :
    KnowledgeGap → LearningCandidate → Primitive → Prop where
  | existence {g : ExistenceGap} {c : ExistenceCandidate} (hname : c.name = g.primitive.name)
      {d1 : ProposedDepth} (hd1 : c.d1 = some d1) (hlevel : d1.level = .identity)
      (hcontent : d1.properties ≠ []) (habsent : t.named c.name = none) :
      Learned draw t (.existence g) (.existence c)
        (createdPrimitive draw c (makeProvenance draw .learned))
  | fill {gap : KnowledgeGap} {candidate : LearningCandidate} {id : UUID} {required : DepthLevel}
      {newDepths : List ProposedDepth} (htarget : FillTarget gap candidate id required newDepths)
      {p : Primitive} (hlive : t.live id = some p) (hopen : ¬ Meets p.contiguousMaxDepth required)
      (hvalid : ValidFill newDepths required p.groundingLevels) :
      Learned draw t gap candidate (filledPrimitive p newDepths (makeProvenance draw .learned))
  | edge {g : ReachabilityGap} {c : ReachabilityCandidate} {edge : EdgeProposal}
      (hedge : c.validateForGap (.reachability g) = .ok edge) {source target : Primitive}
      (hsource : t.named edge.sourceName = some source)
      (htarget : t.named edge.targetName = some target)
      (hsourceDepth : Meets source.contiguousMaxDepth edge.sourceDepthLevel)
      (htargetDepth : Meets target.contiguousMaxDepth edge.targetDepthLevel) :
      Learned draw t (.reachability g) (.reachability c)
        (linkedPrimitive source edge target.id (makeProvenance draw .learned))

/-! ## Reads -/

theorem read_findById [NameFolding] {t : Tables} (h : t.Schema) (id : UUID) :
    Action.read (fun repo : SqliteRepository => Repository.findById repo id) ⟨t, none⟩ =
      .ok (t.live id) ⟨t, none⟩ :=
  Action.read_of_ok (findById_eq h id)

theorem read_findByName [NameFolding] {t : Tables} (h : t.Schema) (name : String) :
    Action.read (fun repo : SqliteRepository => Repository.findByName repo name) ⟨t, none⟩ =
      .ok (t.named name) ⟨t, none⟩ :=
  Action.read_of_ok (findByName_eq h name)

/-! ## The three persistence paths -/

theorem persistExistence_cases [NameFolding] {t : Tables} (h : t.Schema) (draw : Draw)
    (c : ExistenceCandidate) (provenance : Provenance) :
    (t.named c.name = none ∧ ValidFill c.d1.toList .identity {.existence} ∧
      persistExistence draw c provenance (⟨t, none⟩ : SqliteRepository) =
        Sqlite.savePrimitive (createdPrimitive draw c provenance) ⟨t, none⟩) ∨
    (¬ (t.named c.name = none ∧ ValidFill c.d1.toList .identity {.existence}) ∧
      ∃ exc, persistExistence draw c provenance (⟨t, none⟩ : SqliteRepository) =
        .error exc ⟨t, none⟩) := by
  unfold persistExistence
  rw [Loops.bind_of_ok (read_findByName h c.name)]
  cases hnamed : t.named c.name with
  | some p => exact Or.inr ⟨fun h => (nomatch h.1), _, rfl⟩
  | none =>
      cases hvalid : validateDepthFill c.d1.toList (some .existence) .identity {.existence}
          s!"ExistenceCandidate for '{c.name}'" with
      | ok u =>
          refine Or.inl ⟨rfl, validateDepthFill_ok.mp hvalid, ?_⟩
          exact Loops.bind_of_ok (Action.lift_of_ok rfl _)
      | error exc =>
          refine Or.inr ⟨fun h => ?_, exc, Loops.bind_of_error (Action.lift_of_error rfl _)⟩
          rw [validateDepthFill_ok.mpr h.2] at hvalid
          cases hvalid

theorem raiseIfResolved_ok {name : String} {current : Option DepthLevel} {required : DepthLevel} :
    raiseIfResolved name current required = .ok () ↔ ¬ Meets current required :=
  guard_ok

theorem raiseIfResolved_of_meets (name : String) {current : Option DepthLevel}
    {required : DepthLevel} (h : Meets current required) :
    ∃ exc, raiseIfResolved name current required = .error exc ∧ exc.cls = .gapResolvedError :=
  ⟨_, if_pos h, rfl⟩

theorem persistDepthFill_cases [NameFolding] {t : Tables} (h : t.Schema) (id : UUID)
    (snapshotName : String) (required : DepthLevel) (newDepths : List ProposedDepth)
    (provenance : Provenance) (label : String) :
    (∃ p, t.live id = some p ∧ ¬ Meets p.contiguousMaxDepth required ∧
      ValidFill newDepths required p.groundingLevels ∧
      persistDepthFill id snapshotName required newDepths provenance label
          (⟨t, none⟩ : SqliteRepository) =
        Sqlite.savePrimitive (filledPrimitive p newDepths provenance) ⟨t, none⟩) ∨
    ((∀ p, t.live id = some p → ¬ Meets p.contiguousMaxDepth required →
        ¬ ValidFill newDepths required p.groundingLevels) ∧
      ∃ exc, persistDepthFill id snapshotName required newDepths provenance label
        (⟨t, none⟩ : SqliteRepository) = .error exc ⟨t, none⟩) := by
  unfold persistDepthFill
  rw [Loops.bind_of_ok (read_findById h id)]
  cases hlive : t.live id with
  | none => exact Or.inr ⟨fun _ hp => (nomatch hp), _, rfl⟩
  | some p =>
      by_cases hmet : Meets p.contiguousMaxDepth required
      · obtain ⟨exc, hresolved, -⟩ := raiseIfResolved_of_meets p.name hmet
        refine Or.inr ⟨fun q hq hopen => absurd (Option.some.inj hq ▸ hmet) hopen, exc, ?_⟩
        exact Loops.bind_of_error (Action.lift_of_error hresolved _)
      · dsimp only
        rw [Loops.bind_of_ok (Action.lift_of_ok (raiseIfResolved_ok.mpr hmet) _)]
        cases hvalid : validateDepthFill newDepths p.contiguousMaxDepth required p.groundingLevels
            s!"{label} for '{p.name}'" with
        | ok u =>
            refine Or.inl ⟨p, rfl, hmet, validateDepthFill_ok.mp hvalid, ?_⟩
            exact Loops.bind_of_ok (Action.lift_of_ok rfl _)
        | error exc =>
            refine Or.inr ⟨fun q hq _ hfill => ?_, exc,
              Loops.bind_of_error (Action.lift_of_error rfl _)⟩
            rw [validateDepthFill_ok.mpr (Option.some.inj hq ▸ hfill)] at hvalid
            cases hvalid

theorem requireDepth_ok {role : String} {p : Primitive} {required : DepthLevel} :
    requireDepth role p required = .ok () ↔ Meets p.contiguousMaxDepth required :=
  guard_ok.trans not_not

theorem resolveNameToId_of_some [NameFolding] {t : Tables} (h : t.Schema) {name : String}
    {p : Primitive} (hp : t.named name = some p) :
    resolveNameToId name (⟨t, none⟩ : SqliteRepository) = .ok p.id ⟨t, none⟩ := by
  have hresolve : resolveName name (⟨t, none⟩ : SqliteRepository) = .ok p ⟨t, none⟩ := by
    unfold resolveName
    rw [Loops.bind_of_ok (read_findByName h name), hp]
    rfl
  exact Loops.bind_of_ok hresolve

theorem resolveNameToId_of_none [NameFolding] {t : Tables} (h : t.Schema) {name : String}
    (hp : t.named name = none) :
    ∃ exc, resolveNameToId name (⟨t, none⟩ : SqliteRepository) = .error exc ⟨t, none⟩ := by
  have hresolve : ∃ exc, resolveName name (⟨t, none⟩ : SqliteRepository) =
      .error exc ⟨t, none⟩ := by
    unfold resolveName
    rw [Loops.bind_of_ok (read_findByName h name), hp]
    exact ⟨_, rfl⟩
  obtain ⟨exc, hexc⟩ := hresolve
  exact ⟨exc, Loops.bind_of_error hexc⟩

theorem findEndpoint_of_live [NameFolding] {t : Tables} (h : t.Schema) (role name : String)
    {id : UUID} {p : Primitive} (hp : t.live id = some p) :
    findEndpoint role name id (⟨t, none⟩ : SqliteRepository) = .ok p ⟨t, none⟩ := by
  unfold findEndpoint
  rw [Loops.bind_of_ok (read_findById h id), hp]
  rfl

theorem persistReachability_cases [NameFolding] {t : Tables} (h : t.Schema) (edge : EdgeProposal)
    (provenance : Provenance) :
    (∃ source target, t.named edge.sourceName = some source ∧
      t.named edge.targetName = some target ∧
      Meets source.contiguousMaxDepth edge.sourceDepthLevel ∧
      Meets target.contiguousMaxDepth edge.targetDepthLevel ∧
      persistReachability edge provenance (⟨t, none⟩ : SqliteRepository) =
        Sqlite.savePrimitive (linkedPrimitive source edge target.id provenance) ⟨t, none⟩) ∨
    ((∀ source target, t.named edge.sourceName = some source →
        t.named edge.targetName = some target →
        Meets source.contiguousMaxDepth edge.sourceDepthLevel →
        ¬ Meets target.contiguousMaxDepth edge.targetDepthLevel) ∧
      ∃ exc, persistReachability edge provenance (⟨t, none⟩ : SqliteRepository) =
        .error exc ⟨t, none⟩) := by
  unfold persistReachability
  cases hsource : t.named edge.sourceName with
  | none =>
      obtain ⟨exc, hexc⟩ := resolveNameToId_of_none h hsource
      exact Or.inr ⟨fun _ _ hs => (nomatch hs), exc, Loops.bind_of_error hexc⟩
  | some source =>
      rw [Loops.bind_of_ok (resolveNameToId_of_some h hsource)]
      cases htarget : t.named edge.targetName with
      | none =>
          obtain ⟨exc, hexc⟩ := resolveNameToId_of_none h htarget
          exact Or.inr ⟨fun _ _ _ ht => (nomatch ht), exc, Loops.bind_of_error hexc⟩
      | some target =>
          have hliveSource := (Tables.live_of_named h hsource).1
          have hliveTarget := (Tables.live_of_named h htarget).1
          rw [Loops.bind_of_ok (resolveNameToId_of_some h htarget),
            Loops.bind_of_ok (findEndpoint_of_live h "Source" edge.sourceName hliveSource),
            Loops.bind_of_ok (findEndpoint_of_live h "Target" edge.targetName hliveTarget)]
          cases hs : requireDepth "Source" source edge.sourceDepthLevel with
          | error exc =>
              refine Or.inr ⟨fun s u hs' hu hmet => ?_, exc,
                Loops.bind_of_error (Action.lift_of_error rfl _)⟩
              cases hs'
              rw [requireDepth_ok.mpr hmet] at hs
              cases hs
          | ok u =>
              rw [Loops.bind_of_ok (Action.lift_of_ok rfl _)]
              cases ht : requireDepth "Target" target edge.targetDepthLevel with
              | error exc =>
                  refine Or.inr ⟨fun s u hs' hu _ hmet => ?_, exc,
                    Loops.bind_of_error (Action.lift_of_error rfl _)⟩
                  cases hu
                  rw [requireDepth_ok.mpr hmet] at ht
                  cases ht
              | ok u' =>
                  exact Or.inl ⟨source, target, rfl, rfl, requireDepth_ok.mp hs,
                    requireDepth_ok.mp ht, Loops.bind_of_ok (Action.lift_of_ok rfl _)⟩

/-! ## `learn_gap` -/

theorem existenceCandidate_validateForGap_ok {c : ExistenceCandidate} {gap : KnowledgeGap} :
    c.validateForGap gap = .ok () ↔
      c.name = gap.subject.name ∧ ∃ d1, c.d1 = some d1 ∧ d1.level = .identity := by
  unfold ExistenceCandidate.validateForGap
  by_cases hname : c.name = gap.subject.name
  · cases hd1 : c.d1 with
    | none => simp [hname, raise]
    | some d1 => by_cases hlevel : d1.level = .identity <;> simp [hname, hlevel, raise]
  · simp [hname, raise]

theorem validFill_identity_iff {d1 : ProposedDepth} (hlevel : d1.level = .identity) :
    ValidFill [d1] .identity {.existence} ↔ d1.properties ≠ [] := by
  constructor
  · exact fun h => h.content d1 (by simp)
  · intro hcontent
    refine ⟨by simp, by simp, by simpa using hcontent, ?_, ?_, ?_⟩
    · simp [hlevel]
    · simp [hlevel]
    · simp only [List.mem_singleton, forall_eq, hlevel, Finset.mem_singleton, List.map_cons,
        List.map_nil]
      intro l hl
      revert hl
      cases l <;> decide

theorem Learned.kind_eq [NameFolding] {draw : Draw} {t : Tables} {gap : KnowledgeGap}
    {candidate : LearningCandidate} {p : Primitive} (h : Learned draw t gap candidate p) :
    gap.kind = candidate.kind := by
  cases h with
  | existence => rfl
  | fill htarget => cases htarget <;> rfl
  | edge => rfl

/-- For a reachability gap it is the source of the edge, with a relatum more. -/
theorem Learned.linked_of_reachability [NameFolding] {draw : Draw} {t : Tables}
    {gap : KnowledgeGap} {candidate : LearningCandidate} {p : Primitive}
    (h : Learned draw t gap candidate p) (hkind : gap.kind = .reachability) :
    ∃ edge source target, t.named edge.sourceName = some source ∧
      t.named edge.targetName = some target ∧
      Meets source.contiguousMaxDepth edge.sourceDepthLevel ∧
      Meets target.contiguousMaxDepth edge.targetDepthLevel ∧
      p = linkedPrimitive source edge target.id (makeProvenance draw .learned) := by
  cases h with
  | existence => cases hkind
  | fill htarget => cases htarget <;> cases hkind
  | edge _ hsource htarget hsourceDepth htargetDepth =>
      exact ⟨_, _, _, hsource, htarget, hsourceDepth, htargetDepth, rfl⟩

/-- The path of a depth or relational gap: the shape check, then the fill. -/
theorem fillPath_cases [NameFolding] {t : Tables} (h : t.Schema) (gap : KnowledgeGap) (id : UUID)
    (snapshotName : String) (required : DepthLevel) (newDepths : List ProposedDepth)
    (provenance : Provenance) (label : String) :
    let path : Action SqliteRepository Unit := do
      Action.lift (validateNewDepths label newDepths gap)
      persistDepthFill id snapshotName required newDepths provenance label
    (∃ p, t.live id = some p ∧ ¬ Meets p.contiguousMaxDepth required ∧
      ValidFill newDepths required p.groundingLevels ∧
      path ⟨t, none⟩ = Sqlite.savePrimitive (filledPrimitive p newDepths provenance) ⟨t, none⟩) ∨
    ((∀ p, t.live id = some p → ¬ Meets p.contiguousMaxDepth required →
        ¬ ValidFill newDepths required p.groundingLevels) ∧
      ∃ exc, path ⟨t, none⟩ = .error exc ⟨t, none⟩) := by
  dsimp only
  by_cases hempty : newDepths = []
  · have herror : ∃ exc, validateNewDepths label newDepths gap = .error exc :=
      ⟨_, if_pos (List.isEmpty_iff.mpr hempty)⟩
    obtain ⟨exc, hexc⟩ := herror
    exact Or.inr ⟨fun _ _ _ hvalid => hvalid.nonempty hempty, exc,
      Loops.bind_of_error (Action.lift_of_error hexc _)⟩
  · have hok : validateNewDepths label newDepths gap = .ok () :=
      if_neg fun h => hempty (List.isEmpty_iff.mp h)
    rw [Loops.bind_of_ok (Action.lift_of_ok hok _)]
    exact persistDepthFill_cases h id snapshotName required newDepths provenance label

/-- What a call does to an idle connection: it saves the primitive that the gap and the
candidate determine, or it raises and writes nothing. -/
def Settles [NameFolding] (draw : Draw) (t : Tables) (gap : KnowledgeGap)
    (candidate : LearningCandidate) (call : Action SqliteRepository Unit) : Prop :=
  (∃ p, Learned draw t gap candidate p ∧ call ⟨t, none⟩ = Sqlite.savePrimitive p ⟨t, none⟩) ∨
  ((∀ p, ¬ Learned draw t gap candidate p) ∧ ∃ exc, call ⟨t, none⟩ = .error exc ⟨t, none⟩)

theorem settles_fill [NameFolding] {t : Tables} (h : t.Schema) (draw : Draw) {gap : KnowledgeGap}
    {candidate : LearningCandidate} {id : UUID} {required : DepthLevel}
    {newDepths : List ProposedDepth} (htarget : FillTarget gap candidate id required newDepths)
    (snapshotName label : String) :
    Settles draw t gap candidate (do
      Action.lift (validateNewDepths label newDepths gap)
      persistDepthFill id snapshotName required newDepths (makeProvenance draw .learned)
        label) := by
  rcases fillPath_cases h gap id snapshotName required newDepths (makeProvenance draw .learned)
      label with ⟨p, hlive, hopen, hvalid, hsave⟩ | ⟨hnone, herror⟩
  · exact Or.inl ⟨_, .fill htarget hlive hopen hvalid, hsave⟩
  · refine Or.inr ⟨fun p hp => ?_, herror⟩
    cases hp with
    | existence => cases htarget
    | fill htarget' hlive hopen hvalid =>
        cases htarget <;> cases htarget' <;> exact hnone _ hlive hopen hvalid
    | edge => cases htarget

theorem settles_existence [NameFolding] {t : Tables} (h : t.Schema) (draw : Draw)
    (g : ExistenceGap) (c : ExistenceCandidate) :
    Settles draw t (.existence g) (.existence c) (do
      Action.lift (c.validateForGap (.existence g))
      persistExistence draw c (makeProvenance draw .learned)) := by
  cases hcheck : c.validateForGap (.existence g) with
  | error exc =>
      refine Or.inr ⟨fun p hp => ?_, exc, Loops.bind_of_error (Action.lift_of_error rfl _)⟩
      cases hp with
      | existence hname hd1 hlevel =>
          rw [existenceCandidate_validateForGap_ok.mpr ⟨hname, _, hd1, hlevel⟩] at hcheck
          cases hcheck
      | fill htarget => cases htarget
  | ok u =>
      obtain ⟨hname, d1, hd1, hlevel⟩ := existenceCandidate_validateForGap_ok.mp hcheck
      have hfill := validFill_identity_iff hlevel
      have hlist : c.d1.toList = [d1] := by rw [hd1]; rfl
      unfold Settles
      rw [Loops.bind_of_ok (Action.lift_of_ok rfl _)]
      rcases persistExistence_cases h draw c (makeProvenance draw .learned) with
        ⟨habsent, hvalid, hsave⟩ | ⟨hnone, herror⟩
      · rw [hlist, hfill] at hvalid
        exact Or.inl ⟨_, .existence hname hd1 hlevel hvalid habsent, hsave⟩
      · refine Or.inr ⟨fun p hp => ?_, herror⟩
        cases hp with
        | existence _ hd1' hlevel' hcontent habsent =>
            rw [hd1] at hd1'
            cases hd1'
            exact hnone ⟨habsent, hlist ▸ hfill.mpr hcontent⟩
        | fill htarget => cases htarget

theorem settles_reachability [NameFolding] {t : Tables} (h : t.Schema) (draw : Draw)
    (g : ReachabilityGap) (c : ReachabilityCandidate) :
    Settles draw t (.reachability g) (.reachability c) (do
      let edge ← Action.lift (c.validateForGap (.reachability g))
      persistReachability edge (makeProvenance draw .learned)) := by
  cases hcheck : c.validateForGap (.reachability g) with
  | error exc =>
      refine Or.inr ⟨fun p hp => ?_, exc, Loops.bind_of_error (Action.lift_of_error rfl _)⟩
      cases hp with
      | fill htarget => cases htarget
      | edge hedge =>
          rw [hcheck] at hedge
          cases hedge
  | ok edge =>
      unfold Settles
      rw [Loops.bind_of_ok (Action.lift_of_ok rfl _)]
      rcases persistReachability_cases h edge (makeProvenance draw .learned) with
        ⟨source, target, hsource, htarget, hs, ht, hsave⟩ | ⟨hnone, herror⟩
      · exact Or.inl ⟨_, .edge hcheck hsource htarget hs ht, hsave⟩
      · refine Or.inr ⟨fun p hp => ?_, herror⟩
        cases hp with
        | fill htarget => cases htarget
        | edge hedge hsource htarget hs ht =>
            rw [hcheck] at hedge
            cases hedge
            exact hnone _ _ hsource htarget hs ht

theorem settles_of_kind_ne [NameFolding] (draw : Draw) (t : Tables) {gap : KnowledgeGap}
    {candidate : LearningCandidate} (hkind : gap.kind ≠ candidate.kind) :
    Settles draw t gap candidate (learnGap draw gap candidate) := by
  refine Or.inr ⟨fun p hp => hkind hp.kind_eq, ?_⟩
  unfold learnGap
  rw [if_pos hkind]
  exact ⟨_, rfl⟩

theorem learnGap_cases [NameFolding] {t : Tables} (h : t.Schema) (draw : Draw)
    (gap : KnowledgeGap) (candidate : LearningCandidate) :
    Settles draw t gap candidate (learnGap draw gap candidate) := by
  by_cases hkind : gap.kind = candidate.kind
  case neg => exact settles_of_kind_ne draw t hkind
  cases gap with
  | existence g =>
      cases candidate with
      | existence c => exact settles_existence h draw g c
      | _ => cases hkind
  | depth g =>
      cases candidate with
      | depth c => exact settles_fill h draw (.depth g c) g.primitive.name "DepthCandidate"
      | _ => cases hkind
  | relational g =>
      cases candidate with
      | relational c =>
          exact settles_fill h draw (.relational g c) g.target.name "RelationalCandidate"
      | _ => cases hkind
  | reachability g =>
      cases candidate with
      | reachability c => exact settles_reachability h draw g c
      | _ => cases hkind

end LearningEngine

end Vre
