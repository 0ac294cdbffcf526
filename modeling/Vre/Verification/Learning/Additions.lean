import Vre.Verification.Learning.Effect
import Vre.Verification.Store.Live
import Vre.Verification.Store.Runs

/-! # Learning only adds

A call of `learn_gap` that returns has added one primitive, some depths of one primitive, or
one relatum. What was there before, and counted, is still there.
-/

namespace Vre

namespace LearningEngine

/-! ## What may be added -/

/-- The stamp says `LEARNED`. -/
def IsLearned (provenance : Option Provenance) : Prop :=
  ∃ stamp, provenance = some stamp ∧ stamp.source = .learned

theorem isLearned_makeProvenance (draw : Draw) :
    IsLearned (some (makeProvenance draw .learned)) :=
  ⟨_, rfl, rfl⟩

/-- The identity of a primitive: all that is not in its depths. -/
structure SameIdentity (p p' : Primitive) : Prop where
  id : p'.id = p.id
  name : p'.name = p.name
  provenance : p'.provenance = p.provenance
  metrics : p'.metrics = p.metrics

/-- A new primitive with D0 and D1 only. -/
structure Created (name : String) (p : Primitive) : Prop where
  name : p.name = name
  levels : p.depths.map Depth.level = [.existence, .identity]
  content : ∀ d ∈ p.depths, d.properties ≠ []
  bare : ∀ d ∈ p.depths, d.relata = []
  learned : IsLearned p.provenance ∧ ∀ d ∈ p.depths, IsLearned d.provenance
  metrics : p.metrics = none

/-- `p'` is `p` with the depths `added`, which fill holes up to `required`. A record that
stood at a hole is replaced; every depth that grounded `p` is kept. -/
structure Filled (required : DepthLevel) (added : List Depth) (p p' : Primitive) : Prop extends
    SameIdentity p p' where
  mem_iff : ∀ d, d ∈ p'.depths ↔ d ∈ added ∨ d ∈ p.depths ∧ d.level ∉ added.map Depth.level
  kept : ∀ d ∈ p.depths, d.grounds = true → d ∈ p'.depths
  nonempty : added ≠ []
  distinct : (added.map Depth.level).Nodup
  scope : ∀ d ∈ added, d.level ≤ required
  holes : ∀ d ∈ added, d.level ∉ p.groundingLevels
  content : ∀ d ∈ added, d.properties ≠ []
  bare : ∀ d ∈ added, d.relata = []
  learned : ∀ d ∈ added, IsLearned d.provenance

/-- `p'` is `p` with one more relatum at one of its depths. -/
structure Linked (level : DepthLevel) (r : Relatum) (p p' : Primitive) : Prop extends
    SameIdentity p p' where
  exists_depth : ∃ d ∈ p.depths, d.level = level
  depths : p'.depths = p.depths.map fun d =>
    if d.level = level then { d with relata := d.relata ++ [r] } else d
  learned : IsLearned r.provenance

/-! ## The primitives that are saved -/

theorem created_createdPrimitive (draw : Draw) {c : ExistenceCandidate} {d1 : ProposedDepth}
    (hd1 : c.d1 = some d1) (hlevel : d1.level = .identity) (hcontent : d1.properties ≠ []) :
    Created c.name (createdPrimitive draw c (makeProvenance draw .learned)) := by
  have hdepths : (createdPrimitive draw c (makeProvenance draw .learned)).depths =
      [existsDepth (makeProvenance draw .learned), toDepth d1 (makeProvenance draw .learned)] := by
    simp [createdPrimitive, hd1]
  refine ⟨rfl, ?_, ?_, ?_, ⟨isLearned_makeProvenance draw, ?_⟩, rfl⟩
  · simp [hdepths, existsDepth, toDepth, hlevel]
  · simp [hdepths, existsDepth, toDepth, hcontent]
  · simp [hdepths, existsDepth, toDepth]
  · rw [hdepths]
    simp only [List.forall_mem_cons, List.not_mem_nil, false_implies, implies_true, and_true]
    exact ⟨isLearned_makeProvenance draw, isLearned_makeProvenance draw⟩

theorem Created.normal {name : String} {p : Primitive} (h : Created name p) : p.Normal := by
  have hlevels : (p.depths.map Depth.level).Pairwise (· < ·) := by
    rw [h.levels]
    decide
  exact List.pairwise_map.mp hlevels

theorem mem_appendedDepths {depths : List Depth} {newDepths : List ProposedDepth}
    {provenance : Provenance} {d : Depth} : d ∈ appendedDepths depths newDepths provenance ↔
      d ∈ newDepths.map (fun proposed => toDepth proposed provenance) ∨
        d ∈ depths ∧ d.level ∉ newDepths.map ProposedDepth.level := by
  simp only [appendedDepths, List.mem_insertionSort, List.mem_append, List.mem_filter,
    decide_eq_true_eq]
  exact or_comm

theorem levels_toDepth (newDepths : List ProposedDepth) (provenance : Provenance) :
    (newDepths.map fun proposed => toDepth proposed provenance).map Depth.level =
      newDepths.map ProposedDepth.level := by
  simp [toDepth, Function.comp_def]

/-- A primitive with a valid fill is a filled one. -/
theorem filled_filledPrimitive (draw : Draw) {p : Primitive} {required : DepthLevel}
    {newDepths : List ProposedDepth} (h : ValidFill newDepths required p.groundingLevels) :
    Filled required (newDepths.map fun proposed => toDepth proposed (makeProvenance draw .learned))
      p (filledPrimitive p newDepths (makeProvenance draw .learned)) := by
  have hmem : ∀ d, d ∈ (filledPrimitive p newDepths (makeProvenance draw .learned)).depths ↔
      d ∈ (newDepths.map fun proposed => toDepth proposed (makeProvenance draw .learned)) ∨
        d ∈ p.depths ∧ d.level ∉ newDepths.map ProposedDepth.level := fun d => mem_appendedDepths
  refine ⟨⟨rfl, rfl, rfl, rfl⟩, ?_, fun d hd hgrounds => ?_, ?_, ?_, ?_, ?_, ?_, ?_, ?_⟩
  · simpa only [levels_toDepth] using hmem
  · refine (hmem d).mpr (Or.inr ⟨hd, fun hlevel => ?_⟩)
    obtain ⟨proposed, hproposed, heq⟩ := List.mem_map.mp hlevel
    exact h.holes proposed hproposed (mem_groundingLevels.mpr ⟨d, hd, hgrounds, heq.symm⟩)
  · simpa using h.nonempty
  · simpa only [levels_toDepth] using h.distinct
  · exact List.forall_mem_map.mpr h.scope
  · exact List.forall_mem_map.mpr h.holes
  · exact List.forall_mem_map.mpr h.content
  · exact List.forall_mem_map.mpr fun _ _ => rfl
  · exact List.forall_mem_map.mpr fun _ _ => isLearned_makeProvenance draw

theorem normal_filledPrimitive {p : Primitive} (hp : p.Normal) {newDepths : List ProposedDepth}
    (hdistinct : (newDepths.map ProposedDepth.level).Nodup) (provenance : Provenance) :
    (filledPrimitive p newDepths provenance).Normal := by
  apply pairwise_sortedDepths
  rw [List.map_append, levels_toDepth, List.nodup_append]
  refine ⟨?_, hdistinct, ?_⟩
  · exact hp.nodup_levels.sublist (List.filter_sublist.map _)
  · rintro level hkept _ hnew rfl
    obtain ⟨d, hd, rfl⟩ := List.mem_map.mp hkept
    exact of_decide_eq_true (List.mem_filter.mp hd).2 hnew

/-- The records that stand where a fill puts none. -/
def keptDepths (added : List Depth) (p : Primitive) : List Depth :=
  p.depths.filter fun d => d.level ∉ added.map Depth.level

theorem Filled.perm_depths {required : DepthLevel} {added : List Depth} {p p' : Primitive}
    (h : Filled required added p p') (hp : p.Normal) (hp' : p'.Normal) :
    p'.depths.Perm (added ++ keptDepths added p) := by
  have hnodup : (added ++ keptDepths added p).Nodup := by
    refine List.nodup_append.mpr ⟨List.Nodup.of_map _ h.distinct, hp.nodup_depths.filter _, ?_⟩
    rintro d hd _ hk rfl
    exact of_decide_eq_true (List.mem_filter.mp hk).2 (List.mem_map_of_mem hd)
  apply (List.perm_ext_iff_of_nodup hp'.nodup_depths hnodup).mpr
  intro d
  simp [keptDepths, h.mem_iff]

/-- A record that a fill replaces has no relata: one with relata would ground. -/
theorem Filled.relata_of_replaced {required : DepthLevel} {added : List Depth} {p p' : Primitive}
    (h : Filled required added p p') {d : Depth} (hd : d ∈ p.depths)
    (hlevel : d.level ∈ added.map Depth.level) : d.relata = [] := by
  by_contra hrelata
  have hgrounds : d.grounds = true := grounds_iff.mpr (Or.inr (Or.inr hrelata))
  obtain ⟨a, ha, heq⟩ := List.mem_map.mp hlevel
  exact h.holes a ha (mem_groundingLevels.mpr ⟨d, hd, hgrounds, heq.symm⟩)

/-- A fill brings no relata, and drops none: what it replaces was empty. -/
theorem Filled.perm_toRelata {required : DepthLevel} {added : List Depth} {p p' : Primitive}
    (h : Filled required added p p') (hp : p.Normal) (hp' : p'.Normal) :
    p'.toRelata.Perm p.toRelata := by
  let rows (d : Depth) : List RelatumRow := d.relata.map fun r => r.toRow p.id d.level
  have hadded : added.flatMap rows = [] := by
    apply List.flatMap_eq_nil_iff.mpr
    intro d hd
    simp only [rows, h.bare d hd, List.map_nil]
  have hreplaced : (p.depths.filter fun d => !decide (d.level ∉ added.map Depth.level)).flatMap
      rows = [] := by
    apply List.flatMap_eq_nil_iff.mpr
    intro d hd
    obtain ⟨hmem, hlevel⟩ := List.mem_filter.mp hd
    have hrelata := h.relata_of_replaced hmem (by simpa using hlevel)
    simp only [rows, hrelata, List.map_nil]
  have hkept : ((keptDepths added p).flatMap rows).Perm p.toRelata := by
    have hsplit := (List.filter_append_perm (fun d : Depth =>
      decide (d.level ∉ added.map Depth.level)) p.depths).flatMap_right rows
    rwa [List.flatMap_append, hreplaced, List.append_nil] at hsplit
  have hall := (h.perm_depths hp hp').flatMap_right rows
  rw [List.flatMap_append, hadded, List.nil_append] at hall
  rw [Primitive.toRelata, h.id]
  exact hall.trans hkept

/-- A fill adds its levels to those that ground. -/
theorem Filled.mem_groundingLevels_iff {required : DepthLevel} {added : List Depth}
    {p p' : Primitive} (h : Filled required added p p') {level : DepthLevel} :
    level ∈ p'.groundingLevels ↔ level ∈ p.groundingLevels ∨ level ∈ added.map Depth.level := by
  simp only [mem_groundingLevels, List.mem_map]
  constructor
  · rintro ⟨d, hd, hgrounds, rfl⟩
    rcases (h.mem_iff d).mp hd with hadded | ⟨hkept, -⟩
    · exact Or.inr ⟨d, hadded, rfl⟩
    · exact Or.inl ⟨d, hkept, hgrounds, rfl⟩
  · rintro (⟨d, hd, hgrounds, rfl⟩ | ⟨d, hd, rfl⟩)
    · exact ⟨d, h.kept d hd hgrounds, hgrounds, rfl⟩
    · exact ⟨d, (h.mem_iff d).mpr (Or.inl hd), grounds_iff.mpr (Or.inr (Or.inl (h.content d hd))),
        rfl⟩

/-! ## An edge -/

theorem level_ite_attach {level : DepthLevel} {r : Relatum} (d : Depth) :
    (if d.level = level then { d with relata := d.relata ++ [r] } else d).level = d.level := by
  split <;> rfl

theorem attachRelatum_eq {level : DepthLevel} {r : Relatum} {depths : List Depth}
    (h : depths.Pairwise fun a b => a.level < b.level) :
    attachRelatum level r depths = depths.map fun d =>
      if d.level = level then { d with relata := d.relata ++ [r] } else d := by
  induction depths with
  | nil => rfl
  | cons d rest ih =>
      obtain ⟨hfirst, hrest⟩ := List.pairwise_cons.mp h
      by_cases hlevel : d.level = level
      · have hothers : ∀ b ∈ rest, (if b.level = level then { b with relata := b.relata ++ [r] }
            else b) = b := by
          intro b hb
          exact if_neg fun heq => (hfirst b hb).ne (hlevel.trans heq.symm)
        simp only [attachRelatum, hlevel, if_true, List.map_cons, List.cons.injEq, true_and]
        exact ((List.map_congr_left hothers).trans (List.map_id rest)).symm
      · simp only [attachRelatum, hlevel, if_false, List.map_cons, ih hrest]

/-- Where the level is stored, attaching a relatum there is a link. -/
theorem linked_linkedPrimitive (draw : Draw) {source : Primitive} (hsource : source.Normal)
    {edge : EdgeProposal} (hdepth : Meets source.contiguousMaxDepth edge.sourceDepthLevel)
    (targetId : UUID) :
    Linked edge.sourceDepthLevel
      (EdgeProposal.toRelatum edge targetId (makeProvenance draw .learned)) source
      (linkedPrimitive source edge targetId (makeProvenance draw .learned)) ∧
    (linkedPrimitive source edge targetId (makeProvenance draw .learned)).Normal := by
  let r := EdgeProposal.toRelatum edge targetId (makeProvenance draw .learned)
  have hmap : (source.depths.map fun d => if d.level = edge.sourceDepthLevel then
      { d with relata := d.relata ++ [r] } else d).Pairwise fun a b => a.level < b.level := by
    refine List.pairwise_map.mpr (hsource.imp fun {a b} hlt => ?_)
    rwa [level_ite_attach, level_ite_attach]
  have hdepths : (linkedPrimitive source edge targetId (makeProvenance draw .learned)).depths =
      source.depths.map fun d => if d.level = edge.sourceDepthLevel then
        { d with relata := d.relata ++ [r] } else d := by
    have hsorted := (hmap.imp fun hlt => hlt.le).insertionSort_eq
    rw [← attachRelatum_eq hsource] at hsorted ⊢
    exact hsorted
  obtain ⟨d, hd, -, hlevel⟩ := mem_groundingLevels.mp
    (meets_contiguousMaxDepth.mp hdepth edge.sourceDepthLevel le_rfl)
  refine ⟨⟨⟨rfl, rfl, rfl, rfl⟩, ⟨d, hd, hlevel⟩, hdepths, isLearned_makeProvenance draw⟩, ?_⟩
  rw [Primitive.Normal, hdepths]
  exact hmap

/-- A depth of a linked primitive is one it had, but for the new relatum. -/
theorem Linked.mem_depths {level : DepthLevel} {r : Relatum} {p p' : Primitive}
    (h : Linked level r p p') {d' : Depth} (hd' : d' ∈ p'.depths) :
    ∃ d ∈ p.depths, d'.level = d.level ∧ d'.properties = d.properties ∧
      d'.provenance = d.provenance ∧
      ∀ r' ∈ d'.relata, r' ∈ d.relata ∨ d.level = level ∧ r' = r := by
  rw [h.depths] at hd'
  obtain ⟨d, hd, rfl⟩ := List.mem_map.mp hd'
  refine ⟨d, hd, level_ite_attach d, ?_, ?_, fun r' hr' => ?_⟩
  · split <;> rfl
  · split <;> rfl
  · split at hr'
    · rename_i hlevel
      rcases List.mem_append.mp hr' with hold | hnew
      · exact Or.inl hold
      · exact Or.inr ⟨hlevel, List.mem_singleton.mp hnew⟩
    · exact Or.inl hr'

/-! ## The effect of a call -/

/-- What a gap asks to be filled, and to which depth. -/
inductive Asks : KnowledgeGap → UUID → DepthLevel → Prop where
  | depth (g : DepthGap) : Asks (.depth g) g.primitive.id g.requiredDepth
  | relational (g : RelationalGap) : Asks (.relational g) g.target.id g.requiredDepth

theorem FillTarget.asks {gap : KnowledgeGap} {candidate : LearningCandidate} {id : UUID}
    {required : DepthLevel} {newDepths : List ProposedDepth}
    (h : FillTarget gap candidate id required newDepths) : Asks gap id required := by
  cases h with
  | depth g c => exact .depth g
  | relational g c => exact .relational g

/-- `t'` reads back as `t`, but for the primitive `p`. -/
def Updated (t t' : Tables) (p : Primitive) : Prop :=
  ∀ id, t'.live id = if id = p.id then some p else t.live id

/-- The one change that a call which returned has made to the stored primitives. -/
inductive Added [NameFolding] (t t' : Tables) : KnowledgeGap → LearningCandidate → Prop where
  | existence {g : ExistenceGap} {candidate : LearningCandidate} {p : Primitive}
      (hnew : t.live p.id = none) (hcreated : Created g.primitive.name p)
      (hlive : Updated t t' p) : Added t t' (.existence g) candidate
  | fill {gap : KnowledgeGap} {candidate : LearningCandidate} {required : DepthLevel}
      {added : List Depth} {p p' : Primitive} (hasks : Asks gap p.id required)
      (hold : t.live p.id = some p) (hfilled : Filled required added p p')
      (hlive : Updated t t' p') : Added t t' gap candidate
  | edge {g : ReachabilityGap} {c : ReachabilityCandidate} {source : String} {level : DepthLevel}
      {r : Relatum} {p p' : Primitive} (hsource : c.sourceName = some source)
      (hnamed : t.named source = some p) (hold : t.live p.id = some p)
      (hlinked : Linked level r p p') (hlive : Updated t t' p') :
      Added t t' (.reachability g) (.reachability c)

theorem Learned.normal [NameFolding] {draw : Draw} {t : Tables} (h : t.Schema)
    {gap : KnowledgeGap} {candidate : LearningCandidate} {p : Primitive}
    (hp : Learned draw t gap candidate p) : p.Normal := by
  cases hp with
  | existence _ hd1 hlevel hcontent => exact (created_createdPrimitive _ hd1 hlevel hcontent).normal
  | fill _ hlive _ hvalid => exact normal_filledPrimitive (h.normal_live hlive) hvalid.distinct _
  | edge _ hsource _ hdepth =>
      have hlive := (Tables.live_of_named h hsource).1
      exact (linked_linkedPrimitive draw (h.normal_live hlive) hdepth _).2

/-- A call raises and writes nothing, or it saves the primitive it has learned. -/
theorem learnGap_outcome [NameFolding] {t : Tables} (h : t.Schema) (draw : Draw)
    (gap : KnowledgeGap) (candidate : LearningCandidate) :
    (∃ exc, learnGap draw gap candidate (⟨t, none⟩ : SqliteRepository) = .error exc ⟨t, none⟩) ∨
    ∃ p, Learned draw t gap candidate p ∧ Sqlite.Accepts t p ∧
      learnGap draw gap candidate (⟨t, none⟩ : SqliteRepository) =
        .ok () ⟨t.replace p.toRow p.toRelata, none⟩ := by
  rcases learnGap_cases h draw gap candidate with ⟨p, hp, hsave⟩ | ⟨-, herror⟩
  · rw [hsave]
    rcases Sqlite.savePrimitive_cases p t with ⟨haccepts, hok⟩ | ⟨exc, -, herror⟩
    · exact Or.inr ⟨p, hp, haccepts, hok⟩
    · exact Or.inl ⟨exc, herror⟩
  · exact Or.inl herror

theorem source_of_validateForGap [NameFolding] {c : ReachabilityCandidate} {gap : KnowledgeGap}
    {edge : EdgeProposal} (h : c.validateForGap gap = .ok edge) :
    c.sourceName = some edge.sourceName := by
  unfold ReachabilityCandidate.validateForGap at h
  split at h
  · split at h
    · cases h
    · split at h
      · split at h
        · cases h
        · cases h
          assumption
      · cases h
  · cases h

/-- The saved primitive is the one change. -/
theorem Learned.added [NameFolding] {draw : Draw} {t : Tables} (h : t.Schema)
    {gap : KnowledgeGap} {candidate : LearningCandidate} (hfresh : ¬ t.Stored (draw.uuid4 0))
    {p : Primitive} (hp : Learned draw t gap candidate p) (haccepts : Sqlite.Accepts t p) :
    Added t (t.replace p.toRow p.toRelata) gap candidate := by
  have hlive : Updated t (t.replace p.toRow p.toRelata) p :=
    Tables.live_replace h haccepts (hp.normal h)
  cases hp with
  | existence hname hd1 hlevel hcontent =>
      refine .existence (Tables.live_eq_none.mpr hfresh) ?_ hlive
      exact hname ▸ created_createdPrimitive draw hd1 hlevel hcontent
  | fill htarget hold _ hvalid =>
      have hid := Tables.live_id h hold
      subst hid
      exact .fill htarget.asks hold (filled_filledPrimitive draw hvalid) hlive
  | edge hedge hsource _ hdepth =>
      have hold := (Tables.live_of_named h hsource).1
      exact .edge (source_of_validateForGap hedge) hsource hold
        (linked_linkedPrimitive draw (h.normal_live hold) hdepth _).1 hlive

/-- Learning only adds, and is all or nothing. -/
theorem learnGap_adds [NameFolding] {db : SqliteRepository} (h : db.Sound) (draw : Draw)
    (gap : KnowledgeGap) (candidate : LearningCandidate)
    (hfresh : ¬ db.tables.Stored (draw.uuid4 0)) :
    (∃ exc, learnGap draw gap candidate db = .error exc db) ∨
    ∃ db', learnGap draw gap candidate db = .ok () db' ∧ db'.Sound ∧
      Added db.tables db'.tables gap candidate := by
  have hschema := h.2.toSchema
  rw [h.eq_idle]
  rcases learnGap_outcome hschema draw gap candidate with herror | ⟨p, hp, haccepts, hok⟩
  · exact Or.inl herror
  · exact Or.inr ⟨_, hok, ⟨rfl, h.2.replace haccepts⟩, hp.added hschema hfresh haccepts⟩

/-- The gap and the candidate by which `File` is learned. -/
def fileGap : ExistenceGap :=
  ⟨⟨7, "File", [], none, none⟩⟩

def fileCandidate : ExistenceCandidate :=
  ⟨"File", some ⟨.identity, [("kind", .json "1")]⟩⟩

/-- A gap that asks for `File` at D2, and its fill. -/
def fileDepthGap : DepthGap :=
  ⟨⟨0, "File", [], none, none⟩, .capabilities, some .identity⟩

def fileDepthCandidate : DepthCandidate :=
  ⟨[⟨.capabilities, [("modes", .json "2")]⟩]⟩

/-- `Write` and `Log` both point to `File`, which has a bare D3 too. -/
def fileAmongOthers [NameFolding] : SqliteRepository :=
  List.foldl Operation.next .fresh
    [.save ⟨0, "File", [⟨.existence, [], [], some authored⟩,
        ⟨.identity, [("kind", .json "1")], [], some authored⟩,
        ⟨.constraints, [], [], some authored⟩], some authored, none⟩,
      .save (sample 1 "Write" [.existence] [⟨.requires, 0, .identity, [], some authored⟩]),
      .save (sample 2 "Log" [.existence] [⟨.appliesTo, 0, .capabilities, [], some authored⟩])]

/-- `File` is filled at D2, and the two others stay as they are. -/
theorem learnGap_adds_file : letI := asciiFolding
    ∃ db', learnGap ⟨fun i => i + 9, 0⟩ (.depth fileDepthGap) (.depth fileDepthCandidate)
        fileAmongOthers = .ok () db' ∧
      Added fileAmongOthers.tables db'.tables (.depth fileDepthGap) (.depth fileDepthCandidate) ∧
      (∀ id ∈ [1, 2], db'.tables.live id = fileAmongOthers.tables.live id) ∧
      ((db'.tables.live 0).map fun p => p.depths.map Depth.level) =
        some [.existence, .identity, .capabilities, .constraints] := by
  let _ := asciiFolding
  have hsound : fileAmongOthers.Sound := Operation.sound_foldl _
  have hfresh : ¬ fileAmongOthers.tables.Stored 9 := by
    rw [Tables.stored_iff_mem]
    decide +kernel
  have hothers : ∀ id ∈ [1, 2], (Action.after (learnGap ⟨fun i => i + 9, 0⟩ (.depth fileDepthGap)
      (.depth fileDepthCandidate) fileAmongOthers)).tables.live id =
        fileAmongOthers.tables.live id := by
    decide +kernel
  have hlevels : (((Action.after (learnGap ⟨fun i => i + 9, 0⟩ (.depth fileDepthGap)
      (.depth fileDepthCandidate) fileAmongOthers)).tables.live 0).map fun p =>
        p.depths.map Depth.level) =
          some [.existence, .identity, .capabilities, .constraints] := by
    decide +kernel
  rcases learnGap_adds hsound ⟨fun i => i + 9, 0⟩ (.depth fileDepthGap)
    (.depth fileDepthCandidate) hfresh with ⟨exc, herror⟩ | ⟨db', hok, -, hadded⟩
  · -- a call that raises would have left `File` without D2
    have hbefore : ((fileAmongOthers.tables.live 0).map fun p => p.depths.map Depth.level) ≠
        some [.existence, .identity, .capabilities, .constraints] := by
      decide +kernel
    simp only [herror, Action.after] at hlevels
    exact absurd hlevels hbefore
  · simp only [hok, Action.after] at hothers hlevels
    exact ⟨db', hok, hadded, hothers, hlevels⟩

end LearningEngine

end Vre
