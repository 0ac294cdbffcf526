import Vre.Verification.Learning.Placement
import Vre.Verification.Learning.Templates

/-! # Prerequisites of an edge

`reachability_prerequisites` captures a depth gap for each end of a proposed edge that is not
grounded deeply enough. Filling these gaps in their order makes room for the edge, unless both
gaps are about one primitive: then the first fill outdates the second gap.
-/

namespace Vre

namespace LearningEngine

/-! ## What is still owed -/

/-- The gap that `reachability_prerequisites` captures for a primitive, if it owes one. -/
def owed (p : Primitive) (required : DepthLevel) : List DepthGap :=
  if Meets p.contiguousMaxDepth required then [] else [⟨p, required, p.contiguousMaxDepth⟩]

theorem owed_of_meets {p : Primitive} {required : DepthLevel}
    (h : Meets p.contiguousMaxDepth required) : owed p required = [] :=
  if_pos h

theorem owed_of_unmet {p : Primitive} {required : DepthLevel}
    (h : ¬ Meets p.contiguousMaxDepth required) :
    owed p required = [⟨p, required, p.contiguousMaxDepth⟩] :=
  if_neg h

theorem prerequisite_eq [NameFolding] {t : Tables} (h : t.Schema) {name : String} {p : Primitive}
    (hp : t.named name = some p) (required : DepthLevel) :
    prerequisite (⟨t, none⟩ : SqliteRepository) name required = .ok (owed p required) := by
  have hfind : Repository.findByName (⟨t, none⟩ : SqliteRepository) name = .ok (some p) :=
    (findByName_eq h name).trans (congrArg Except.ok hp)
  unfold prerequisite
  rw [hfind]
  rfl

theorem reachabilityPrerequisites_eq [NameFolding] {t : Tables} (h : t.Schema)
    {gap : ReachabilityGap} {candidate : ReachabilityCandidate} {edge : EdgeProposal}
    (hedge : candidate.validateForGap (.reachability gap) = .ok edge) {source target : Primitive}
    (hsource : t.named edge.sourceName = some source)
    (htarget : t.named edge.targetName = some target) :
    reachabilityPrerequisites (⟨t, none⟩ : SqliteRepository) gap candidate =
      .ok (owed source edge.sourceDepthLevel ++ owed target edge.targetDepthLevel) := by
  unfold reachabilityPrerequisites
  rw [hedge, Loops.ok_bind, prerequisite_eq h hsource, Loops.ok_bind, prerequisite_eq h htarget]
  rfl

/-! ## Filling one prerequisite -/

/-- `t'` is `t` with one primitive filled up to a level. -/
structure FilledTo [NameFolding] (required : DepthLevel) (p : Primitive) (t t' : Tables) :
    Prop where
  wellFormed : t'.WellFormed
  extends_old : t.Extends t'
  updated : ∃ p', p'.id = p.id ∧ Updated t t' p' ∧
    ∀ l, l ∈ p'.groundingLevels ↔ l ∈ p.groundingLevels ∨ l ≤ required

/-- A gap that is captured from the store it is filled in closes. -/
theorem PrerequisiteFill.learn_live [NameFolding] (fill : PrerequisiteFill) {t : Tables}
    (h : t.WellFormed) {p : Primitive} (hlive : t.live p.id = some p) {required : DepthLevel}
    (hunmet : ¬ Meets p.contiguousMaxDepth required) :
    ∃ t', fill.learn ⟨p, required, p.contiguousMaxDepth⟩ (⟨t, none⟩ : SqliteRepository) =
      .ok () ⟨t', none⟩ ∧ FilledTo required p t t' := by
  let gap : DepthGap := ⟨p, required, p.contiguousMaxDepth⟩
  have hvalid : ValidFill (filledSlots fill.content gap.missingLevels) required
      p.groundingLevels :=
    validFill_missing fill.content (fun _ _ => Iff.rfl) hunmet
  have hcontent := LearningCandidate.serializable_fill fill.content (templateForGap (.depth gap))
  obtain ⟨t', hok, hwf, hgrowth, hupdated⟩ := learnGap_fill fill.draw h
    (.depth gap ⟨filledSlots fill.content gap.missingLevels⟩) hcontent hlive hunmet hvalid
  refine ⟨t', hok, hwf, hgrowth, filledPrimitive p (filledSlots fill.content gap.missingLevels)
    (makeProvenance fill.draw .learned), rfl, hupdated, fun l => ?_⟩
  rw [(filled_filledPrimitive fill.draw hvalid).mem_groundingLevels_iff, levels_toDepth,
    levels_filledSlots]
  have hmissing : l ∈ gap.missingLevels ↔ l ≤ required ∧ l ∉ p.groundingLevels :=
    mem_missingDepthLevels
  rw [hmissing]
  tauto

/-- A gap that was captured before its primitive was filled is refused: a level that both miss
is no hole any more. -/
theorem PrerequisiteFill.learn_stale [NameFolding] (fill : PrerequisiteFill) {p : Primitive}
    {filled required : DepthLevel} {t t' : Tables} (h : FilledTo filled p t t')
    (hunfilled : ¬ Meets p.contiguousMaxDepth filled)
    (hunmet : ¬ Meets p.contiguousMaxDepth required) :
    ∃ exc, fill.learn ⟨p, required, p.contiguousMaxDepth⟩ (⟨t', none⟩ : SqliteRepository) =
      .error exc ⟨t', none⟩ := by
  let gap : DepthGap := ⟨p, required, p.contiguousMaxDepth⟩
  obtain ⟨p', hid, hupdated, hlevels⟩ := h.updated
  have hlive : t'.live p.id = some p' := (hupdated p.id).trans (if_pos hid.symm)
  rw [meets_contiguousMaxDepth] at hunfilled hunmet
  push Not at hunfilled hunmet
  obtain ⟨l₁, hle₁, habsent₁⟩ := hunfilled
  obtain ⟨l₂, hle₂, habsent₂⟩ := hunmet
  have hstale : ∃ l, l ≤ filled ∧ l ≤ required ∧ l ∉ p.groundingLevels := by
    rcases le_total l₁ l₂ with hle | hle
    · exact ⟨l₁, hle₁, hle.trans hle₂, habsent₁⟩
    · exact ⟨l₂, hle.trans hle₁, hle₂, habsent₂⟩
  obtain ⟨l, hfilled, hrequired, habsent⟩ := hstale
  rcases learnGap_cases h.wellFormed.toSchema fill.draw (.depth gap)
      ((templateForGap (.depth gap)).fill fill.content) with ⟨q, hq, -⟩ | ⟨-, herror⟩
  · cases hq with
    | fill htarget hlive' _ hvalid =>
      cases htarget
      cases hlive.symm.trans hlive'
      have hproposed : l ∈ (filledSlots fill.content gap.missingLevels).map
          ProposedDepth.level := by
        rw [levels_filledSlots]
        exact mem_missingDepthLevels.mpr ⟨hrequired, habsent⟩
      obtain ⟨d, hd, rfl⟩ := List.mem_map.mp hproposed
      exact absurd ((hlevels d.level).mpr (Or.inr hfilled)) (hvalid.holes d hd)
  · exact herror

/-! ## The ends of the edge -/

/-- The name finds the primitive, grounded to the level. -/
def MetBy [NameFolding] (t : Tables) (name : String) (id : UUID) (required : DepthLevel) : Prop :=
  ∃ p, t.named name = some p ∧ p.id = id ∧ Meets p.contiguousMaxDepth required

theorem MetBy.extends_old [NameFolding] {t t' : Tables} (ht : t.Schema) (ht' : t'.Schema)
    (hgrowth : t.Extends t') {name : String} {id : UUID} {required : DepthLevel}
    (h : MetBy t name id required) : MetBy t' name id required := by
  obtain ⟨p, hp, rfl, hmet⟩ := h
  obtain ⟨p', hp', hid, hsub⟩ := hgrowth.named ht ht' hp
  exact ⟨p', hp', hid, hmet.of_subset hsub⟩

theorem FilledTo.metBy [NameFolding] {t t' : Tables} (ht : t.Schema) {name : String}
    {p : Primitive} (hp : t.named name = some p) {required : DepthLevel}
    (h : FilledTo required p t t') : MetBy t' name p.id required := by
  obtain ⟨q, hq, hid, -⟩ := h.extends_old.named ht h.wellFormed.toSchema hp
  obtain ⟨p', hid', hupdated, hlevels⟩ := h.updated
  have hlive := (Tables.live_of_named h.wellFormed.toSchema hq).1
  rw [hupdated q.id, if_pos (hid.trans hid'.symm)] at hlive
  cases hlive
  refine ⟨q, hq, hid, meets_contiguousMaxDepth.mpr fun l hl => ?_⟩
  exact (hlevels l).mpr (Or.inr hl)

/-! ## The protocol -/

/-- The list that `reachability_prerequisites` returns can be filled in its order. Afterwards
it is empty, and the edge is placed unless it closes a cycle. -/
def ProtocolSucceeds [NameFolding] (fills : Nat → PrerequisiteFill) (db : SqliteRepository)
    (gap : ReachabilityGap) (candidate : ReachabilityCandidate) (edge : EdgeProposal)
    (sourceId targetId : UUID) : Prop :=
  ∃ prereqs db', reachabilityPrerequisites db gap candidate = .ok prereqs ∧
    fillPrerequisites fills prereqs db = .ok () db' ∧
    reachabilityPrerequisites db' gap candidate = .ok [] ∧
    ∀ draw, PlacesEdge draw db' gap candidate edge sourceId targetId

section

variable [NameFolding] {t : Tables} {gap : ReachabilityGap} {candidate : ReachabilityCandidate}
  {edge : EdgeProposal} (hedge : candidate.validateForGap (.reachability gap) = .ok edge)

include hedge

/-- The protocol has succeeded when it leaves both ends met. -/
theorem protocolSucceeds_of_metBy {fills : Nat → PrerequisiteFill} {db : SqliteRepository}
    {prereqs : List DepthGap}
    (hprereqs : reachabilityPrerequisites db gap candidate = .ok prereqs)
    (hfilled : fillPrerequisites fills prereqs db = .ok () ⟨t, none⟩) (h : t.WellFormed)
    {sourceId targetId : UUID}
    (hsource : MetBy t edge.sourceName sourceId edge.sourceDepthLevel)
    (htarget : MetBy t edge.targetName targetId edge.targetDepthLevel) :
    ProtocolSucceeds fills db gap candidate edge sourceId targetId := by
  obtain ⟨source, hsource, rfl, hsourceDepth⟩ := hsource
  obtain ⟨target, htarget, rfl, htargetDepth⟩ := htarget
  have hnone := reachabilityPrerequisites_eq h.toSchema hedge hsource htarget
  rw [owed_of_meets hsourceDepth, owed_of_meets htargetDepth] at hnone
  exact ⟨prereqs, _, hprereqs, hfilled, hnone, fun draw =>
    learnGap_places draw h hedge hsource htarget hsourceDepth htargetDepth⟩

variable (h : t.WellFormed) {source target : Primitive}
  (hsource : t.named edge.sourceName = some source)
  (htarget : t.named edge.targetName = some target)

include h hsource htarget

/-- One gap, about either end: its fill leaves both ends met. -/
theorem protocolSucceeds_of_one (fills : Nat → PrerequisiteFill)
    (hone : ¬ Meets source.contiguousMaxDepth edge.sourceDepthLevel ∧
        Meets target.contiguousMaxDepth edge.targetDepthLevel ∨
      Meets source.contiguousMaxDepth edge.sourceDepthLevel ∧
        ¬ Meets target.contiguousMaxDepth edge.targetDepthLevel) :
    ProtocolSucceeds fills ⟨t, none⟩ gap candidate edge source.id target.id := by
  have hschema := h.toSchema
  have hprereqs := reachabilityPrerequisites_eq hschema hedge hsource htarget
  rcases hone with ⟨hunmet, hmet⟩ | ⟨hmet, hunmet⟩
  · rw [owed_of_unmet hunmet, owed_of_meets hmet] at hprereqs
    obtain ⟨t', hok, hfilled⟩ := (fills 0).learn_live h
      (Tables.live_of_named hschema hsource).1 hunmet
    refine protocolSucceeds_of_metBy hedge hprereqs (Loops.bind_of_ok hok) hfilled.wellFormed
      (hfilled.metBy hschema hsource) ?_
    exact .extends_old hschema hfilled.wellFormed.toSchema hfilled.extends_old
      ⟨target, htarget, rfl, hmet⟩
  · rw [owed_of_meets hmet, owed_of_unmet hunmet] at hprereqs
    obtain ⟨t', hok, hfilled⟩ := (fills 0).learn_live h
      (Tables.live_of_named hschema htarget).1 hunmet
    refine protocolSucceeds_of_metBy hedge hprereqs (Loops.bind_of_ok hok) hfilled.wellFormed ?_
      (hfilled.metBy hschema htarget)
    exact .extends_old hschema hfilled.wellFormed.toSchema hfilled.extends_old
      ⟨source, hsource, rfl, hmet⟩

/-- Two gaps about two primitives: the first fill leaves the second gap as it was captured. -/
theorem protocolSucceeds_of_ne (fills : Nat → PrerequisiteFill) (hne : source.id ≠ target.id)
    (hsourceDepth : ¬ Meets source.contiguousMaxDepth edge.sourceDepthLevel)
    (htargetDepth : ¬ Meets target.contiguousMaxDepth edge.targetDepthLevel) :
    ProtocolSucceeds fills ⟨t, none⟩ gap candidate edge source.id target.id := by
  have hschema := h.toSchema
  have hprereqs := reachabilityPrerequisites_eq hschema hedge hsource htarget
  rw [owed_of_unmet hsourceDepth, owed_of_unmet htargetDepth] at hprereqs
  obtain ⟨t₁, hok₁, hfilled₁⟩ := (fills 0).learn_live h
    (Tables.live_of_named hschema hsource).1 hsourceDepth
  obtain ⟨htargetLive, htargetName⟩ := Tables.live_of_named hschema htarget
  have hschema₁ := hfilled₁.wellFormed.toSchema
  have hlive₁ : t₁.live target.id = some target := by
    obtain ⟨p', hid, hupdated, -⟩ := hfilled₁.updated
    exact (hupdated target.id).trans ((if_neg fun heq => hne (hid ▸ heq.symm)).trans htargetLive)
  have htarget₁ : t₁.named edge.targetName = some target :=
    Tables.named_of_live hschema₁ hlive₁ htargetName
  obtain ⟨t₂, hok₂, hfilled₂⟩ := (fills 1).learn_live hfilled₁.wellFormed hlive₁ htargetDepth
  have hboth : fillPrerequisites fills
      [⟨source, edge.sourceDepthLevel, source.contiguousMaxDepth⟩,
        ⟨target, edge.targetDepthLevel, target.contiguousMaxDepth⟩]
      (⟨t, none⟩ : SqliteRepository) =
      .ok () ⟨t₂, none⟩ :=
    (Loops.bind_of_ok hok₁).trans (Loops.bind_of_ok hok₂)
  refine protocolSucceeds_of_metBy hedge hprereqs hboth hfilled₂.wellFormed ?_
    (hfilled₂.metBy hschema₁ htarget₁)
  exact .extends_old hschema₁ hfilled₂.wellFormed.toSchema hfilled₂.extends_old
    (hfilled₁.metBy hschema hsource)

/-- Two gaps about one primitive: the second is refused. -/
theorem not_protocolSucceeds (fills : Nat → PrerequisiteFill) (hsame : source.id = target.id)
    (hsourceDepth : ¬ Meets source.contiguousMaxDepth edge.sourceDepthLevel)
    (htargetDepth : ¬ Meets target.contiguousMaxDepth edge.targetDepthLevel) :
    ¬ ProtocolSucceeds fills ⟨t, none⟩ gap candidate edge source.id target.id := by
  rintro ⟨prereqs, db', hprereqs, hfilled, -⟩
  have hschema := h.toSchema
  rw [reachabilityPrerequisites_eq hschema hedge hsource htarget, owed_of_unmet hsourceDepth,
    owed_of_unmet htargetDepth] at hprereqs
  cases hprereqs
  have hlive := (Tables.live_of_named hschema hsource).1
  obtain rfl : source = target := by
    have hlive' := (Tables.live_of_named hschema htarget).1
    rw [← hsame] at hlive'
    exact Option.some.inj (hlive.symm.trans hlive')
  obtain ⟨t₁, hok₁, hfilled₁⟩ := (fills 0).learn_live h hlive hsourceDepth
  obtain ⟨exc, herror⟩ := (fills 1).learn_stale hfilled₁ hsourceDepth htargetDepth
  have hraised : fillPrerequisites fills
      [⟨source, edge.sourceDepthLevel, source.contiguousMaxDepth⟩,
        ⟨source, edge.targetDepthLevel, source.contiguousMaxDepth⟩]
      (⟨t, none⟩ : SqliteRepository) =
      .error exc ⟨t₁, none⟩ :=
    (Loops.bind_of_ok hok₁).trans (Loops.bind_of_error herror)
  cases hraised.symm.trans hfilled

end

/-- The prerequisite protocol succeeds exactly when the edge does not join a primitive, grounded
to neither of the depths it asks, to itself. -/
theorem protocolSucceeds_iff [NameFolding] {db : SqliteRepository} (h : db.Sound)
    {gap : ReachabilityGap} {candidate : ReachabilityCandidate} {edge : EdgeProposal}
    (hedge : candidate.validateForGap (.reachability gap) = .ok edge) {source target : Primitive}
    (hsource : db.tables.named edge.sourceName = some source)
    (htarget : db.tables.named edge.targetName = some target)
    (fills : Nat → PrerequisiteFill) :
    ProtocolSucceeds fills db gap candidate edge source.id target.id ↔
      (source.id = target.id → Meets source.contiguousMaxDepth edge.sourceDepthLevel ∨
        Meets target.contiguousMaxDepth edge.targetDepthLevel) := by
  rw [h.eq_idle]
  by_cases hs : Meets source.contiguousMaxDepth edge.sourceDepthLevel
  · refine iff_of_true ?_ fun _ => Or.inl hs
    by_cases ht : Meets target.contiguousMaxDepth edge.targetDepthLevel
    · have hprereqs := reachabilityPrerequisites_eq h.2.toSchema hedge hsource htarget
      rw [owed_of_meets hs, owed_of_meets ht] at hprereqs
      exact protocolSucceeds_of_metBy hedge hprereqs rfl h.2 ⟨source, hsource, rfl, hs⟩
        ⟨target, htarget, rfl, ht⟩
    · exact protocolSucceeds_of_one hedge h.2 hsource htarget fills (Or.inr ⟨hs, ht⟩)
  · by_cases ht : Meets target.contiguousMaxDepth edge.targetDepthLevel
    · refine iff_of_true ?_ fun _ => Or.inr ht
      exact protocolSucceeds_of_one hedge h.2 hsource htarget fills (Or.inl ⟨hs, ht⟩)
    · by_cases hsame : source.id = target.id
      · refine iff_of_false ?_ fun hmet => (hmet hsame).elim hs ht
        exact not_protocolSucceeds hedge h.2 hsource htarget fills hsame hs ht
      · refine iff_of_true ?_ fun heq => absurd heq hsame
        exact protocolSucceeds_of_ne hedge h.2 hsource htarget fills hsame hs ht

/-- `File` is unconnected. -/
def unconnectedFile : ReachabilityGap :=
  ⟨⟨0, "File", [], none, none⟩⟩

/-- An edge to `File`, between depths that no primitive of the example has. -/
def edgeToFile (sourceName : String) : EdgeProposal :=
  ⟨sourceName, "file", .includes, .capabilities, .constraints⟩

def candidateToFile (sourceName : String) : ReachabilityCandidate :=
  ⟨some sourceName, some "file", some .includes, some .capabilities, some .constraints⟩

def modeFills : Nat → PrerequisiteFill :=
  fun i => ⟨⟨fun j => 9 + i + j, i⟩, fun _ => ⟨[("modes", "2")], List.cons_ne_nil _ _⟩⟩

/-- `Write` and `File` both owe depth, and the edge from one to the other is placed. -/
theorem protocolSucceeds_iff_write : letI := asciiFolding
    ∃ source target, GroundingEngine.writeFile.tables.named "write" = some source ∧
      GroundingEngine.writeFile.tables.named "file" = some target ∧
      ¬ Meets source.contiguousMaxDepth .capabilities ∧
      ¬ Meets target.contiguousMaxDepth .constraints ∧
      ProtocolSucceeds modeFills GroundingEngine.writeFile unconnectedFile
        (candidateToFile "write") (edgeToFile "write") source.id target.id := by
  have hends : letI := asciiFolding
      (GroundingEngine.writeFile.tables.named "write").map (fun p => (p.id, p.contiguousMaxDepth)) =
        some (1, some .existence) ∧
      (GroundingEngine.writeFile.tables.named "file").map (fun p => (p.id, p.contiguousMaxDepth)) =
        some (0, some .identity) := by
    decide +kernel
  let _ := asciiFolding
  have hsound : GroundingEngine.writeFile.Sound := Operation.sound_foldl _
  have hedge : (candidateToFile "write").validateForGap (.reachability unconnectedFile) =
      .ok (edgeToFile "write") := by
    decide
  obtain ⟨source, hsource, hs⟩ := Option.map_eq_some_iff.mp hends.1
  obtain ⟨target, htarget, ht⟩ := Option.map_eq_some_iff.mp hends.2
  obtain ⟨hsourceId, hsourceDepth⟩ := Prod.mk.inj hs
  obtain ⟨htargetId, htargetDepth⟩ := Prod.mk.inj ht
  refine ⟨source, target, hsource, htarget, ?_, ?_, ?_⟩
  · rw [hsourceDepth]
    decide
  · rw [htargetDepth]
    decide
  · apply (protocolSucceeds_iff hsound hedge hsource htarget modeFills).mpr
    intro hsame
    rw [hsourceId, htargetId] at hsame
    cases hsame

/-- `File` owes D2 as the source of an edge to itself and D3 as its target. The second gap is
refused. -/
theorem not_protocolSucceeds_file : letI := asciiFolding
    ∃ file, GroundingEngine.writeFile.Sound ∧
      (candidateToFile "file").validateForGap (.reachability unconnectedFile) =
        .ok (edgeToFile "file") ∧
      GroundingEngine.writeFile.tables.named "file" = some file ∧
      ¬ ProtocolSucceeds modeFills GroundingEngine.writeFile unconnectedFile
        (candidateToFile "file") (edgeToFile "file") file.id file.id := by
  have hfile : letI := asciiFolding
      (GroundingEngine.writeFile.tables.named "file").map Primitive.contiguousMaxDepth =
        some (some .identity) := by
    decide +kernel
  let _ := asciiFolding
  have hsound : GroundingEngine.writeFile.Sound := Operation.sound_foldl _
  have hedge : (candidateToFile "file").validateForGap (.reachability unconnectedFile) =
      .ok (edgeToFile "file") := by
    decide
  obtain ⟨file, hnamed, hdepth⟩ := Option.map_eq_some_iff.mp hfile
  refine ⟨file, hsound, hedge, hnamed, ?_⟩
  rw [hsound.eq_idle]
  have hnone : ∀ required, .identity < required → ¬ Meets file.contiguousMaxDepth required := by
    intro required hlt
    rw [hdepth]
    exact not_le.mpr hlt
  exact not_protocolSucceeds hedge hsound.2 hnamed hnamed modeFills rfl
    (hnone .capabilities (by decide)) (hnone .constraints (by decide))

end LearningEngine

end Vre
