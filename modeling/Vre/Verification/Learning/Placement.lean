import Vre.Verification.Learning.Acceptance

/-! # Placing an edge

When both ends of a proposed edge are grounded as deeply as it asks, `learn_gap` either stores
that edge and nothing else, or it would close a cycle of transitive relata and raises.
-/

namespace Vre

namespace LearningEngine

open Relation

/-! ## The primitive that is saved -/

theorem perm_relata_attachRelatum {level : DepthLevel} (r : Relatum) (id : UUID)
    {depths : List Depth} (h : ∃ d ∈ depths, d.level = level) :
    ((attachRelatum level r depths).flatMap fun d => d.relata.map fun r => r.toRow id d.level).Perm
      (r.toRow id level :: depths.flatMap fun d => d.relata.map fun r => r.toRow id d.level) := by
  induction depths with
  | nil => simp at h
  | cons d rest ih =>
      by_cases hlevel : d.level = level
      · simp only [attachRelatum, hlevel, if_true, List.flatMap_cons, List.map_append,
          List.map_cons, List.map_nil, List.append_assoc, List.singleton_append]
        exact List.perm_middle
      · have hrest : ∃ d ∈ rest, d.level = level := by simpa [hlevel] using h
        simp only [attachRelatum, hlevel, if_false, List.flatMap_cons]
        exact ((ih hrest).append_left _).trans List.perm_middle

/-- The relata of a linked primitive are those it had, and the new one. -/
theorem perm_toRelata_linkedPrimitive {source : Primitive} {edge : EdgeProposal}
    (h : ∃ d ∈ source.depths, d.level = edge.sourceDepthLevel) (targetId : UUID)
    (provenance : Provenance) :
    (linkedPrimitive source edge targetId provenance).toRelata.Perm
      ((EdgeProposal.toRelatum edge targetId provenance).toRow source.id edge.sourceDepthLevel ::
        source.toRelata) := by
  have hsorted := List.perm_insertionSort (fun a b : Depth => a.level ≤ b.level)
    (attachRelatum edge.sourceDepthLevel (EdgeProposal.toRelatum edge targetId provenance)
      source.depths)
  exact (hsorted.flatMap_right _).trans (perm_relata_attachRelatum _ source.id h)

theorem Linked.storable {level : DepthLevel} {r : Relatum} {p p' : Primitive}
    (h : Linked level r p p') (hp : p.Storable) (hmetadata : Serializable r.metadata) :
    p'.Storable := by
  obtain ⟨stamp, hstamp, -⟩ := h.learned
  refine ⟨⟨h.provenance ▸ hp.primitive, fun d' hd' => ?_, fun d' hd' r' hr' => ?_⟩,
    fun d' hd' => ?_, fun d' hd' r' hr' => ?_⟩
  all_goals obtain ⟨d, hd, -, hproperties, hprovenance, hrelata⟩ := h.mem_depths hd'
  · exact hprovenance ▸ hp.depths d hd
  · rcases hrelata r' hr' with hold | ⟨-, rfl⟩
    · exact hp.relata d hd r' hold
    · rw [hstamp]
      rfl
  · exact hproperties ▸ hp.properties d hd
  · rcases hrelata r' hr' with hold | ⟨-, rfl⟩
    · exact hp.metadata d hd r' hold
    · exact hmetadata

/-! ## The cycle check -/

/-- The edge is transitive, and its target is its source or reaches it along stored transitive
relata. -/
def ClosesCycle (t : Tables) (edge : EdgeProposal) (sourceId targetId : UUID) : Prop :=
  edge.relationType ∈ transitiveRelationTypes ∧ ReflTransGen t.TransEdge targetId sourceId

/-- The store refuses an edge for the cycle it closes and for nothing else. -/
theorem accepts_linkedPrimitive [NameFolding] (draw : Draw) {t : Tables} (h : t.WellFormed)
    {edge : EdgeProposal} {source : Primitive} (hsource : t.live source.id = some source)
    (hdepth : Meets source.contiguousMaxDepth edge.sourceDepthLevel) {targetId : UUID}
    (htarget : t.Stored targetId) :
    let saved := linkedPrimitive source edge targetId (makeProvenance draw .learned)
    saved.Storable ∧ t.NameFree saved.toRow ∧ t.TargetsStored saved.id saved.toRelata ∧
      (t.NoCycle saved.id saved.toRelata ↔ ¬ ClosesCycle t edge source.id targetId) := by
  intro saved
  have hlinked := (linked_linkedPrimitive draw (h.toSchema.normal_live hsource) hdepth targetId).1
  have hrelata := perm_toRelata_linkedPrimitive hlinked.exists_depth targetId
    (makeProvenance draw .learned)
  have hcases : ∀ rp, rp ∈ saved.toRelata ↔
      rp = (EdgeProposal.toRelatum edge targetId (makeProvenance draw .learned)).toRow source.id
        edge.sourceDepthLevel ∨ rp ∈ t.outgoing source.id := by
    intro rp
    rw [hrelata.mem_iff, List.mem_cons, (Tables.perm_toRelata h hsource).mem_iff]
  have hbare : Serializable
      (EdgeProposal.toRelatum edge targetId (makeProvenance draw .learned)).metadata :=
    fun _ hmem => (nomatch hmem)
  refine ⟨hlinked.storable (h.toSchema.storable_live hsource) hbare,
    Sqlite.nameFree_of_stored h.toSchema (p := saved) hsource rfl, fun rp hrp => ?_, ?_, ?_⟩
  · rcases (hcases rp).mp hrp with rfl | hold
    · exact Or.inr htarget
    · exact Sqlite.targetsStored_outgoing h.toSchema source.id rp hold
  · rintro hno ⟨htype, hreach⟩
    exact hno _ ((hcases _).mpr (Or.inl rfl)) htype (Digraph.reach_without_iff.mpr hreach)
  · intro hopen rp hrp htype hreach
    rcases (hcases rp).mp hrp with rfl | hold
    · exact hopen ⟨htype, Digraph.reach_without_iff.mp hreach⟩
    · exact Sqlite.noCycle_outgoing h source.id rp hold htype hreach

/-! ## The call -/

/-- `t'` is `t` with the proposed edge: its row joins the relata, and its relatum joins those of
the source. -/
structure EdgePlaced (draw : Draw) (t t' : Tables) (edge : EdgeProposal)
    (sourceId targetId : UUID) : Prop where
  relata : t'.relata.Perm
    ((EdgeProposal.toRelatum edge targetId (makeProvenance draw .learned)).toRow sourceId
      edge.sourceDepthLevel :: t.relata)
  linked : ∃ p p', t.live sourceId = some p ∧
    Linked edge.sourceDepthLevel
      (EdgeProposal.toRelatum edge targetId (makeProvenance draw .learned)) p p' ∧
    Updated t t' p'

/-- The call stores exactly the edge, or it closes a cycle, raises and writes nothing. -/
def PlacesEdge [NameFolding] (draw : Draw) (db : SqliteRepository) (gap : ReachabilityGap)
    (candidate : ReachabilityCandidate) (edge : EdgeProposal) (sourceId targetId : UUID) : Prop :=
  (¬ ClosesCycle db.tables edge sourceId targetId ∧
    ∃ db', learnGap draw (.reachability gap) (.reachability candidate) db = .ok () db' ∧
      EdgePlaced draw db.tables db'.tables edge sourceId targetId) ∨
  (ClosesCycle db.tables edge sourceId targetId ∧
    ∃ exc, learnGap draw (.reachability gap) (.reachability candidate) db = .error exc db ∧
      exc.cls = .cyclicRelationshipError)

theorem edgePlaced_replace [NameFolding] (draw : Draw) {t : Tables} (h : t.WellFormed)
    {edge : EdgeProposal} {source : Primitive} (hsource : t.live source.id = some source)
    (hdepth : Meets source.contiguousMaxDepth edge.sourceDepthLevel) {targetId : UUID}
    {saved : Primitive}
    (hsaved : saved = linkedPrimitive source edge targetId (makeProvenance draw .learned))
    (haccepts : Sqlite.Accepts t saved) :
    EdgePlaced draw t (t.replace saved.toRow saved.toRelata) edge source.id targetId := by
  subst hsaved
  obtain ⟨hlinked, hnormal⟩ := linked_linkedPrimitive draw (h.toSchema.normal_live hsource) hdepth
    targetId
  refine ⟨?_, source, _, hsource, hlinked, Tables.live_replace h.toSchema haccepts hnormal⟩
  have hrelata := (perm_toRelata_linkedPrimitive hlinked.exists_depth targetId
    (makeProvenance draw .learned)).trans ((Tables.perm_toRelata h hsource).cons _)
  refine (hrelata.append_left _).trans (List.perm_middle.trans (List.Perm.cons _ ?_))
  exact Tables.perm_filter_outgoing t source.id

/-- Between two ends that are grounded deeply enough, the edge is placed unless it closes a
cycle. -/
theorem learnGap_places [NameFolding] (draw : Draw) {t : Tables} (h : t.WellFormed)
    {gap : ReachabilityGap} {candidate : ReachabilityCandidate} {edge : EdgeProposal}
    (hedge : candidate.validateForGap (.reachability gap) = .ok edge) {source target : Primitive}
    (hsource : t.named edge.sourceName = some source)
    (htarget : t.named edge.targetName = some target)
    (hsourceDepth : Meets source.contiguousMaxDepth edge.sourceDepthLevel)
    (htargetDepth : Meets target.contiguousMaxDepth edge.targetDepthLevel) :
    PlacesEdge draw ⟨t, none⟩ gap candidate edge source.id target.id := by
  have hlive := (Tables.live_of_named h.toSchema hsource).1
  have hstored := Tables.stored_of_live (Tables.live_of_named h.toSchema htarget).1
  have hlearned : Learned draw t (.reachability gap) (.reachability candidate) _ :=
    .edge hedge hsource htarget hsourceDepth htargetDepth
  obtain ⟨hstorable, hname, htargets, hcycle⟩ :=
    accepts_linkedPrimitive draw h hlive hsourceDepth hstored
  rcases learnGap_cases h.toSchema draw (.reachability gap) (.reachability candidate) with
    ⟨saved, hsaved, hsave⟩ | ⟨hnone, -⟩
  · have heq : saved = linkedPrimitive source edge target.id (makeProvenance draw .learned) := by
      cases hsaved with
      | fill htarget => cases htarget
      | edge hedge' hsource' htarget' =>
          cases hedge.symm.trans hedge'
          cases hsource.symm.trans hsource'
          cases htarget.symm.trans htarget'
          rfl
    rw [PlacesEdge, hsave]
    rcases Sqlite.savePrimitive_cases saved t with ⟨haccepts, hok⟩ | ⟨exc, hrefusal, herror⟩
    · refine Or.inl ⟨hcycle.mp (heq ▸ haccepts.no_cycle), _, hok, ?_⟩
      exact edgePlaced_replace draw h hlive hsourceDepth heq haccepts
    · rw [heq] at hrefusal
      have hcloses : ClosesCycle t edge source.id target.id := by
        by_contra hopen
        exact hrefusal.not_accepts ⟨hstorable, hname, hcycle.mpr hopen, htargets⟩
      refine Or.inr ⟨hcloses, exc, herror, ?_⟩
      cases hrefusal with
      | serialize herror => cases (serialize_eq hstorable).symm.trans herror
      | name _ htaken => exact absurd hname htaken
      | cycle _ _ _ hcls => exact hcls
      | target _ _ _ habsent => exact absurd htargets habsent
  · exact absurd hlearned (hnone _)

end LearningEngine

end Vre
