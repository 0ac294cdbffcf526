import Vre.Verification.Grounding.Requirements

/-! # Symmetry of the submitted concepts

Two submissions of the same names, in any order, number and casing, resolve the same subgraph
and show the same frontier. They owe the same knowledge, and differ at most in the anchor of
the connectivity check.
-/

namespace Vre

/-- The same names up to folding, in any order and number. -/
def SameNames [NameFolding] (concepts concepts' : List String) : Prop :=
  ∀ k, k ∈ concepts.map foldName ↔ k ∈ concepts'.map foldName

theorem Tables.subgraph_congr [NameFolding] {concepts concepts' : List String}
    (h : SameNames concepts concepts') (t : Tables) :
    t.subgraph concepts = t.subgraph concepts' := by
  have hnamed : ∀ k, decide (k ∈ concepts.map foldName) = decide (k ∈ concepts'.map foldName) :=
    fun k => decide_eq_decide.mpr (h k)
  have hids : Sqlite.reachableIds t concepts = Sqlite.reachableIds t concepts' := by
    simp only [Sqlite.reachableIds, hnamed]
  have hnodes : t.closureNodes concepts = t.closureNodes concepts' := by
    have hrow : t.nodeRow concepts = t.nodeRow concepts' := by
      funext row
      simp only [nodeRow, inner, hids]
    simp only [closureNodes, hids, hrow]
  simp only [subgraph, closureRelata, hids, hnodes, hnamed]

/-! ## What a gap says -/

/-- A gap up to the identity of its primitives: its kind, the folded names it gives, and the
depths. -/
structure GapView where
  kind : GapKind
  names : List String
  required : Option DepthLevel
  current : Option DepthLevel
  deriving DecidableEq, Repr

def KnowledgeGap.view [NameFolding] : KnowledgeGap → GapView
  | .depth g => ⟨.depth, [g.primitive.nameLower], some g.requiredDepth, g.currentDepth⟩
  | .existence g => ⟨.existence, [g.primitive.nameLower], none, none⟩
  | .relational g =>
      ⟨.relational, [g.source.nameLower, g.target.nameLower], some g.requiredDepth, g.currentDepth⟩
  | .reachability g => ⟨.reachability, [g.primitive.nameLower], none, none⟩

/-- The same verdict and the same gaps. -/
structure GroundingResult.Alike [NameFolding] (r r' : GroundingResult) : Prop where
  verdict : r.grounded = r'.grounded
  gaps : (r.gaps.map KnowledgeGap.view).Perm (r'.gaps.map KnowledgeGap.view)

namespace GroundingEngine

namespace Inquiry

/-! ## Two queries of the same names -/

/-- Two queries of the same names over the same subgraph, each with placeholders of its own. -/
structure Twin [NameFolding] (q q' : Inquiry) : Prop where
  apart : q.Apart
  apart' : q'.Apart
  subgraph : q'.subgraph = q.subgraph
  minDepth : q'.minDepth = q.minDepth
  names : SameNames q.concepts q'.concepts

theorem Twin.perm_existence [NameFolding] {q q' : Inquiry} (h : q.Twin q') :
    ((q.gapsOf .existence).map KnowledgeGap.view).Perm
      ((q'.gapsOf .existence).map KnowledgeGap.view) := by
  have hview : ∀ q : Inquiry, q.Apart → (q.gapsOf .existence).map KnowledgeGap.view =
      (q.transients.map Primitive.nameLower).map fun k => ⟨.existence, [k], none, none⟩ := by
    intro q h
    rw [gapsOf, h.existenceGaps_eq, List.map_map, List.map_map]
    rfl
  rw [hview q h.apart, hview q' h.apart']
  obtain ⟨hnodup, hmem⟩ := names_transients h.apart.coherent
  obtain ⟨hnodup', hmem'⟩ := names_transients h.apart'.coherent
  refine ((List.perm_ext_iff_of_nodup hnodup hnodup').mpr fun k => ?_).map _
  rw [hmem, hmem', h.subgraph, h.names]

theorem Twin.perm_depth [NameFolding] {q q' : Inquiry} (h : q.Twin q') :
    (q.gapsOf .depth).Perm (q'.gapsOf .depth) := by
  apply (List.perm_ext_iff_of_nodup h.apart.nodup_depth h.apart'.nodup_depth).mpr
  intro gap
  cases gap with
  | depth g =>
      have hleft : .depth g ∈ q.gaps ↔ .depth g ∈ q.gapsOf .depth := mem_gaps
      have hright : .depth g ∈ q'.gaps ↔ .depth g ∈ q'.gapsOf .depth := mem_gaps
      rw [← hleft, ← hright, h.apart.mem_depth_iff, h.apart'.mem_depth_iff, h.subgraph, h.minDepth]
  | _ => exact iff_of_false (notMem_gapsOf GapKind.noConfusion) (notMem_gapsOf GapKind.noConfusion)

theorem Twin.perm_relational [NameFolding] {q q' : Inquiry} (h : q.Twin q') :
    (q.gapsOf .relational).Perm (q'.gapsOf .relational) := by
  refine (List.perm_ext_iff_of_nodup h.apart.nodup_relational h.apart'.nodup_relational).mpr
    fun gap => ?_
  cases gap with
  | relational g =>
      have hleft : .relational g ∈ q.gaps ↔ .relational g ∈ q.gapsOf .relational := mem_gaps
      have hright : .relational g ∈ q'.gaps ↔ .relational g ∈ q'.gapsOf .relational := mem_gaps
      rw [← hleft, ← hright, h.apart.mem_relational_iff, h.apart'.mem_relational_iff, h.subgraph]
  | _ => exact iff_of_false (notMem_gapsOf GapKind.noConfusion) (notMem_gapsOf GapKind.noConfusion)

/-! ## The anchors of the two queries -/

/-- The two queries are anchored in the same class. -/
def SameAnchor [NameFolding] (q q' : Inquiry) : Prop :=
  ∀ lead lead', q.Leads lead → q'.Leads lead' → q.Joined lead.id lead'.id

theorem Twin.mem_storedRoots [NameFolding] {q q' : Inquiry} (h : q.Twin q') {r : Primitive} :
    r ∈ q.storedRoots ↔ r ∈ q'.storedRoots := by
  rw [h.apart.mem_storedRoots, h.apart'.mem_storedRoots, h.subgraph]

/-- The blamed roots, by name. -/
theorem Apart.view_reachability [NameFolding] {q : Inquiry} (h : q.Apart) {lead : Primitive}
    (hlead : q.Leads lead) : (q.gapsOf .reachability).map KnowledgeGap.view =
      ((q.storedRoots.filter fun r => ¬ q.Joined lead.id r.id).map Primitive.nameLower).map
        fun k => ⟨.reachability, [k], none, none⟩ := by
  obtain ⟨lead', hlead', hgaps⟩ :=
    h.exists_lead (List.ne_nil_of_mem (h.mem_storedRoots.mpr hlead.root))
  rw [gapsOf, hgaps, hlead'.unique hlead, List.map_map, List.map_map]
  rfl

theorem Twin.joined_iff [NameFolding] {q q' : Inquiry} (h : q.Twin q') {a b : UUID} :
    q'.Joined a b ↔ q.Joined a b := by
  rw [Joined, h.subgraph]

/-- An anchor of the second query that the first blames would be blamed by its own query. -/
theorem Twin.joined_of_perm [NameFolding] {q q' : Inquiry} (h : q.Twin q')
    {lead lead' : Primitive} (hlead : q.Leads lead) (hlead' : q'.Leads lead')
    (hperm : ((q.gapsOf .reachability).map KnowledgeGap.view).Perm
      ((q'.gapsOf .reachability).map KnowledgeGap.view)) : q.Joined lead.id lead'.id := by
  rw [h.apart.view_reachability hlead, h.apart'.view_reachability hlead'] at hperm
  by_contra hnot
  have hblamed : lead' ∈ q.storedRoots.filter fun r => ¬ q.Joined lead.id r.id :=
    List.mem_filter.mpr ⟨h.mem_storedRoots.mpr (h.apart'.mem_storedRoots.mpr hlead'.root),
      decide_eq_true hnot⟩
  obtain ⟨k, hk, hview⟩ := List.mem_map.mp
    (hperm.mem_iff.mp (List.mem_map_of_mem (List.mem_map_of_mem hblamed)))
  obtain ⟨r', hr', rfl⟩ := List.mem_map.mp hk
  obtain ⟨hr', hapart⟩ := List.mem_filter.mp hr'
  have hname : r'.nameLower = lead'.nameLower :=
    List.singleton_inj.mp (congrArg GapView.names hview)
  have hnode := h.apart'.node_of_root (h.apart'.mem_storedRoots.mp hr')
  have heq := List.inj_on_of_nodup_map h.apart'.coherent.nodup_names hnode
    (h.apart'.node_of_root hlead'.root) hname
  exact of_decide_eq_true hapart (heq ▸ .refl)

/-- Two anchors of one class blame the same roots. -/
theorem Twin.perm_of_joined [NameFolding] {q q' : Inquiry} (h : q.Twin q')
    {lead lead' : Primitive} (hlead : q.Leads lead) (hlead' : q'.Leads lead')
    (hjoin : q.Joined lead.id lead'.id) :
    ((q.gapsOf .reachability).map KnowledgeGap.view).Perm
      ((q'.gapsOf .reachability).map KnowledgeGap.view) := by
  have hroots : q.storedRoots.Perm q'.storedRoots :=
    (List.perm_ext_iff_of_nodup h.apart.nodup_storedRoots h.apart'.nodup_storedRoots).mpr
      fun r => h.mem_storedRoots
  have hclass : ∀ r, decide (¬ q'.Joined lead'.id r) = decide (¬ q.Joined lead.id r) := by
    intro r
    refine decide_eq_decide.mpr (not_congr ?_)
    rw [h.joined_iff]
    exact ⟨hjoin.trans, hjoin.symm.trans⟩
  rw [h.apart.view_reachability hlead, h.apart'.view_reachability hlead']
  simp only [hclass]
  exact ((hroots.filter _).map _).map _

/-- The reachability gaps are the same exactly when the anchors are in one class. -/
theorem Twin.perm_reachability [NameFolding] {q q' : Inquiry} (h : q.Twin q') :
    ((q.gapsOf .reachability).map KnowledgeGap.view).Perm
      ((q'.gapsOf .reachability).map KnowledgeGap.view) ↔ q.SameAnchor q' := by
  by_cases hnil : q.storedRoots = []
  · have hnil' : q'.storedRoots = [] :=
      List.eq_nil_iff_forall_not_mem.mpr fun r hr => by
        rw [← h.mem_storedRoots, hnil] at hr
        cases hr
    refine iff_of_true ?_ fun lead lead' hlead => ?_
    · rw [gapsOf, gapsOf, hnil, hnil']
      exact .refl _
    · have hroot := h.apart.mem_storedRoots.mpr hlead.root
      rw [hnil] at hroot
      cases hroot
  · obtain ⟨r, hr⟩ := List.exists_mem_of_ne_nil _ hnil
    obtain ⟨lead, hlead, -⟩ := h.apart.exists_lead hnil
    obtain ⟨lead', hlead', -⟩ := h.apart'.exists_lead (List.ne_nil_of_mem (h.mem_storedRoots.mp hr))
    constructor
    · intro hperm other other' hother hother'
      exact h.joined_of_perm hother hother' hperm
    · exact fun hsame => h.perm_of_joined hlead hlead' (hsame lead lead' hlead hlead')

/-! ## The whole gap list -/

/-- All that a submission can change of the gaps is whom the connectivity check blames. -/
theorem Twin.alike_iff [NameFolding] {q q' : Inquiry} (h : q.Twin q') :
    q.result.Alike q'.result ↔ q.SameAnchor q' := by
  have hknown : ((q.gapsOf .existence ++ q.gapsOf .depth ++ q.gapsOf .relational).map
      KnowledgeGap.view).Perm ((q'.gapsOf .existence ++ q'.gapsOf .depth ++
        q'.gapsOf .relational).map KnowledgeGap.view) := by
    simp only [List.map_append]
    exact (h.perm_existence.append (h.perm_depth.map _)).append (h.perm_relational.map _)
  have hgaps : (q.gaps.map KnowledgeGap.view).Perm (q'.gaps.map KnowledgeGap.view) ↔
      q.SameAnchor q' := by
    have hsplit : ∀ q : Inquiry, q.gaps.map KnowledgeGap.view =
        (q.gapsOf .existence ++ q.gapsOf .depth ++ q.gapsOf .relational).map KnowledgeGap.view ++
          (q.gapsOf .reachability).map KnowledgeGap.view :=
      fun q => q.gaps_eq ▸ List.map_append
    rw [hsplit, hsplit, ← h.perm_reachability]
    constructor
    · intro hperm
      exact (List.perm_append_left_iff _).mp (hperm.trans (hknown.symm.append_right _))
    · exact hknown.append
  refine ⟨fun halike => hgaps.mp halike.gaps, fun hsame => ?_⟩
  have hperm := hgaps.mpr hsame
  have hlength : q.gaps.length = q'.gaps.length := by simpa using hperm.length_eq
  refine ⟨Bool.eq_iff_iff.mpr ?_, hperm⟩
  simp only [result, List.isEmpty_iff, List.eq_nil_iff_length_eq_zero, hlength]

end Inquiry

/-- The same concepts in another order, number or casing are grounded alike exactly when both
submissions are anchored in one class: among the roots with the largest components, which name
is submitted first. -/
theorem ground_alike_iff [NameFolding] {db : SqliteRepository} (h : db.tables.Schema)
    {draw draw' : Draw} (hfresh : draw.Fresh db.tables) (hfresh' : draw'.Fresh db.tables)
    {concepts concepts' : List String} (hne : concepts ≠ []) (hne' : concepts' ≠ [])
    (hsame : SameNames concepts concepts') (minDepth : Option DepthLevel) :
    ∃ r r', ground draw db concepts minDepth = .ok r ∧
      ground draw' db concepts' minDepth = .ok r' ∧
      (r.Alike r' ↔ (db.tables.inquiry draw concepts minDepth).SameAnchor
        (db.tables.inquiry draw' concepts' minDepth)) := by
  have htwin : (db.tables.inquiry draw concepts minDepth).Twin
      (db.tables.inquiry draw' concepts' minDepth) :=
    ⟨hfresh.apart h concepts minDepth, hfresh'.apart h concepts' minDepth,
      (db.tables.subgraph_congr hsame).symm, rfl, hsame⟩
  exact ⟨_, _, ground_eq h draw hne minDepth, ground_eq h draw' hne' minDepth, htwin.alike_iff⟩

/-- `Disk` and `Clock` are isolated: the one submitted second is blamed. -/
theorem not_ground_alike_outlyingLog : letI := asciiFolding
    SameNames ["disk", "clock"] ["clock", "disk"] ∧
    ∃ r r', ground ⟨fun i => i + 5, 0⟩ outlyingLog ["disk", "clock"] none = .ok r ∧
      ground ⟨fun i => i + 5, 0⟩ outlyingLog ["clock", "disk"] none = .ok r' ∧ ¬ r.Alike r' := by
  let _ := asciiFolding
  have hschema := sound_outlyingLog.2.toSchema
  have hdiffer : letI := asciiFolding
      ¬ ((askLog ["disk", "clock"]).gaps.map KnowledgeGap.view).Perm
        ((askLog ["clock", "disk"]).gaps.map KnowledgeGap.view) := by decide +kernel
  refine ⟨fun k => ?_, _, _, ground_eq hschema _ (by simp) _, ground_eq hschema _ (by simp) _,
    fun halike => hdiffer halike.gaps⟩
  simp [or_comm]

theorem sameAnchor_outlyingLog : letI := asciiFolding
    (askLog ["copy", "file", "log"]).SameAnchor (askLog ["Log", "FILE", "copy", "log"]) := by
  have hleads : letI := asciiFolding
      ∀ lead ∈ (askLog ["copy", "file", "log"]).subgraph.roots,
        ∀ lead' ∈ (askLog ["Log", "FILE", "copy", "log"]).subgraph.roots,
          (∀ r ∈ (askLog ["copy", "file", "log"]).subgraph.roots,
            r ≠ lead → (askLog ["copy", "file", "log"]).Precedes lead r) →
          (∀ r ∈ (askLog ["Log", "FILE", "copy", "log"]).subgraph.roots,
            r ≠ lead' → (askLog ["Log", "FILE", "copy", "log"]).Precedes lead' r) →
          (askLog ["copy", "file", "log"]).Joined lead.id lead'.id := by decide +kernel
  let _ := asciiFolding
  exact fun lead lead' h h' => hleads lead h.root lead' h'.root h.first h'.first

/-- `Log` has the largest component, wherever it is submitted. -/
theorem ground_alike_outlyingLog : letI := asciiFolding
    ∃ r r', ground ⟨fun i => i + 5, 0⟩ outlyingLog ["copy", "file", "log"] none = .ok r ∧
      ground ⟨fun i => i + 5, 0⟩ outlyingLog ["Log", "FILE", "copy", "log"] none = .ok r' ∧
      r.Alike r' := by
  let _ := asciiFolding
  have hfresh : Draw.Fresh ⟨fun i => i + 5, 0⟩ outlyingLog.tables :=
    Draw.fresh_above 0 (by decide)
  have hfold : ["copy", "file", "log"].map foldName = ["copy", "file", "log"] ∧
      ["Log", "FILE", "copy", "log"].map foldName = ["log", "file", "copy", "log"] := by decide
  have hsame : SameNames ["copy", "file", "log"] ["Log", "FILE", "copy", "log"] := by
    intro k
    simp only [hfold, List.mem_cons, List.not_mem_nil]
    tauto
  obtain ⟨r, r', hr, hr', hiff⟩ := ground_alike_iff sound_outlyingLog.2.toSchema hfresh hfresh
    (by simp) (by simp) hsame none
  exact ⟨r, r', hr, hr', hiff.mpr sameAnchor_outlyingLog⟩

end GroundingEngine

end Vre
