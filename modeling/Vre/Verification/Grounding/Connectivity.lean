import Vre.Verification.Grounding.Placeholders

/-! # The connectivity check

The stored roots fall into classes, the connected components of the graph that the frontier
shows. The check is anchored on one root, and blames every root outside the class of the
anchor.
-/

namespace Vre

namespace ResolvedSubgraph

open GroundingEngine

/-! ## The graph that the frontier shows -/

/-- A visible edge out of the frontier. -/
def ShownEdge (sg : ResolvedSubgraph) (a b : UUID) : Prop :=
  sg.OnFrontier a ∧ sg.VisibleEdge a b

instance (sg : ResolvedSubgraph) (e : EpistemicStep) : Decidable (sg.Sees e) :=
  inferInstanceAs (Decidable (Meets _ _))

def visibleEdges (sg : ResolvedSubgraph) : List EpistemicStep :=
  sg.edges.filter fun e => sg.Sees e

def shownEdges (sg : ResolvedSubgraph) : List EpistemicStep :=
  sg.visibleEdges.filter fun e =>
    e.sourceId ∈ reachableViaVisible (sg.roots.map Primitive.id) sg.visibleEdges

theorem stepEdge_visibleEdges (sg : ResolvedSubgraph) :
    StepEdge sg.visibleEdges = sg.VisibleEdge := by
  funext a b
  simp [StepEdge, visibleEdges, VisibleEdge, and_assoc]

theorem stepEdge_shownEdges (sg : ResolvedSubgraph) :
    StepEdge sg.shownEdges = sg.ShownEdge := by
  have hfrontier : ∀ id, id ∈ reachableViaVisible (sg.roots.map Primitive.id) sg.visibleEdges ↔
      sg.OnFrontier id := by
    intro id
    rw [mem_reachableViaVisible, stepEdge_visibleEdges]
    simp [OnFrontier]
  funext a b
  rw [ShownEdge, ← stepEdge_visibleEdges]
  simp only [StepEdge, shownEdges, List.mem_filter, decide_eq_true_eq, hfrontier, eq_iff_iff]
  constructor
  · rintro ⟨e, ⟨he, hsource⟩, rfl, rfl⟩
    exact ⟨hsource, e, he, rfl, rfl⟩
  · rintro ⟨hsource, e, he, rfl, rfl⟩
    exact ⟨e, ⟨he, hsource⟩, rfl, rfl⟩

instance (sg : ResolvedSubgraph) (a b : UUID) :
    Decidable (Digraph.Connected sg.ShownEdge a b) :=
  decidable_of_iff (b ∈ reachableUndirected a sg.shownEdges)
    (mem_reachableUndirected.trans (by rw [stepEdge_shownEdges]))

end ResolvedSubgraph

namespace GroundingEngine

/-! ## The first greatest element -/

/-- Every other element has a smaller key, or an equal one and a later position. -/
theorem firstMax_leads {α : Type} (key : α → ℕ) {pos : α → ℕ} {best : α} {rest : List α}
    (h : (best :: rest).Pairwise fun a b => pos a < pos b) :
    ∀ y ∈ best :: rest, y ≠ firstMax key best rest →
      key y < key (firstMax key best rest) ∨
        key y = key (firstMax key best rest) ∧ pos (firstMax key best rest) < pos y := by
  induction rest generalizing best with
  | nil => simp [firstMax]
  | cons x rest ih =>
      have hx := List.rel_of_pairwise_cons h List.mem_cons_self
      intro y hy hne
      unfold firstMax at hne ⊢
      by_cases hlt : key best < key x
      · simp only [hlt, if_true] at hne ⊢
        have hlead := ih h.of_cons
        rcases List.mem_cons.mp hy with rfl | hy
        · by_cases hfirst : x = firstMax key x rest
          · exact Or.inl (hfirst ▸ hlt)
          · have := hlead x List.mem_cons_self hfirst
            omega
        · exact hlead y hy hne
      · simp only [hlt, if_false] at hne ⊢
        have hkept : (best :: rest).Pairwise fun a b => pos a < pos b :=
          h.sublist ((List.sublist_cons_self x rest).cons_cons best)
        have hlead := ih hkept
        rcases List.mem_cons.mp hy with rfl | hy
        · exact hlead y List.mem_cons_self hne
        · rcases List.mem_cons.mp hy with rfl | hy
          · by_cases hfirst : best = firstMax key best rest
            · rw [← hfirst]
              omega
            · have := hlead best List.mem_cons_self hfirst
              omega
          · exact hlead y (List.mem_cons_of_mem best hy) hne

namespace Inquiry

/-! ## Components and the anchor -/

/-- Two ids in one component of the graph that the frontier shows. -/
abbrev Joined (q : Inquiry) (a b : UUID) : Prop :=
  Digraph.Connected q.subgraph.ShownEdge a b

/-- How many resolved primitives the component of an id has. -/
def componentSize (q : Inquiry) (id : UUID) : ℕ :=
  (q.subgraph.nodes.filter fun n => q.Joined id n.id).length

/-- The root `a` comes before `b` in the choice of the anchor: its component is larger, or
equally large and its name submitted earlier. -/
def Precedes [NameFolding] (q : Inquiry) (a b : Primitive) : Prop :=
  q.componentSize b.id < q.componentSize a.id ∨
    q.componentSize b.id = q.componentSize a.id ∧ firstAt q.concepts a < firstAt q.concepts b

instance [NameFolding] (q : Inquiry) (a b : Primitive) : Decidable (q.Precedes a b) :=
  inferInstanceAs (Decidable (_ ∨ _))

/-- The anchor of the connectivity check. -/
structure Leads [NameFolding] (q : Inquiry) (lead : Primitive) : Prop where
  root : lead ∈ q.subgraph.roots
  first : ∀ r ∈ q.subgraph.roots, r ≠ lead → q.Precedes lead r

theorem Precedes.asymm [NameFolding] {q : Inquiry} {a b : Primitive} (h : q.Precedes a b) :
    ¬ q.Precedes b a := by
  unfold Precedes at *
  omega

theorem Leads.unique [NameFolding] {q : Inquiry} {lead lead' : Primitive} (h : q.Leads lead)
    (h' : q.Leads lead') : lead = lead' := by
  by_contra hne
  exact (h.first lead' h'.root (Ne.symm hne)).asymm (h'.first lead h.root hne)

/-- The edges that the query keeps are those that the frontier shows. -/
theorem Apart.stepEdge_frontierVisible [NameFolding] {q : Inquiry} (h : q.Apart) :
    StepEdge q.frontierVisible = q.subgraph.ShownEdge := by
  funext a b
  refine propext ⟨?_, ?_⟩
  · rintro ⟨e, he, rfl, rfl⟩
    obtain ⟨hedge, hfrontier, hsees⟩ := h.mem_frontierVisible.mp he
    exact ⟨hfrontier, e, hedge, hsees, rfl, rfl⟩
  · rintro ⟨hfrontier, e, hedge, hsees, rfl, rfl⟩
    exact ⟨e, h.mem_frontierVisible.mpr ⟨hedge, hfrontier, hsees⟩, rfl, rfl⟩

theorem Apart.mem_component [NameFolding] {q : Inquiry} (h : q.Apart) {root id : UUID} :
    id ∈ reachableUndirected root q.frontierVisible ↔ q.Joined root id := by
  rw [mem_reachableUndirected, h.stepEdge_frontierVisible]

/-- A node off the edges is joined only to itself. -/
theorem Apart.joined_stored [NameFolding] {q : Inquiry} (h : q.Apart) {n : Primitive}
    (hn : n ∈ q.subgraph.nodes) {id : UUID} (hjoin : q.Joined n.id id) :
    ∃ n' ∈ q.subgraph.nodes, n'.id = id := by
  rcases Relation.ReflTransGen.cases_tail hjoin with rfl | ⟨a, -, hlink⟩
  · exact ⟨n, hn, rfl⟩
  · rcases hlink with ⟨-, e, he, -, -, rfl⟩ | ⟨-, e, he, -, rfl, -⟩
    · exact h.target_stored he
    · exact h.source_stored he

/-- The search counts the resolved primitives of the component. -/
theorem Apart.length_reachableUndirected [NameFolding] {q : Inquiry} (h : q.Apart)
    {n : Primitive} (hn : n ∈ q.subgraph.nodes) :
    (reachableUndirected n.id q.frontierVisible).length = q.componentSize n.id := by
  have hnodup : ((q.subgraph.nodes.filter fun n' => q.Joined n.id n'.id).map
      Primitive.id).Nodup :=
    h.coherent.nodup_ids.sublist (List.filter_sublist.map _)
  have hperm : (reachableUndirected n.id q.frontierVisible).Perm
      ((q.subgraph.nodes.filter fun n' => q.Joined n.id n'.id).map Primitive.id) := by
    apply (List.perm_ext_iff_of_nodup (nodup_reachableUndirected _ _) hnodup).mpr
    intro id
    simp only [h.mem_component, List.mem_map, List.mem_filter, decide_eq_true_eq]
    constructor
    · intro hjoin
      obtain ⟨n', hn', rfl⟩ := h.joined_stored hn hjoin
      exact ⟨n', ⟨hn', hjoin⟩, rfl⟩
    · rintro ⟨n', ⟨-, hjoin⟩, rfl⟩
      exact hjoin
  rw [hperm.length_eq, List.length_map, componentSize]

/-- The check blames the stored roots outside the class of the anchor, in order. -/
theorem Apart.exists_lead [NameFolding] {q : Inquiry} (h : q.Apart)
    (hne : q.storedRoots ≠ []) : ∃ lead, q.Leads lead ∧
      reachabilityGaps q.storedRoots q.frontierVisible =
        (q.storedRoots.filter fun r => ¬ q.Joined lead.id r.id).map
          fun r => .reachability ⟨r⟩ := by
  have horder := h.order_storedRoots
  have hroots : ∀ r, r ∈ q.storedRoots ↔ r ∈ q.subgraph.roots := fun _ => h.mem_storedRoots
  match hlist : q.storedRoots with
  | [] => exact absurd hlist hne
  | [r] =>
      have hself : q.Joined r.id r.id := .refl
      refine ⟨r, ⟨(hroots r).mp (by simp [hlist]), fun r' hr' hne' => ?_⟩, ?_⟩
      · have hr' := (hroots r').mpr hr'
        rw [hlist, List.mem_singleton] at hr'
        exact absurd hr' hne'
      · simp [reachabilityGaps, hself]
  | first :: second :: rest =>
      rw [hlist] at horder
      have hlead := firstMax_leads
        (fun r => (reachableUndirected r.id q.frontierVisible).length) horder
      have hmem := firstMax_mem (fun r => (reachableUndirected r.id q.frontierVisible).length)
        first (second :: rest)
      simp only [reachabilityGaps]
      generalize firstMax (fun r => (reachableUndirected r.id q.frontierVisible).length) first
        (second :: rest) = lead at hlead hmem ⊢
      rw [← hlist] at hlead hmem ⊢
      have hnode : ∀ r ∈ q.storedRoots, r ∈ q.subgraph.nodes :=
        fun r hr => h.node_of_root ((hroots r).mp hr)
      refine ⟨lead, ⟨(hroots lead).mp hmem, fun r hr hne' => ?_⟩, ?_⟩
      · have hr := (hroots r).mpr hr
        have hfirst := hlead r hr hne'
        rw [h.length_reachableUndirected (hnode r hr),
          h.length_reachableUndirected (hnode lead hmem)] at hfirst
        exact hfirst
      · refine congrArg _ (List.filter_congr fun r hr => decide_eq_decide.mpr ?_)
        simp only [h.mem_component]
        refine ⟨And.right, fun hnot => ⟨fun heq => hnot ?_, hnot⟩⟩
        rw [heq]
        exact .refl

/-! ## Who is blamed -/

/-- How many reachability gaps are about a primitive. -/
def blamed (gaps : List KnowledgeGap) (id : UUID) : ℕ :=
  gaps.countP fun gap => gap.kind = .reachability ∧ gap.subject.id = id

/-- The check blames each root outside the class of the anchor once. -/
theorem Apart.blamed_eq [NameFolding] {q : Inquiry} (h : q.Apart) {lead : Primitive}
    (hlead : q.Leads lead) {r : Primitive} (hr : r ∈ q.subgraph.roots) :
    blamed q.gaps r.id = if q.Joined lead.id r.id then 0 else 1 := by
  have hmem := h.mem_storedRoots.mpr hr
  obtain ⟨lead', hlead', hgaps⟩ := h.exists_lead (List.ne_nil_of_mem hmem)
  rw [hlead'.unique hlead] at hgaps
  have hkind : ∀ gap : KnowledgeGap, decide (gap.kind = .reachability ∧ gap.subject.id = r.id) =
      true → gap.kind = .reachability := fun gap hpass => (of_decide_eq_true hpass).1
  have hsame : ∀ r' ∈ q.storedRoots, r'.id = r.id ↔ r' = r := by
    refine fun r' hr' => ⟨fun hid => ?_, congrArg Primitive.id⟩
    exact h.node_unique (h.node_of_root (h.mem_storedRoots.mp hr')) (h.node_of_root hr) hid
  rw [blamed, List.countP_eq_length_filter, filter_gaps q hkind, gapsOf, hgaps,
    ← List.countP_eq_length_filter, List.countP_map, List.countP_filter]
  by_cases hjoin : q.Joined lead.id r.id
  · rw [if_pos hjoin, List.countP_eq_zero]
    intro r' hr'
    by_cases hid : r'.id = r.id
    · simp [(hsame r' hr').mp hid, hjoin]
    · simp [KnowledgeGap.subject, hid]
  · rw [if_neg hjoin, ← List.count_eq_one_of_mem h.nodup_storedRoots hmem, List.count]
    apply List.countP_congr
    intro r' hr'
    by_cases hid : r'.id = r.id
    · simp [(hsame r' hr').mp hid, hjoin, KnowledgeGap.kind, KnowledgeGap.subject]
    · have hne : r' ≠ r := fun heq => hid (congrArg Primitive.id heq)
      simp [KnowledgeGap.subject, hid, hne]

/-- The stored roots in the class of a root. -/
def classOf [NameFolding] (q : Inquiry) (r : Primitive) : List Primitive :=
  q.subgraph.roots.filter fun r' => q.Joined r.id r'.id

/-- A root whose class has more than half of the stored roots. -/
def Majority [NameFolding] (q : Inquiry) (r : Primitive) : Prop :=
  r ∈ q.subgraph.roots ∧ q.subgraph.roots.length < 2 * (q.classOf r).length

/-- The gaps blame the isolated concepts: outside a majority each root once, and nobody in it
or when all roots are joined. -/
structure ReportsMinority [NameFolding] (q : Inquiry) (gaps : List KnowledgeGap) : Prop where
  majority : ∀ r, q.Majority r → ∀ r' ∈ q.subgraph.roots,
    blamed gaps r'.id = if q.Joined r.id r'.id then 0 else 1
  whole : (∀ r ∈ q.subgraph.roots, ∀ r' ∈ q.subgraph.roots, q.Joined r.id r'.id) →
    ∀ gap ∈ gaps, gap.kind ≠ .reachability

/-- Every root outside a majority comes after some root of it in the choice of the anchor. -/
def MajorityLeads [NameFolding] (q : Inquiry) : Prop :=
  ∀ r, q.Majority r → ∀ other ∈ q.subgraph.roots, ¬ q.Joined r.id other.id →
    ∃ r' ∈ q.classOf r, q.Precedes r' other

theorem mem_classOf [NameFolding] {q : Inquiry} {r r' : Primitive} :
    r' ∈ q.classOf r ↔ r' ∈ q.subgraph.roots ∧ q.Joined r.id r'.id := by
  simp [classOf]

/-- The anchor stands in every majority exactly when the majorities lead. -/
theorem majorityLeads_iff [NameFolding] {q : Inquiry} {lead : Primitive}
    (hlead : q.Leads lead) :
    q.MajorityLeads ↔ ∀ r, q.Majority r → q.Joined r.id lead.id := by
  constructor
  · intro hleads r hr
    by_contra hnot
    obtain ⟨r', hr', hprecedes⟩ := hleads r hr lead hlead.root hnot
    obtain ⟨hroot, hjoin⟩ := mem_classOf.mp hr'
    have hne : r' ≠ lead := fun heq => hnot (heq ▸ hjoin)
    exact hprecedes.asymm (hlead.first r' hroot hne)
  · intro hall r hr other hother hnot
    have hjoin := hall r hr
    have hne : other ≠ lead := fun heq => hnot (heq ▸ hjoin)
    exact ⟨lead, mem_classOf.mpr ⟨hlead.root, hjoin⟩, hlead.first other hother hne⟩

theorem Apart.reportsMinority_iff [NameFolding] {q : Inquiry} (h : q.Apart) :
    q.ReportsMinority q.gaps ↔ q.MajorityLeads := by
  by_cases hnil : q.storedRoots = []
  · have hroots : ∀ r, r ∉ q.subgraph.roots := by
      intro r hr
      have hr := h.mem_storedRoots.mpr hr
      rw [hnil] at hr
      cases hr
    refine ⟨fun _ r hr => absurd hr.1 (hroots r), fun _ => ⟨fun r hr => absurd hr.1 (hroots r), ?_⟩⟩
    intro _ gap hgap hkind
    rw [mem_gaps, hkind, gapsOf, hnil] at hgap
    cases hgap
  · obtain ⟨lead, hlead, hgaps⟩ := h.exists_lead hnil
    rw [majorityLeads_iff hlead]
    constructor
    · intro hreports r hr
      by_contra hnot
      have hself : q.Joined r.id r.id := .refl
      have hcount := hreports.majority r hr r hr.1
      rw [if_pos hself, h.blamed_eq hlead hr.1, if_neg fun hjoin => hnot hjoin.symm] at hcount
      cases hcount
    · intro hall
      refine ⟨fun r hr r' hr' => ?_, fun hjoined gap hgap => ?_⟩
      · have hjoin := hall r hr
        rw [h.blamed_eq hlead hr']
        exact if_congr ⟨fun hlead' => hjoin.trans hlead', fun hr'' => hjoin.symm.trans hr''⟩
          rfl rfl
      · intro hkind
        rw [mem_gaps, hkind, gapsOf, hgaps] at hgap
        obtain ⟨r, hr, rfl⟩ := List.mem_map.mp hgap
        obtain ⟨hr, hnot⟩ := List.mem_filter.mp hr
        exact absurd (hjoined lead hlead.root r (h.mem_storedRoots.mp hr)) (by simpa using hnot)

end Inquiry

/-- The connectivity check reports the isolated concepts, and not a majority, exactly when
every majority leads: no root outside it has a larger component, nor an equally large one
under a name submitted before all of the class. -/
theorem query_reportsMinority_iff [NameFolding] {db : SqliteRepository} (h : db.tables.Schema)
    {draw : Draw} (hfresh : draw.Fresh db.tables) (concepts : List String)
    (minDepth : Option DepthLevel) :
    ∃ response, query draw db concepts minDepth = .ok response ∧
      ((db.tables.inquiry draw concepts minDepth).ReportsMinority response.result.gaps ↔
        (db.tables.inquiry draw concepts minDepth).MajorityLeads) :=
  ⟨_, query_eq h draw concepts minDepth, (hfresh.apart h concepts minDepth).reportsMinority_iff⟩

/-- `Copy` requires `File`, and `Log` requires `Disk` and `Clock`. -/
def outlyingLog [NameFolding] : SqliteRepository :=
  List.foldl Operation.next .fresh
    [.save (sample 0 "File" [.existence] []), .save (sample 1 "Disk" [.existence] []),
      .save (sample 2 "Clock" [.existence] []),
      .save (sample 3 "Copy" [.existence] [⟨.requires, 0, .existence, [], some authored⟩]),
      .save (sample 4 "Log" [.existence] [⟨.requires, 1, .existence, [], some authored⟩,
        ⟨.requires, 2, .existence, [], some authored⟩])]

theorem sound_outlyingLog [NameFolding] : outlyingLog.Sound := Operation.sound_foldl _

/-- A query of `outlyingLog`. -/
def askLog [NameFolding] (concepts : List String) : Inquiry :=
  outlyingLog.tables.inquiry ⟨fun i => i + 5, 0⟩ concepts none

/-- `Copy` and `File` are joined and two of three, yet they are blamed: the component of
`Log` is larger. -/
theorem not_reportsMinority_outlyingLog : letI := asciiFolding
    ∃ response, query ⟨fun i => i + 5, 0⟩ outlyingLog ["copy", "file", "log"] none = .ok response ∧
      ¬ (askLog ["copy", "file", "log"]).ReportsMinority response.result.gaps := by
  let _ := asciiFolding
  refine ⟨_, query_eq sound_outlyingLog.2.toSchema _ _ _, fun hreports => ?_⟩
  have hwrong : ∃ r ∈ (askLog ["copy", "file", "log"]).subgraph.roots,
      (askLog ["copy", "file", "log"]).subgraph.roots.length <
        2 * ((askLog ["copy", "file", "log"]).classOf r).length ∧
      Inquiry.blamed (askLog ["copy", "file", "log"]).gaps r.id = 1 := by decide +kernel
  obtain ⟨r, hr, hclass, hblamed⟩ := hwrong
  have hself : (askLog ["copy", "file", "log"]).Joined r.id r.id := .refl
  have hspared := (hreports.majority r ⟨hr, hclass⟩ r hr).trans (if_pos hself)
  exact absurd (hblamed.symm.trans hspared) (by decide)

theorem majorityLeads_outlyingLog : letI := asciiFolding
    (askLog ["disk", "copy", "file"]).MajorityLeads := by
  have hleads : letI := asciiFolding
      ∀ r ∈ (askLog ["disk", "copy", "file"]).subgraph.roots,
        ∀ other ∈ (askLog ["disk", "copy", "file"]).subgraph.roots,
          (askLog ["disk", "copy", "file"]).subgraph.roots.length <
            2 * ((askLog ["disk", "copy", "file"]).classOf r).length →
          ¬ (askLog ["disk", "copy", "file"]).Joined r.id other.id →
          ∃ r' ∈ (askLog ["disk", "copy", "file"]).classOf r,
            (askLog ["disk", "copy", "file"]).Precedes r' other := by decide +kernel
  exact fun r hr other hother => hleads r hr.1 other hother hr.2

/-- Against `Disk` alone, the two lead. -/
theorem query_reportsMinority_outlyingLog : letI := asciiFolding
    ∃ response, query ⟨fun i => i + 5, 0⟩ outlyingLog ["disk", "copy", "file"] none =
        .ok response ∧
      (askLog ["disk", "copy", "file"]).ReportsMinority response.result.gaps := by
  let _ := asciiFolding
  have hfresh : Draw.Fresh ⟨fun i => i + 5, 0⟩ outlyingLog.tables :=
    Draw.fresh_above 0 (by decide)
  obtain ⟨response, hquery, hiff⟩ := query_reportsMinority_iff sound_outlyingLog.2.toSchema hfresh
    ["disk", "copy", "file"] none
  exact ⟨response, hquery, hiff.mpr majorityLeads_outlyingLog⟩

end GroundingEngine

end Vre
