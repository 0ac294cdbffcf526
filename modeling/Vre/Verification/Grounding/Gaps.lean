import Vre.Library.Digraph
import Vre.Verification.Grounding.Roots
import Vre.Verification.Knowledge.Contiguity

/-! # The gaps of a query

Each gap that a query reports is traced back to the edge, the root or the concept that
demands it, and the gap list is empty exactly when nothing on the frontier is owed.
-/

namespace Vre

namespace GroundingEngine

/-! ## Edges and the search along them -/

/-- An edge of a list of steps. -/
def StepEdge (edges : List EpistemicStep) (a b : UUID) : Prop :=
  ∃ e ∈ edges, e.sourceId = a ∧ e.targetId = b

/-- The search finds what the edges reach from the roots. -/
theorem mem_reachableViaVisible {rootIds : List UUID} {edges : List EpistemicStep} {id : UUID} :
    id ∈ reachableViaVisible rootIds edges ↔
      ∃ r ∈ rootIds, Relation.ReflTransGen (StepEdge edges) r id := by
  have hadj : ∀ a b, b ∈ adjacentTo edges a ↔ StepEdge edges a b := by
    intro a b
    simp [adjacentTo, StepEdge, and_assoc]
  have hrel : (fun a b => b ∈ adjacentTo edges a) = StepEdge edges := by
    funext a b
    exact propext (hadj a b)
  have hnodes : ∀ a, Worklist.Reach (adjacentTo edges) rootIds a →
      ∀ b ∈ adjacentTo edges a, b ∈ edges.map EpistemicStep.targetId := by
    intro a _ b hb
    obtain ⟨e, he, -, rfl⟩ := (hadj a b).mp hb
    exact List.mem_map_of_mem he
  rw [reachableViaVisible, Worklist.mem_search hnodes, Worklist.Reach, hrel]

/-- A query over a resolved subgraph. -/
structure Inquiry where
  draw : Draw
  concepts : List String
  minDepth : Option DepthLevel
  subgraph : ResolvedSubgraph

namespace Inquiry

/-! ## The quantities of a query -/

def roots [NameFolding] (q : Inquiry) : List Primitive :=
  (identifyRoots q.draw q.concepts q.subgraph.roots).1

def transients [NameFolding] (q : Inquiry) : List Primitive :=
  (identifyRoots q.draw q.concepts q.subgraph.roots).2

def rootIds [NameFolding] (q : Inquiry) : List UUID :=
  q.roots.map Primitive.id

def transientIds [NameFolding] (q : Inquiry) : List UUID :=
  q.transients.map Primitive.id

def allNodes [NameFolding] (q : Inquiry) : List Primitive :=
  q.subgraph.nodes ++ q.transients

/-- The contiguous max depth that the query sees at an id. -/
def depth [NameFolding] (q : Inquiry) (id : UUID) : Option DepthLevel :=
  depthOf (idToPrim q.allNodes) id

def visible [NameFolding] (q : Inquiry) : List EpistemicStep :=
  (partitionEdges q.subgraph.edges (idToPrim q.allNodes)).1

def gated [NameFolding] (q : Inquiry) : List EpistemicStep :=
  (partitionEdges q.subgraph.edges (idToPrim q.allNodes)).2

def frontier [NameFolding] (q : Inquiry) : List UUID :=
  reachableViaVisible q.rootIds q.visible

def frontierVisible [NameFolding] (q : Inquiry) : List EpistemicStep :=
  q.visible.filter fun e => e.sourceId ∈ q.frontier

def frontierGated [NameFolding] (q : Inquiry) : List EpistemicStep :=
  q.gated.filter fun e => e.sourceId ∈ q.frontier

/-- The existence, depth and relational gaps. -/
def knowledgeGaps [NameFolding] (q : Inquiry) : List KnowledgeGap :=
  detectGaps q.allNodes q.frontierVisible q.frontierGated q.rootIds q.transientIds q.minDepth

def storedRoots [NameFolding] (q : Inquiry) : List Primitive :=
  q.roots.filter fun r => r.id ∉ q.transientIds

def gaps [NameFolding] (q : Inquiry) : List KnowledgeGap :=
  q.knowledgeGaps ++ reachabilityGaps q.storedRoots q.frontierVisible

def response [NameFolding] (q : Inquiry) : EpistemicResponse :=
  ⟨⟨q.rootIds⟩,
    ⟨filterDepths (q.allNodes.filter fun n => n.id ∈ q.frontier), q.gaps, q.frontierVisible⟩⟩

theorem respond_eq [NameFolding] (q : Inquiry) (h : q.subgraph.Coherent q.concepts) :
    respond q.draw q.concepts q.minDepth q.subgraph = .ok q.response :=
  Loops.except_seq_ok.mpr ⟨validateEdgeEndpoints_ok h q.transients, rfl⟩

/-! ## The frontier -/

/-- An edge the query lets through. -/
def VisibleEdge [NameFolding] (q : Inquiry) (a b : UUID) : Prop :=
  ∃ e ∈ q.visible, e.sourceId = a ∧ e.targetId = b

theorem mem_visible [NameFolding] {q : Inquiry} {e : EpistemicStep} :
    e ∈ q.visible ↔ e ∈ q.subgraph.edges ∧ Meets (q.depth e.sourceId) e.sourceDepth := by
  simp [visible, partitionEdges, isVisible, depth]

theorem mem_gated [NameFolding] {q : Inquiry} {e : EpistemicStep} :
    e ∈ q.gated ↔ e ∈ q.subgraph.edges ∧ ¬ Meets (q.depth e.sourceId) e.sourceDepth := by
  simp [gated, partitionEdges, isVisible, depth]

theorem mem_frontier [NameFolding] {q : Inquiry} {id : UUID} :
    id ∈ q.frontier ↔ ∃ r ∈ q.rootIds, Relation.ReflTransGen q.VisibleEdge r id :=
  mem_reachableViaVisible

theorem root_mem_frontier [NameFolding] {q : Inquiry} {id : UUID} (h : id ∈ q.rootIds) :
    id ∈ q.frontier :=
  mem_frontier.mpr ⟨id, h, .refl⟩

theorem mem_frontierVisible [NameFolding] {q : Inquiry} {e : EpistemicStep} :
    e ∈ q.frontierVisible ↔ e ∈ q.subgraph.edges ∧ e.sourceId ∈ q.frontier ∧
      Meets (q.depth e.sourceId) e.sourceDepth := by
  simp only [frontierVisible, List.mem_filter, mem_visible, decide_eq_true_eq]
  tauto

theorem mem_frontierGated [NameFolding] {q : Inquiry} {e : EpistemicStep} :
    e ∈ q.frontierGated ↔ e ∈ q.subgraph.edges ∧ e.sourceId ∈ q.frontier ∧
      ¬ Meets (q.depth e.sourceId) e.sourceDepth := by
  simp only [frontierGated, List.mem_filter, mem_gated, decide_eq_true_eq]
  tauto

/-- The target of a frontier edge is on the frontier. -/
theorem target_mem_frontier [NameFolding] {q : Inquiry} {e : EpistemicStep}
    (h : e ∈ q.frontierVisible) : e.targetId ∈ q.frontier := by
  obtain ⟨hedge, hsource, hmeets⟩ := mem_frontierVisible.mp h
  obtain ⟨r, hr, hpath⟩ := mem_frontier.mp hsource
  exact mem_frontier.mpr ⟨r, hr, hpath.tail ⟨e, mem_visible.mpr ⟨hedge, hmeets⟩, rfl, rfl⟩⟩

/-! ## Stored nodes -/

theorem get?_prims [NameFolding] {q : Inquiry} (h : q.subgraph.Coherent q.concepts) {id : UUID}
    (hid : id ∉ q.transientIds) {p : Primitive} :
    (idToPrim q.allNodes).get? id = some p ↔ p ∈ q.subgraph.nodes ∧ p.id = id :=
  get?_idToPrim h.nodup_ids hid

/-- Away from the placeholders the query sees the depth of the resolved node. -/
theorem depth_eq [NameFolding] {q : Inquiry} (h : q.subgraph.Coherent q.concepts) {p : Primitive}
    (hp : p ∈ q.subgraph.nodes) (hid : p.id ∉ q.transientIds) :
    q.depth p.id = p.contiguousMaxDepth := by
  rw [depth, depthOf, (get?_prims h hid).mpr ⟨hp, rfl⟩]
  rfl

theorem id_of_get?_prims [NameFolding] {q : Inquiry} {id : UUID} {p : Primitive}
    (h : (idToPrim q.allNodes).get? id = some p) : p.id = id := by
  obtain ⟨p', -, heq⟩ := List.mem_map.mp (OrderedDict.mem_of_get?_ofItems h)
  cases heq
  rfl

/-! ## What demands a gap -/

theorem mem_depthRequirements [NameFolding] {q : Inquiry} {id : UUID}
    {need : DepthLevel × Option DepthLevel} :
    (id, need) ∈ depthRequirements q.allNodes q.frontierGated q.rootIds q.transientIds q.minDepth ↔
      (∃ e ∈ q.frontierGated, e.sourceId ∉ q.transientIds ∧ e.sourceId = id ∧
        (e.sourceDepth, q.depth e.sourceId) = need) ∨
      ∃ floor, q.minDepth = some floor ∧ ∃ n ∈ q.allNodes, n.id ∉ q.transientIds ∧
        n.id ∈ q.rootIds ∧ ¬ Meets n.contiguousMaxDepth floor ∧ n.id = id ∧
        (floor, n.contiguousMaxDepth) = need := by
  unfold depthRequirements
  rw [List.mem_append]
  refine or_congr ?_ ?_
  · rw [List.mem_filterMap]
    refine exists_congr fun e => and_congr_right fun _ => ?_
    by_cases htransient : e.sourceId ∈ q.transientIds
    · simp [htransient]
    · simp [htransient, depth]
  · cases q.minDepth with
    | none => simp
    | some floor => simp [and_assoc]

theorem mem_relatumRequirements [NameFolding] {q : Inquiry} {pair : UUID × UUID}
    {need : DepthLevel} :
    (pair, need) ∈ relatumRequirements q.allNodes q.frontierVisible q.transientIds ↔
      ∃ e ∈ q.frontierVisible, e.targetId ∉ q.transientIds ∧
        ¬ Meets (q.depth e.targetId) e.targetDepth ∧ (e.sourceId, e.targetId) = pair ∧
        e.targetDepth = need := by
  unfold relatumRequirements
  rw [List.mem_filterMap]
  refine exists_congr fun e => and_congr_right fun _ => ?_
  by_cases htransient : e.targetId ∈ q.transientIds
  · simp [htransient]
  · by_cases hmeets : Meets (q.depth e.targetId) e.targetDepth
    · have hskip := hmeets
      rw [depth] at hskip
      simp [htransient, hmeets, hskip]
    · have hkeep := hmeets
      rw [depth] at hkeep
      simp [htransient, hmeets, hkeep]

/-- A root outside the placeholders is a resolved root. -/
theorem mem_roots_of_stored [NameFolding] {q : Inquiry} (h : q.subgraph.Coherent q.concepts)
    {p : Primitive} (hp : p ∈ q.subgraph.nodes) (hstored : p.id ∉ q.transientIds)
    (hroot : p.id ∈ q.rootIds) : p ∈ q.subgraph.roots := by
  obtain ⟨r, hr, hid⟩ := List.mem_map.mp hroot
  rcases ((identifyRoots_spec h q.draw).1 r).mp hr with htransient | hr
  · exact absurd (List.mem_map.mpr ⟨r, htransient, hid⟩) hstored
  · have heq := List.inj_on_of_nodup_map h.nodup_ids (h.mem_roots.mp hr).1 hp hid
    exact heq ▸ hr

/-- What a reported depth gap says: the node it names is resolved, its current depth is the
node's, and a gated frontier edge or the override demands more. -/
structure OwesDepth [NameFolding] (q : Inquiry) (g : DepthGap) : Prop where
  mem : g.primitive ∈ q.subgraph.nodes
  stored : g.primitive.id ∉ q.transientIds
  current : g.currentDepth = g.primitive.contiguousMaxDepth
  unmet : ¬ Meets g.currentDepth g.requiredDepth
  demand : (∃ e ∈ q.frontierGated, e.sourceId = g.primitive.id ∧ e.sourceDepth = g.requiredDepth) ∨
    q.minDepth = some g.requiredDepth ∧ g.primitive ∈ q.subgraph.roots

/-- What a reported relational gap says: a visible frontier edge demands more of its target
than the target has. -/
structure OwesTarget [NameFolding] (q : Inquiry) (g : RelationalGap) : Prop where
  mem : g.target ∈ q.subgraph.nodes
  stored : g.target.id ∉ q.transientIds
  current : g.currentDepth = g.target.contiguousMaxDepth
  unmet : ¬ Meets g.currentDepth g.requiredDepth
  demand : ∃ e ∈ q.frontierVisible, e.sourceId = g.source.id ∧ e.targetId = g.target.id ∧
    e.targetDepth = g.requiredDepth

theorem owesDepth_of_mem [NameFolding] {q : Inquiry} (h : q.subgraph.Coherent q.concepts)
    {gap : KnowledgeGap}
    (hgap : gap ∈ depthGaps q.allNodes q.frontierGated q.rootIds q.transientIds q.minDepth) :
    ∃ g, gap = .depth g ∧ q.OwesDepth g := by
  obtain ⟨⟨id, need⟩, hentry, hmap⟩ := List.mem_filterMap.mp hgap
  obtain ⟨p, hp, rfl⟩ := Option.map_eq_some_iff.mp hmap
  refine ⟨_, rfl, ?_⟩
  have hitem := (OrderedDict.best_of_mergeMax ((OrderedDict.mem_entries_iff _ _ _).mp hentry)).1
  rcases mem_depthRequirements.mp hitem with
    ⟨e, he, hstored, rfl, rfl⟩ | ⟨floor, hfloor, n, hn, hstored, hroot, hunmet, rfl, rfl⟩
  · obtain ⟨hmem, hid⟩ := (get?_prims h hstored).mp hp
    have hdepth := depth_eq h hmem (hid.symm ▸ hstored)
    rw [hid] at hdepth
    exact ⟨hmem, hid.symm ▸ hstored, hdepth, (mem_frontierGated.mp he).2.2,
      Or.inl ⟨e, he, hid.symm, rfl⟩⟩
  · have hn : n ∈ q.subgraph.nodes :=
      (List.mem_append.mp hn).resolve_right fun ht => hstored (List.mem_map_of_mem ht)
    rw [(get?_prims h hstored).mpr ⟨hn, rfl⟩] at hp
    cases hp
    exact ⟨hn, hstored, rfl, hunmet, Or.inr ⟨hfloor, mem_roots_of_stored h hn hstored hroot⟩⟩

theorem owesTarget_of_mem [NameFolding] {q : Inquiry} (h : q.subgraph.Coherent q.concepts)
    {gap : KnowledgeGap}
    (hgap : gap ∈ relationalGaps q.allNodes q.frontierVisible q.transientIds) :
    ∃ g, gap = .relational g ∧ q.OwesTarget g := by
  obtain ⟨⟨pair, need⟩, hentry, hbind⟩ := List.mem_filterMap.mp hgap
  obtain ⟨source, hsource, hmap⟩ := Option.bind_eq_some_iff.mp hbind
  obtain ⟨target, htarget, rfl⟩ := Option.map_eq_some_iff.mp hmap
  refine ⟨_, rfl, ?_⟩
  have hitem := (OrderedDict.best_of_mergeMax ((OrderedDict.mem_entries_iff _ _ _).mp hentry)).1
  obtain ⟨e, he, hstored, hunmet, rfl, rfl⟩ := mem_relatumRequirements.mp hitem
  obtain ⟨hmem, hid⟩ := (get?_prims h hstored).mp htarget
  have hdepth := depth_eq h hmem (hid.symm ▸ hstored)
  rw [hid] at hdepth
  exact ⟨hmem, hid.symm ▸ hstored, rfl, hdepth ▸ hunmet, e, he, (id_of_get?_prims hsource).symm,
    hid.symm, rfl⟩

/-! ## The kinds of the gaps -/

/-- The gaps of one kind, in the order of the response. -/
def gapsOf [NameFolding] (q : Inquiry) : GapKind → List KnowledgeGap
  | .existence => existenceGaps q.allNodes q.transientIds
  | .depth => depthGaps q.allNodes q.frontierGated q.rootIds q.transientIds q.minDepth
  | .relational => relationalGaps q.allNodes q.frontierVisible q.transientIds
  | .reachability => reachabilityGaps q.storedRoots q.frontierVisible

theorem gaps_eq [NameFolding] (q : Inquiry) : q.gaps =
    q.gapsOf .existence ++ q.gapsOf .depth ++ q.gapsOf .relational ++ q.gapsOf .reachability :=
  rfl

theorem reachability_of_mem {roots : List Primitive} {edges : List EpistemicStep}
    {gap : KnowledgeGap} (h : gap ∈ reachabilityGaps roots edges) :
    ∃ g, gap = .reachability g := by
  unfold reachabilityGaps at h
  split at h
  · obtain ⟨r, -, rfl⟩ := List.mem_map.mp h
    exact ⟨_, rfl⟩
  · cases h

theorem kind_gapsOf [NameFolding] {q : Inquiry} {kind : GapKind} {gap : KnowledgeGap}
    (h : gap ∈ q.gapsOf kind) : gap.kind = kind := by
  cases kind with
  | existence =>
      obtain ⟨n, -, rfl⟩ := List.mem_map.mp h
      rfl
  | depth =>
      obtain ⟨e, -, hmap⟩ := List.mem_filterMap.mp h
      obtain ⟨p, -, rfl⟩ := Option.map_eq_some_iff.mp hmap
      rfl
  | relational =>
      obtain ⟨e, -, hbind⟩ := List.mem_filterMap.mp h
      obtain ⟨source, -, hmap⟩ := Option.bind_eq_some_iff.mp hbind
      obtain ⟨target, -, rfl⟩ := Option.map_eq_some_iff.mp hmap
      rfl
  | reachability =>
      obtain ⟨g, rfl⟩ := reachability_of_mem h
      rfl

theorem notMem_gapsOf [NameFolding] {q : Inquiry} {kind : GapKind} {gap : KnowledgeGap}
    (h : gap.kind ≠ kind) : gap ∉ q.gapsOf kind :=
  fun hgap => h (kind_gapsOf hgap)

theorem mem_gaps [NameFolding] {q : Inquiry} {gap : KnowledgeGap} :
    gap ∈ q.gaps ↔ gap ∈ q.gapsOf gap.kind := by
  simp only [gaps_eq, List.mem_append]
  constructor
  · rintro (((h | h) | h) | h) <;> exact (kind_gapsOf h).symm ▸ h
  · intro h
    cases hkind : gap.kind <;> rw [hkind] at h <;> simp [h]

/-- A test that only gaps of one kind pass picks among the gaps of that kind. -/
theorem filter_gaps [NameFolding] (q : Inquiry) {about : KnowledgeGap → Bool} {kind : GapKind}
    (habout : ∀ gap, about gap = true → gap.kind = kind) :
    q.gaps.filter about = (q.gapsOf kind).filter about := by
  have hother : ∀ other, other ≠ kind → (q.gapsOf other).filter about = [] :=
    fun other hne => List.filter_eq_nil_iff.mpr fun gap hgap hpass =>
      hne ((kind_gapsOf hgap).symm.trans (habout gap hpass))
  rw [gaps_eq, List.filter_append, List.filter_append, List.filter_append]
  cases kind <;> simp [hother]

/-- Every gap of a query, and what it says. -/
theorem gap_cases [NameFolding] {q : Inquiry} (h : q.subgraph.Coherent q.concepts)
    {gap : KnowledgeGap} (hgap : gap ∈ q.gaps) :
    (∃ g, gap = .existence g ∧ g.primitive ∈ q.allNodes ∧ g.primitive.id ∈ q.transientIds) ∨
    (∃ g, gap = .depth g ∧ q.OwesDepth g) ∨ (∃ g, gap = .relational g ∧ q.OwesTarget g) ∨
    ∃ g, gap = .reachability g := by
  rcases List.mem_append.mp hgap with hgap | hgap
  · rcases List.mem_append.mp hgap with hgap | hgap
    · rcases List.mem_append.mp hgap with hgap | hgap
      · obtain ⟨n, hn, rfl⟩ := List.mem_map.mp hgap
        obtain ⟨hmem, hid⟩ := List.mem_filter.mp hn
        exact Or.inl ⟨_, rfl, hmem, by simpa using hid⟩
      · exact Or.inr (Or.inl (owesDepth_of_mem h hgap))
    · exact Or.inr (Or.inr (Or.inl (owesTarget_of_mem h hgap)))
  · exact Or.inr (Or.inr (Or.inr (reachability_of_mem hgap)))

/-! ## When nothing is owed -/

/-- Everything the frontier can see is satisfied. -/
structure Satisfied [NameFolding] (q : Inquiry) : Prop where
  known : q.transients = []
  edges : ∀ e ∈ q.subgraph.edges, e.sourceId ∈ q.frontier →
    Meets (q.depth e.sourceId) e.sourceDepth ∧ Meets (q.depth e.targetId) e.targetDepth
  floor : ∀ floor, q.minDepth = some floor → ∀ r ∈ q.subgraph.roots,
    Meets r.contiguousMaxDepth floor

/-- A gated edge of a stored source is reported. -/
theorem depthGaps_ne_nil [NameFolding] {q : Inquiry} {id : UUID}
    {need : DepthLevel × Option DepthLevel} {p : Primitive}
    (hp : (idToPrim q.allNodes).get? id = some p)
    (hitem : (id, need) ∈
      depthRequirements q.allNodes q.frontierGated q.rootIds q.transientIds q.minDepth) :
    depthGaps q.allNodes q.frontierGated q.rootIds q.transientIds q.minDepth ≠ [] := by
  obtain ⟨w, hw⟩ := OrderedDict.exists_mem_mergeMax Prod.fst .empty hitem
  refine List.ne_nil_of_mem (a := .depth ⟨p, w.1, w.2⟩) (List.mem_filterMap.mpr ⟨_, hw, ?_⟩)
  simp only [hp, Option.map_some]

/-- An unmet target of a visible edge is reported. -/
theorem relationalGaps_ne_nil [NameFolding] {q : Inquiry} (pair : UUID × UUID) {need : DepthLevel}
    {source target : Primitive} (hsource : (idToPrim q.allNodes).get? pair.1 = some source)
    (htarget : (idToPrim q.allNodes).get? pair.2 = some target)
    (hitem : (pair, need) ∈ relatumRequirements q.allNodes q.frontierVisible q.transientIds) :
    relationalGaps q.allNodes q.frontierVisible q.transientIds ≠ [] := by
  obtain ⟨w, hw⟩ := OrderedDict.exists_mem_mergeMax id .empty hitem
  refine List.ne_nil_of_mem (a := .relational ⟨source, target, w, target.contiguousMaxDepth⟩)
    (List.mem_filterMap.mpr ⟨_, hw, ?_⟩)
  simp only [hsource, htarget, Option.bind_some, Option.map_some]

theorem existenceGaps_eq_nil [NameFolding] {q : Inquiry} :
    existenceGaps q.allNodes q.transientIds = [] ↔ q.transients = [] := by
  constructor
  · intro hnil
    apply List.eq_nil_iff_forall_not_mem.mpr
    intro r hr
    have hmem : r ∈ q.allNodes.filter fun node => node.id ∈ q.transientIds :=
      List.mem_filter.mpr ⟨List.mem_append_right _ hr, decide_eq_true (List.mem_map_of_mem hr)⟩
    rw [List.map_eq_nil_iff.mp hnil] at hmem
    cases hmem
  · intro hnone
    simp [existenceGaps, transientIds, hnone]

/-- Every requirement that is not met is reported. -/
theorem satisfied_of_knowledgeGaps [NameFolding] {q : Inquiry}
    (h : q.subgraph.Coherent q.concepts) (hnil : q.knowledgeGaps = []) : q.Satisfied := by
  simp only [knowledgeGaps, detectGaps, List.append_eq_nil_iff] at hnil
  obtain ⟨⟨hexistence, hdepth⟩, hrelational⟩ := hnil
  have hknown := existenceGaps_eq_nil.mp hexistence
  have hids : ∀ id, id ∉ q.transientIds := by simp [transientIds, hknown]
  have hfound : ∀ id ∈ q.subgraph.nodes.map Primitive.id,
      ∃ p, (idToPrim q.allNodes).get? id = some p := by
    intro id hid
    obtain ⟨p, hp, rfl⟩ := List.mem_map.mp hid
    exact ⟨p, (get?_prims h (hids _)).mpr ⟨hp, rfl⟩⟩
  refine ⟨hknown, fun e he hfrontier => ?_, fun floor hfloor r hr => ?_⟩
  · obtain ⟨source, hsource⟩ := hfound _ (h.sources e he)
    obtain ⟨target, htarget⟩ := hfound _ (h.targets e he)
    have hvisible : Meets (q.depth e.sourceId) e.sourceDepth := by
      by_contra hunmet
      exact depthGaps_ne_nil hsource (mem_depthRequirements.mpr (Or.inl
        ⟨e, mem_frontierGated.mpr ⟨he, hfrontier, hunmet⟩, hids _, rfl, rfl⟩)) hdepth
    refine ⟨hvisible, ?_⟩
    by_contra hunmet
    exact relationalGaps_ne_nil (e.sourceId, e.targetId) hsource htarget
      (mem_relatumRequirements.mpr
        ⟨e, mem_frontierVisible.mpr ⟨he, hfrontier, hvisible⟩, hids _, hunmet, rfl, rfl⟩)
      hrelational
  · by_contra hunmet
    have hnode := (h.mem_roots.mp hr).1
    have hroot : r.id ∈ q.rootIds :=
      List.mem_map_of_mem (((identifyRoots_spec h q.draw).1 r).mpr (Or.inr hr))
    exact depthGaps_ne_nil ((get?_prims h (hids _)).mpr ⟨hnode, rfl⟩)
      (mem_depthRequirements.mpr (Or.inr ⟨floor, hfloor, r, List.mem_append_left _ hnode, hids _,
        hroot, hunmet, rfl, rfl⟩)) hdepth

/-- A satisfied inquiry owes no depth. -/
theorem Satisfied.depthGaps_eq_nil [NameFolding] {q : Inquiry}
    (h : q.subgraph.Coherent q.concepts) (hsat : q.Satisfied) :
    depthGaps q.allNodes q.frontierGated q.rootIds q.transientIds q.minDepth = [] := by
  apply List.eq_nil_iff_forall_not_mem.mpr
  intro gap hgap
  obtain ⟨g, -, howes⟩ := owesDepth_of_mem h hgap
  rcases howes.demand with ⟨e, he, -, -⟩ | ⟨hfloor, hroot⟩
  · obtain ⟨hedge, hfrontier, hunmet⟩ := mem_frontierGated.mp he
    exact hunmet (hsat.edges e hedge hfrontier).1
  · exact howes.unmet (howes.current ▸ hsat.floor _ hfloor _ hroot)

/-- Nor does the target of any relatum. -/
theorem Satisfied.relationalGaps_eq_nil [NameFolding] {q : Inquiry}
    (h : q.subgraph.Coherent q.concepts) (hsat : q.Satisfied) :
    relationalGaps q.allNodes q.frontierVisible q.transientIds = [] := by
  apply List.eq_nil_iff_forall_not_mem.mpr
  intro gap hgap
  obtain ⟨g, -, howes⟩ := owesTarget_of_mem h hgap
  obtain ⟨e, he, -, htarget, hdepth⟩ := howes.demand
  obtain ⟨hedge, hfrontier, -⟩ := mem_frontierVisible.mp he
  have hmeets := (hsat.edges e hedge hfrontier).2
  rw [htarget, hdepth, depth_eq h howes.mem howes.stored, ← howes.current] at hmeets
  exact howes.unmet hmeets

/-- No existence, depth or relational gap is reported exactly when the frontier is
satisfied. -/
theorem knowledgeGaps_eq_nil [NameFolding] {q : Inquiry} (h : q.subgraph.Coherent q.concepts) :
    q.knowledgeGaps = [] ↔ q.Satisfied := by
  refine ⟨satisfied_of_knowledgeGaps h, fun hsat => ?_⟩
  simp only [knowledgeGaps, detectGaps, List.append_eq_nil_iff]
  exact ⟨⟨existenceGaps_eq_nil.mpr hsat.known, hsat.depthGaps_eq_nil h⟩,
    hsat.relationalGaps_eq_nil h⟩

end Inquiry

end GroundingEngine

end Vre
