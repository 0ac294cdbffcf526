import Vre.Verification.Grounding.Strict

/-! # Placeholders and stored roots

When the identifiers drawn for a query are new, its placeholders never stand for a stored
primitive: the roots fall into the stored ones, in the order of submission, and one
placeholder for each name that is not stored.
-/

namespace Vre

namespace ResolvedSubgraph

/-- The source of the edge is grounded deeply enough to see it. -/
def Sees (sg : ResolvedSubgraph) (e : EpistemicStep) : Prop :=
  Meets (sg.depthAt e.sourceId) e.sourceDepth

def VisibleEdge (sg : ResolvedSubgraph) (a b : UUID) : Prop :=
  ∃ e ∈ sg.edges, sg.Sees e ∧ e.sourceId = a ∧ e.targetId = b

/-- An id on a path of visible edges from a root. -/
def OnFrontier (sg : ResolvedSubgraph) (id : UUID) : Prop :=
  ∃ r ∈ sg.roots, Relation.ReflTransGen sg.VisibleEdge r.id id

end ResolvedSubgraph

namespace GroundingEngine

namespace Inquiry

/-- A query over a coherent subgraph whose placeholders are told apart from its nodes. -/
structure Apart [NameFolding] (q : Inquiry) : Prop where
  coherent : q.subgraph.Coherent q.concepts
  stored : ∀ n ∈ q.subgraph.nodes, n.id ∉ q.transientIds
  distinct : q.transientIds.Nodup

/-! ## Stored nodes -/

theorem Apart.depth_eq [NameFolding] {q : Inquiry} (h : q.Apart) {n : Primitive}
    (hn : n ∈ q.subgraph.nodes) : q.depth n.id = n.contiguousMaxDepth :=
  Inquiry.depth_eq h.coherent hn (h.stored n hn)

theorem Apart.get?_prims [NameFolding] {q : Inquiry} (h : q.Apart) {n : Primitive}
    (hn : n ∈ q.subgraph.nodes) : (idToPrim q.allNodes).get? n.id = some n :=
  (Inquiry.get?_prims h.coherent (h.stored n hn)).mpr ⟨hn, rfl⟩

theorem Apart.source_stored [NameFolding] {q : Inquiry} (h : q.Apart) {e : EpistemicStep}
    (he : e ∈ q.subgraph.edges) : ∃ n ∈ q.subgraph.nodes, n.id = e.sourceId :=
  List.mem_map.mp (h.coherent.sources e he)

theorem Apart.target_stored [NameFolding] {q : Inquiry} (h : q.Apart) {e : EpistemicStep}
    (he : e ∈ q.subgraph.edges) : ∃ n ∈ q.subgraph.nodes, n.id = e.targetId :=
  List.mem_map.mp (h.coherent.targets e he)

/-- Nodes of a query are told apart by their ids. -/
theorem Apart.node_unique [NameFolding] {q : Inquiry} (h : q.Apart) {n n' : Primitive}
    (hn : n ∈ q.subgraph.nodes) (hn' : n' ∈ q.subgraph.nodes) (hid : n.id = n'.id) : n = n' :=
  List.inj_on_of_nodup_map h.coherent.nodup_ids hn hn' hid

/-! ## Stored roots -/

theorem Apart.mem_storedRoots [NameFolding] {q : Inquiry} (h : q.Apart) {r : Primitive} :
    r ∈ q.storedRoots ↔ r ∈ q.subgraph.roots := by
  have hroots := (identifyRoots_spec h.coherent q.draw).1 r
  simp only [storedRoots, List.mem_filter, decide_eq_true_eq]
  constructor
  · rintro ⟨hr, hid⟩
    exact (hroots.mp hr).resolve_left fun ht => hid (List.mem_map_of_mem ht)
  · intro hr
    exact ⟨hroots.mpr (Or.inr hr), h.stored r (h.coherent.mem_roots.mp hr).1⟩

/-- The stored roots stand in the order of submission. -/
theorem Apart.order_storedRoots [NameFolding] {q : Inquiry} (h : q.Apart) :
    q.storedRoots.Pairwise fun a b => firstAt q.concepts a < firstAt q.concepts b := by
  obtain ⟨seen, hordered⟩ := identifyRoots_ordered h.coherent q.draw
  exact hordered.order.filter _

theorem Apart.nodup_storedRoots [NameFolding] {q : Inquiry} (h : q.Apart) :
    q.storedRoots.Nodup :=
  h.order_storedRoots.imp fun hlt heq => absurd (congrArg (firstAt q.concepts) heq) hlt.ne

theorem Apart.node_of_root [NameFolding] {q : Inquiry} (h : q.Apart) {r : Primitive}
    (hr : r ∈ q.subgraph.roots) : r ∈ q.subgraph.nodes :=
  (h.coherent.mem_roots.mp hr).1

theorem Apart.mem_rootIds [NameFolding] {q : Inquiry} (h : q.Apart) {n : Primitive}
    (hn : n ∈ q.subgraph.nodes) : n.id ∈ q.rootIds ↔ n ∈ q.subgraph.roots := by
  refine ⟨mem_roots_of_stored h.coherent hn (h.stored n hn), fun hr => ?_⟩
  exact List.mem_map_of_mem (((identifyRoots_spec h.coherent q.draw).1 n).mpr (Or.inr hr))

/-! ## Placeholders -/

theorem mem_transients [NameFolding] {q : Inquiry} (h : q.subgraph.Coherent q.concepts)
    {r : Primitive} (hr : r ∈ q.transients) :
    r.name ∈ q.concepts ∧ (∀ n ∈ q.subgraph.nodes, n.nameLower ≠ r.nameLower) ∧ r.depths = [] := by
  obtain ⟨seen, hordered⟩ := identifyRoots_ordered h q.draw
  obtain ⟨hname, habsent, -⟩ := (identifyRoots_spec h q.draw).2.1 r hr
  exact ⟨hname, habsent, hordered.bare r hr⟩

/-- One placeholder for each submitted name that no node has. -/
theorem names_transients [NameFolding] {q : Inquiry} (h : q.subgraph.Coherent q.concepts) :
    (q.transients.map Primitive.nameLower).Nodup ∧
      ∀ k, k ∈ q.transients.map Primitive.nameLower ↔
        k ∈ q.concepts.map foldName ∧ ∀ n ∈ q.subgraph.nodes, n.nameLower ≠ k := by
  obtain ⟨seen, hordered⟩ := identifyRoots_ordered h q.draw
  obtain ⟨-, hfrom, hmissing⟩ := identifyRoots_spec h q.draw
  constructor
  · refine List.pairwise_map.mpr ((hordered.order.sublist hordered.sublist).imp ?_)
    intro a b hlt heq
    rw [firstAt, firstAt, heq] at hlt
    exact lt_irrefl _ hlt
  · intro k
    constructor
    · intro hk
      obtain ⟨r, hr, rfl⟩ := List.mem_map.mp hk
      obtain ⟨hname, habsent, -⟩ := hfrom r hr
      exact ⟨List.mem_map_of_mem hname, habsent⟩
    · rintro ⟨hk, habsent⟩
      obtain ⟨c, hc, rfl⟩ := List.mem_map.mp hk
      obtain ⟨r, hr, hname⟩ := hmissing c hc habsent
      exact List.mem_map.mpr ⟨r, hr, hname⟩

/-- A placeholder is the only one under its name. -/
theorem filter_transients [NameFolding] {q : Inquiry} (h : q.subgraph.Coherent q.concepts)
    {r : Primitive} (hr : r ∈ q.transients) :
    (q.transients.filter fun r' => r'.nameLower = r.nameLower) = [r] := by
  obtain ⟨hnodup, -⟩ := names_transients h
  refine List.perm_singleton.mp ((List.perm_ext_iff_of_nodup (hnodup.of_map.filter _)
    (List.nodup_singleton r)).mpr fun r' => ?_)
  rw [List.mem_filter, List.mem_singleton, decide_eq_true_eq]
  constructor
  · rintro ⟨hr', hname⟩
    exact List.inj_on_of_nodup_map hnodup hr' hr hname
  · rintro rfl
    exact ⟨hr, rfl⟩

theorem mem_rootIds_of_transient [NameFolding] {q : Inquiry}
    (h : q.subgraph.Coherent q.concepts) {id : UUID} (hid : id ∈ q.transientIds) :
    id ∈ q.rootIds := by
  obtain ⟨r, hr, rfl⟩ := List.mem_map.mp hid
  exact List.mem_map_of_mem (((identifyRoots_spec h q.draw).1 r).mpr (Or.inl hr))

/-! ## The frontier of the stored roots -/

theorem Apart.depth_source [NameFolding] {q : Inquiry} (h : q.Apart) {e : EpistemicStep}
    (he : e ∈ q.subgraph.edges) : q.depth e.sourceId = q.subgraph.depthAt e.sourceId := by
  obtain ⟨n, hn, hid⟩ := h.source_stored he
  rw [← hid, h.depth_eq hn, h.coherent.depthAt_eq hn]

theorem Apart.visibleEdge_eq [NameFolding] {q : Inquiry} (h : q.Apart) :
    q.VisibleEdge = q.subgraph.VisibleEdge := by
  funext a b
  refine propext (exists_congr fun e => ?_)
  rw [mem_visible, and_assoc]
  refine and_congr_right fun he => and_congr_left fun _ => ?_
  rw [h.depth_source he, ResolvedSubgraph.Sees]

/-- The frontier is what the stored roots reach, and the placeholders. -/
theorem Apart.mem_frontier_iff [NameFolding] {q : Inquiry} (h : q.Apart) {id : UUID} :
    id ∈ q.frontier ↔ q.subgraph.OnFrontier id ∨ id ∈ q.transientIds := by
  rw [mem_frontier, h.visibleEdge_eq]
  constructor
  · rintro ⟨root, hroot, hpath⟩
    by_cases htransient : root ∈ q.transientIds
    · rcases Relation.ReflTransGen.cases_head hpath with rfl | ⟨b, ⟨e, he, -, rfl, -⟩, -⟩
      · exact Or.inr htransient
      · obtain ⟨n, hn, hid⟩ := h.source_stored he
        exact absurd htransient (hid ▸ h.stored n hn)
    · obtain ⟨r, hr, rfl⟩ := List.mem_map.mp hroot
      have hstored : r ∈ q.storedRoots :=
        List.mem_filter.mpr ⟨hr, decide_eq_true htransient⟩
      exact Or.inl ⟨r, h.mem_storedRoots.mp hstored, hpath⟩
  · rintro (⟨r, hr, hpath⟩ | htransient)
    · exact ⟨r.id, (h.mem_rootIds (h.node_of_root hr)).mpr hr, hpath⟩
    · exact ⟨id, mem_rootIds_of_transient h.coherent htransient, .refl⟩

theorem Apart.onFrontier_iff [NameFolding] {q : Inquiry} (h : q.Apart) {n : Primitive}
    (hn : n ∈ q.subgraph.nodes) : n.id ∈ q.frontier ↔ q.subgraph.OnFrontier n.id := by
  rw [h.mem_frontier_iff]
  exact or_iff_left (h.stored n hn)

theorem Apart.source_onFrontier [NameFolding] {q : Inquiry} (h : q.Apart) {e : EpistemicStep}
    (he : e ∈ q.subgraph.edges) :
    e.sourceId ∈ q.frontier ↔ q.subgraph.OnFrontier e.sourceId := by
  obtain ⟨n, hn, hid⟩ := h.source_stored he
  exact hid ▸ h.onFrontier_iff hn

/-- The edges the query shows are the visible ones out of the frontier. -/
theorem Apart.mem_frontierVisible [NameFolding] {q : Inquiry} (h : q.Apart) {e : EpistemicStep} :
    e ∈ q.frontierVisible ↔
      e ∈ q.subgraph.edges ∧ q.subgraph.OnFrontier e.sourceId ∧ q.subgraph.Sees e := by
  rw [Inquiry.mem_frontierVisible]
  apply and_congr_right
  intro he
  rw [h.source_onFrontier he, h.depth_source he, ResolvedSubgraph.Sees]

theorem Apart.mem_frontierGated [NameFolding] {q : Inquiry} (h : q.Apart) {e : EpistemicStep} :
    e ∈ q.frontierGated ↔
      e ∈ q.subgraph.edges ∧ q.subgraph.OnFrontier e.sourceId ∧ ¬ q.subgraph.Sees e := by
  rw [Inquiry.mem_frontierGated]
  apply and_congr_right
  intro he
  rw [h.source_onFrontier he, h.depth_source he, ResolvedSubgraph.Sees]

/-- What the frontier reaches is stored. -/
theorem Apart.onFrontier_stored [NameFolding] {q : Inquiry} (h : q.Apart) {id : UUID}
    (hid : q.subgraph.OnFrontier id) : ∃ n ∈ q.subgraph.nodes, n.id = id := by
  obtain ⟨r, hr, hpath⟩ := hid
  rcases Relation.ReflTransGen.cases_tail hpath with rfl | ⟨a, -, ⟨e, he, -, -, rfl⟩⟩
  · exact ⟨r, h.node_of_root hr, rfl⟩
  · exact h.target_stored he

end Inquiry

end GroundingEngine

theorem Tables.transientIds_eq [NameFolding] {t : Tables} (h : t.Schema) (draw : Draw)
    (concepts : List String) (minDepth : Option DepthLevel) :
    (t.inquiry draw concepts minDepth).transientIds =
      (List.range (t.inquiry draw concepts minDepth).transients.length).map draw.uuid4 := by
  obtain ⟨seen, hordered⟩ := GroundingEngine.identifyRoots_ordered (h.coherent concepts) draw
  exact hordered.ids

/-- No placeholder takes the id of a stored primitive. -/
theorem Draw.Fresh.notMem_transientIds [NameFolding] {t : Tables} (h : t.Schema) {draw : Draw}
    (hfresh : draw.Fresh t) {concepts : List String} {minDepth : Option DepthLevel} {id : UUID}
    (hid : t.Stored id) : id ∉ (t.inquiry draw concepts minDepth).transientIds := by
  rw [t.transientIds_eq h]
  intro hmem
  obtain ⟨i, -, rfl⟩ := List.mem_map.mp hmem
  exact hfresh.unused i hid

/-- A store's query with new identifiers keeps its placeholders apart. -/
theorem Draw.Fresh.apart [NameFolding] {t : Tables} (h : t.Schema) {draw : Draw}
    (hfresh : draw.Fresh t) (concepts : List String) (minDepth : Option DepthLevel) :
    (t.inquiry draw concepts minDepth).Apart := by
  refine ⟨h.coherent concepts, fun n hn => ?_, ?_⟩
  · obtain ⟨row, hrow, -, rfl⟩ := Tables.mem_closureNodes.mp hn
    exact hfresh.notMem_transientIds h ⟨row, hrow, rfl⟩
  · rw [t.transientIds_eq h]
    exact List.nodup_range.map hfresh.distinct

namespace GroundingEngine

/-- A concept has a placeholder exactly when `find_by_name` does not know it. -/
theorem unknown_iff [NameFolding] {db : SqliteRepository} (h : db.tables.Schema) (draw : Draw)
    (minDepth : Option DepthLevel) {concepts : List String} {c : String} (hc : c ∈ concepts) :
    foldName c ∈ (db.tables.inquiry draw concepts minDepth).transients.map Primitive.nameLower ↔
      Repository.findByName db c = .ok none := by
  have hc := List.mem_map_of_mem (f := foldName) hc
  have hfind : Repository.findByName db c = .ok (db.tables.named c) := findByName_eq h c
  have hcoherent : (db.tables.inquiry draw concepts minDepth).subgraph.Coherent
      (db.tables.inquiry draw concepts minDepth).concepts := h.coherent concepts
  rw [(Inquiry.names_transients hcoherent).2, hfind, Except.ok.injEq, ← absent_iff h hc]
  exact and_iff_right hc

/-- A placeholder stands for a concept that `find_by_name` does not know. -/
theorem unknown_of_transient [NameFolding] {db : SqliteRepository} (h : db.tables.Schema)
    {draw : Draw} {concepts : List String} {minDepth : Option DepthLevel} {r : Primitive}
    (hr : r ∈ (db.tables.inquiry draw concepts minDepth).transients) :
    ∃ c ∈ concepts, r.nameLower = foldName c ∧ Repository.findByName db c = .ok none := by
  have hcoherent : (db.tables.inquiry draw concepts minDepth).subgraph.Coherent
      (db.tables.inquiry draw concepts minDepth).concepts := h.coherent concepts
  have hname := (Inquiry.mem_transients hcoherent hr).1
  exact ⟨r.name, hname, rfl, (unknown_iff h draw minDepth hname).mp (List.mem_map_of_mem hr)⟩

end GroundingEngine

end Vre
