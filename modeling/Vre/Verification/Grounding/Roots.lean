import Vre.Library.Loops
import Vre.Model.Grounding

/-! # Roots and lookups of a query

The roots that `_identify_roots` picks, and what `id_to_prim` finds, for a subgraph that
keeps the backend contract.
-/

namespace Vre

/-- What a conformant backend returns for a list of concepts: distinct nodes, the named ones
as roots, and edges between nodes. -/
structure ResolvedSubgraph.Coherent [NameFolding] (sg : ResolvedSubgraph) (concepts : List String) :
    Prop where
  nodup_ids : (sg.nodes.map Primitive.id).Nodup
  nodup_names : (sg.nodes.map Primitive.nameLower).Nodup
  roots_eq : sg.roots = sg.nodes.filter fun p => p.nameLower ∈ concepts.map foldName
  sources : ∀ e ∈ sg.edges, e.sourceId ∈ sg.nodes.map Primitive.id
  targets : ∀ e ∈ sg.edges, e.targetId ∈ sg.nodes.map Primitive.id

theorem ResolvedSubgraph.Coherent.mem_roots [NameFolding] {sg : ResolvedSubgraph}
    {concepts : List String} (h : sg.Coherent concepts) {r : Primitive} :
    r ∈ sg.roots ↔ r ∈ sg.nodes ∧ ∃ c ∈ concepts, r.nameLower = foldName c := by
  simp [h.roots_eq, eq_comm]

namespace GroundingEngine

/-! ## The scan of the concepts -/

/-- What the scan has established after the concepts `done`. -/
structure RootScan.Spec [NameFolding] (draw : Draw) (byName : OrderedDict String Primitive)
    (done : List String) (st : RootScan) : Prop where
  seen : ∀ k, k ∈ st.seen ↔ k ∈ done.map foldName
  roots : ∀ r, r ∈ st.allRoots ↔
    r ∈ st.transients ∨ ∃ c ∈ done, byName.get? (foldName c) = some r
  transients : ∀ r ∈ st.transients, ∃ c ∈ done, byName.get? (foldName c) = none ∧
    ∃ i, r = transientFor draw i c
  missing : ∀ c ∈ done, byName.get? (foldName c) = none →
    ∃ r ∈ st.transients, foldName r.name = foldName c

/-- A name that was seen before changes nothing. -/
theorem RootScan.Spec.skip [NameFolding] {draw : Draw} {byName : OrderedDict String Primitive}
    {done : List String} {st : RootScan} (h : st.Spec draw byName done) {name : String}
    (hseen : foldName name ∈ st.seen) : st.Spec draw byName (done ++ [name]) := by
  obtain ⟨c, hc, hfold⟩ := List.mem_map.mp ((h.seen _).mp hseen)
  have hmem : ∀ P : String → Prop,
      (∃ c' ∈ done ++ [name], P (foldName c')) ↔ ∃ c' ∈ done, P (foldName c') := by
    intro P
    constructor
    · rintro ⟨c', hc', hkey⟩
      rcases List.mem_append.mp hc' with hc' | hc'
      · exact ⟨c', hc', hkey⟩
      · rw [List.mem_singleton.mp hc', ← hfold] at hkey
        exact ⟨c, hc, hkey⟩
    · rintro ⟨c', hc', hkey⟩
      exact ⟨c', List.mem_append_left _ hc', hkey⟩
  refine ⟨fun k => ?_, fun r => ?_, fun r hr => ?_, fun c' hc' habsent => ?_⟩
  · rw [h.seen, List.mem_map, List.mem_map]
    exact (hmem fun key => key = k).symm
  · rw [h.roots]
    exact or_congr_right (hmem fun key => byName.get? key = some r).symm
  · obtain ⟨c', hc', hget, i, rfl⟩ := h.transients r hr
    exact ⟨c', List.mem_append_left _ hc', hget, i, rfl⟩
  · rcases List.mem_append.mp hc' with hc' | hc'
    · exact h.missing c' hc' habsent
    · rw [List.mem_singleton.mp hc', ← hfold] at habsent ⊢
      exact h.missing c hc habsent

theorem RootScan.Spec.mem_seen_cons [NameFolding] {draw : Draw}
    {byName : OrderedDict String Primitive} {done : List String} {st : RootScan}
    (h : st.Spec draw byName done) (name k : String) :
    k ∈ foldName name :: st.seen ↔ k ∈ (done ++ [name]).map foldName := by
  simp [h.seen, or_comm]

/-- A name of a stored root adds that root. -/
theorem RootScan.Spec.adopt [NameFolding] {draw : Draw} {byName : OrderedDict String Primitive}
    {done : List String} {st : RootScan} (h : st.Spec draw byName done) {name : String}
    {matched : Primitive} (hget : byName.get? (foldName name) = some matched) :
    RootScan.Spec draw byName (done ++ [name])
      ⟨st.allRoots ++ [matched], st.transients, foldName name :: st.seen⟩ := by
  refine ⟨h.mem_seen_cons name, fun r => ?_, fun r hr => ?_, fun c hc habsent => ?_⟩
  · simp only [List.mem_append, List.mem_singleton, h.roots, or_and_right, exists_or,
      exists_eq_left, hget, Option.some.injEq, or_assoc]
    rw [eq_comm (a := r)]
  · obtain ⟨c, hc, habsent, i, rfl⟩ := h.transients r hr
    exact ⟨c, List.mem_append_left _ hc, habsent, i, rfl⟩
  · rcases List.mem_append.mp hc with hc | hc
    · exact h.missing c hc habsent
    · rw [List.mem_singleton.mp hc, hget] at habsent
      cases habsent

/-- A new name of no stored root adds a placeholder. -/
theorem RootScan.Spec.mint [NameFolding] {draw : Draw} {byName : OrderedDict String Primitive}
    {done : List String} {st : RootScan} (h : st.Spec draw byName done) {name : String}
    (hget : byName.get? (foldName name) = none) (i : ℕ) :
    RootScan.Spec draw byName (done ++ [name])
      ⟨st.allRoots ++ [transientFor draw i name], st.transients ++ [transientFor draw i name],
        foldName name :: st.seen⟩ := by
  refine ⟨h.mem_seen_cons name, fun r => ?_, fun r hr => ?_, fun c hc habsent => ?_⟩
  · simp only [List.mem_append, List.mem_singleton, h.roots, or_and_right, exists_or,
      exists_eq_left, hget, reduceCtorEq, or_false]
    exact or_right_comm
  · rcases List.mem_append.mp hr with hr | hr
    · obtain ⟨c, hc, habsent, i, rfl⟩ := h.transients r hr
      exact ⟨c, List.mem_append_left _ hc, habsent, i, rfl⟩
    · rw [List.mem_singleton.mp hr]
      exact ⟨name, by simp, hget, i, rfl⟩
  · rcases List.mem_append.mp hc with hc | hc
    · obtain ⟨r, hr, hfold⟩ := h.missing c hc habsent
      exact ⟨r, List.mem_append_left _ hr, hfold⟩
    · rw [List.mem_singleton.mp hc]
      exact ⟨_, List.mem_append_right _ (List.mem_singleton.mpr rfl), rfl⟩

/-- One concept: a repeated name changes nothing, a stored one adds its primitive, an absent
one adds a placeholder. -/
theorem RootScan.Spec.step [NameFolding] {draw : Draw} {byName : OrderedDict String Primitive}
    {done : List String} {st : RootScan} (h : st.Spec draw byName done) (name : String) :
    (identifyRoot draw byName st name).Spec draw byName (done ++ [name]) := by
  unfold identifyRoot
  by_cases hseen : foldName name ∈ st.seen
  · simp only [hseen, if_true]
    exact h.skip hseen
  · simp only [hseen, if_false]
    cases hget : byName.get? (foldName name) with
    | some matched => exact h.adopt hget
    | none => exact h.mint hget st.transients.length

theorem RootScan.Spec.foldl [NameFolding] {draw : Draw} {byName : OrderedDict String Primitive}
    {done : List String} {st : RootScan} (h : st.Spec draw byName done) (names : List String) :
    (names.foldl (identifyRoot draw byName) st).Spec draw byName (done ++ names) := by
  induction names generalizing done st with
  | nil => rwa [List.append_nil]
  | cons name rest ih =>
      rw [List.append_cons]
      exact ih (h.step name)

/-! ## The order of the roots -/

/-- Where a folded name first occurs among the concepts. -/
def firstAt [NameFolding] (concepts : List String) (r : Primitive) : ℕ :=
  (concepts.map foldName).idxOf r.nameLower

/-- How the scan has ordered its roots after the concepts `done`: by the first occurrence of
their names, and the placeholders with the identifiers drawn in order. -/
structure RootScan.Ordered [NameFolding] (draw : Draw) (done : List String) (st : RootScan) :
    Prop where
  seen : ∀ k, k ∈ st.seen ↔ k ∈ done.map foldName
  named : ∀ r ∈ st.allRoots, r.nameLower ∈ done.map foldName
  order : st.allRoots.Pairwise fun a b => firstAt done a < firstAt done b
  sublist : st.transients.Sublist st.allRoots
  ids : st.transients.map Primitive.id = (List.range st.transients.length).map draw.uuid4
  bare : ∀ r ∈ st.transients, r.depths = []

theorem firstAt_append [NameFolding] {done : List String} {r : Primitive}
    (h : r.nameLower ∈ done.map foldName) (name : String) :
    firstAt (done ++ [name]) r = firstAt done r := by
  rw [firstAt, firstAt, List.map_append, List.idxOf_append_of_mem h]

/-- A root under a new name comes after all others. -/
theorem RootScan.Ordered.order_snoc [NameFolding] {draw : Draw} {done : List String}
    {st : RootScan} (h : st.Ordered draw done) {name : String} (hnew : foldName name ∉ st.seen)
    {r : Primitive} (hr : r.nameLower = foldName name) :
    (st.allRoots ++ [r]).Pairwise fun a b =>
      firstAt (done ++ [name]) a < firstAt (done ++ [name]) b := by
  refine List.pairwise_append.mpr ⟨?_, List.pairwise_singleton _ _, fun a ha b hb => ?_⟩
  · refine h.order.imp_of_mem fun ha hb hlt => ?_
    rwa [firstAt_append (h.named _ ha), firstAt_append (h.named _ hb)]
  · have habsent : foldName name ∉ done.map foldName := fun hmem => hnew ((h.seen _).mpr hmem)
    have hlast : firstAt (done ++ [name]) b = (done.map foldName).length := by
      rw [List.mem_singleton.mp hb, firstAt, hr, List.map_append,
        List.idxOf_append_of_notMem habsent]
      simp
    rw [firstAt_append (h.named _ ha), hlast]
    exact List.idxOf_lt_length_of_mem (h.named _ ha)

theorem RootScan.Ordered.named_snoc [NameFolding] {draw : Draw} {done : List String}
    {st : RootScan} (h : st.Ordered draw done) {name : String} {r : Primitive}
    (hr : r.nameLower = foldName name) :
    ∀ r' ∈ st.allRoots ++ [r], r'.nameLower ∈ (done ++ [name]).map foldName := by
  intro r' hr'
  rw [List.map_append, List.mem_append]
  rcases List.mem_append.mp hr' with hr' | hr'
  · exact Or.inl (h.named r' hr')
  · rw [List.mem_singleton.mp hr', hr]
    exact Or.inr (List.mem_singleton.mpr rfl)

theorem RootScan.Ordered.step [NameFolding] {draw : Draw} {byName : OrderedDict String Primitive}
    (hnames : ∀ k r, byName.get? k = some r → r.nameLower = k) {done : List String}
    {st : RootScan} (h : st.Ordered draw done) (name : String) :
    (identifyRoot draw byName st name).Ordered draw (done ++ [name]) := by
  have hseen : ∀ k, k ∈ foldName name :: st.seen ↔ k ∈ (done ++ [name]).map foldName := by
    intro k
    simp [h.seen, or_comm]
  unfold identifyRoot
  by_cases hold : foldName name ∈ st.seen
  · simp only [hold, if_true]
    refine ⟨fun k => ?_, fun r hr => ?_, ?_, h.sublist, h.ids, h.bare⟩
    · rw [← hseen, List.mem_cons]
      exact ⟨Or.inr, fun hk => hk.elim (fun heq => heq ▸ hold) id⟩
    · rw [List.map_append, List.mem_append]
      exact Or.inl (h.named r hr)
    · refine h.order.imp_of_mem fun ha hb hlt => ?_
      rwa [firstAt_append (h.named _ ha), firstAt_append (h.named _ hb)]
  · simp only [hold, if_false]
    cases hget : byName.get? (foldName name) with
    | some matched =>
        have hname := hnames _ _ hget
        exact ⟨hseen, h.named_snoc hname, h.order_snoc hold hname,
          h.sublist.trans (List.sublist_append_left _ _), h.ids, h.bare⟩
    | none =>
        have hname : (transientFor draw st.transients.length name).nameLower = foldName name := rfl
        refine ⟨hseen, h.named_snoc hname, h.order_snoc hold hname,
          h.sublist.append (List.Sublist.refl _), ?_, ?_⟩
        · rw [List.map_append, h.ids, List.length_append, List.length_singleton,
            List.range_succ, List.map_append]
          rfl
        · intro r hr
          rcases List.mem_append.mp hr with hr | hr
          · exact h.bare r hr
          · rw [List.mem_singleton.mp hr]
            rfl

theorem RootScan.Ordered.foldl [NameFolding] {draw : Draw}
    {byName : OrderedDict String Primitive}
    (hnames : ∀ k r, byName.get? k = some r → r.nameLower = k) {done : List String}
    {st : RootScan} (h : st.Ordered draw done) (names : List String) :
    (names.foldl (identifyRoot draw byName) st).Ordered draw (done ++ names) := by
  induction names generalizing done st with
  | nil => rwa [List.append_nil]
  | cons name rest ih =>
      rw [List.append_cons]
      exact ih (h.step hnames name)

/-! ## The roots of a query -/

/-- `by_name` finds the root that carries a folded name. -/
theorem get?_byName [NameFolding] {sg : ResolvedSubgraph} {concepts : List String}
    (h : sg.Coherent concepts) {key : String} {r : Primitive} :
    (OrderedDict.ofItems (sg.roots.map fun r => (foldName r.name, r))).get? key = some r ↔
      r ∈ sg.roots ∧ r.nameLower = key := by
  have hnodup : ((sg.roots.map fun r => (foldName r.name, r)).map Prod.fst).Nodup := by
    rw [List.map_map, h.roots_eq]
    exact h.nodup_names.sublist (List.filter_sublist.map _)
  constructor
  · intro hget
    obtain ⟨r', hr', heq⟩ := List.mem_map.mp (OrderedDict.mem_of_get?_ofItems hget)
    cases heq
    exact ⟨hr', rfl⟩
  · rintro ⟨hr, rfl⟩
    exact OrderedDict.get?_ofItems_of_nodup hnodup (List.mem_map_of_mem hr)

/-- The roots are the stored primitives named by the concepts, and a placeholder for each
concept that is not stored. -/
theorem identifyRoots_spec [NameFolding] {sg : ResolvedSubgraph} {concepts : List String}
    (h : sg.Coherent concepts) (draw : Draw) :
    (∀ r, r ∈ (identifyRoots draw concepts sg.roots).1 ↔
      r ∈ (identifyRoots draw concepts sg.roots).2 ∨ r ∈ sg.roots) ∧
    (∀ r ∈ (identifyRoots draw concepts sg.roots).2, r.name ∈ concepts ∧
      (∀ n ∈ sg.nodes, n.nameLower ≠ r.nameLower) ∧ ∃ i, r = transientFor draw i r.name) ∧
    (∀ c ∈ concepts, (∀ n ∈ sg.nodes, n.nameLower ≠ foldName c) →
      ∃ r ∈ (identifyRoots draw concepts sg.roots).2, r.nameLower = foldName c) := by
  have hinit : RootScan.Spec draw
      (OrderedDict.ofItems (sg.roots.map fun r => (foldName r.name, r))) [] ⟨[], [], []⟩ :=
    ⟨by simp, by simp, by simp, by simp⟩
  have hscan := hinit.foldl concepts
  rw [List.nil_append] at hscan
  have habsent : ∀ c ∈ concepts, (OrderedDict.ofItems (sg.roots.map fun r =>
      (foldName r.name, r))).get? (foldName c) = none ↔
        ∀ n ∈ sg.nodes, n.nameLower ≠ foldName c := by
    intro c hc
    rw [Option.eq_none_iff_forall_ne_some]
    constructor
    · intro hnone n hn heq
      exact hnone n ((get?_byName h).mpr ⟨h.mem_roots.mpr ⟨hn, c, hc, heq⟩, heq⟩)
    · intro hall r hget
      obtain ⟨hr, heq⟩ := (get?_byName h).mp hget
      exact hall r (h.mem_roots.mp hr).1 heq
  refine ⟨fun r => (hscan.roots r).trans (or_congr_right ⟨?_, fun hr => ?_⟩), fun r hr => ?_,
    fun c hc hnone => ?_⟩
  · rintro ⟨c, -, hget⟩
    exact ((get?_byName h).mp hget).1
  · obtain ⟨-, c, hc, hfold⟩ := h.mem_roots.mp hr
    exact ⟨c, hc, (get?_byName h).mpr ⟨hr, hfold⟩⟩
  · obtain ⟨c, hc, hnone, i, rfl⟩ := hscan.transients r hr
    exact ⟨hc, (habsent c hc).mp hnone, i, rfl⟩
  · exact hscan.missing c hc ((habsent c hc).mpr hnone)

/-- The roots of a query stand in the order in which their names were submitted. -/
theorem identifyRoots_ordered [NameFolding] {sg : ResolvedSubgraph} {concepts : List String}
    (h : sg.Coherent concepts) (draw : Draw) :
    ∃ seen, RootScan.Ordered draw concepts ⟨(identifyRoots draw concepts sg.roots).1,
      (identifyRoots draw concepts sg.roots).2, seen⟩ := by
  have hinit : RootScan.Ordered draw [] ⟨[], [], []⟩ :=
    ⟨by simp, by simp, List.Pairwise.nil, List.Sublist.refl _, rfl, by simp⟩
  have hnames : ∀ k r, (OrderedDict.ofItems (sg.roots.map fun r =>
      (foldName r.name, r))).get? k = some r → r.nameLower = k :=
    fun _ _ hget => ((get?_byName h).mp hget).2
  exact ⟨_, hinit.foldl hnames concepts⟩

/-! ## `id_to_prim` -/

/-- An id that no placeholder took is looked up among the nodes. -/
theorem get?_idToPrim {nodes transients : List Primitive}
    (hnodup : (nodes.map Primitive.id).Nodup) {id : UUID} (hid : id ∉ transients.map Primitive.id)
    {p : Primitive} :
    (idToPrim (nodes ++ transients)).get? id = some p ↔ p ∈ nodes ∧ p.id = id := by
  have hmem : ∀ q, (idToPrim (nodes ++ transients)).get? id = some q → q ∈ nodes ∧ q.id = id := by
    intro q hget
    obtain ⟨q', hq', heq⟩ := List.mem_map.mp (OrderedDict.mem_of_get?_ofItems hget)
    cases heq
    rcases List.mem_append.mp hq' with hq' | hq'
    · exact ⟨hq', rfl⟩
    · exact absurd (List.mem_map_of_mem hq') hid
  refine ⟨hmem p, fun hp => ?_⟩
  cases hget : (idToPrim (nodes ++ transients)).get? id with
  | none =>
      have hnone := OrderedDict.get?_ofItems_eq_none.mp hget p
      exact absurd (List.mem_map.mpr ⟨p, List.mem_append_left _ hp.1, by rw [hp.2]⟩) hnone
  | some q =>
      obtain ⟨hq, hqid⟩ := hmem q hget
      exact congrArg some (List.inj_on_of_nodup_map hnodup hq hp.1 (hqid.trans hp.2.symm))

/-- Every id of a node is found. -/
theorem exists_get?_idToPrim {all : List Primitive} {id : UUID}
    (hid : id ∈ all.map Primitive.id) : ∃ p, (idToPrim all).get? id = some p := by
  obtain ⟨p, hp, rfl⟩ := List.mem_map.mp hid
  cases hget : (idToPrim all).get? p.id with
  | none =>
      exact absurd (List.mem_map_of_mem hp) (OrderedDict.get?_ofItems_eq_none.mp hget p)
  | some q => exact ⟨q, rfl⟩

/-- A subgraph whose edges stay among its nodes passes the endpoint check. -/
theorem validateEdgeEndpoints_ok [NameFolding] {sg : ResolvedSubgraph} {concepts : List String}
    (h : sg.Coherent concepts) (transients : List Primitive) :
    validateEdgeEndpoints sg.edges (idToPrim (sg.nodes ++ transients)) = .ok () := by
  have hfound : ∀ id ∈ sg.nodes.map Primitive.id,
      ∃ p, (idToPrim (sg.nodes ++ transients)).get? id = some p := by
    intro id hid
    refine exists_get?_idToPrim ?_
    rw [List.map_append]
    exact List.mem_append_left _ hid
  refine Loops.except_forM_ok.mpr fun e he => Loops.except_forM_ok.mpr fun role hrole => ?_
  have hid : role.2 ∈ sg.nodes.map Primitive.id := by
    rcases List.mem_pair.mp hrole with rfl | rfl
    · exact h.sources e he
    · exact h.targets e he
  obtain ⟨p, hp⟩ := hfound role.2 hid
  simp only [hp]

end GroundingEngine

end Vre
