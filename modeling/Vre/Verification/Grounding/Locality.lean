import Vre.Verification.Grounding.Rearrangement
import Vre.Verification.Store.Refinement

/-! # What a grounding depends on

The answer to a query is a function of the part of the knowledge base that the query's
closure covers. Neither the backend, nor the order of its records, nor what is known outside
the closure shows in it; so calls that keep clear of the closure leave the answer alone.
-/

namespace Vre

theorem restrict_restrict {p : Primitive} {keep keep' : UUID → Prop} [DecidablePred keep]
    [DecidablePred keep'] (h : ∀ id, keep' id → keep id) :
    (p.restrict keep).restrict keep' = p.restrict keep' := by
  simp only [Primitive.restrict, List.map_map, Function.comp_def, List.filter_filter]
  congr 1
  apply List.map_congr_left
  intro d _
  congr 1
  apply List.filter_congr
  intro r _
  by_cases hkeep : keep' r.targetId
  · simp [hkeep, h r.targetId hkeep]
  · simp [hkeep]

namespace KnowledgeBase

variable [NameFolding]

theorem InClosure.root {kb : KnowledgeBase} {names : List String} {id : UUID} {p : Primitive}
    (hp : kb.known id = some p) (hname : p.nameLower ∈ names.map foldName) :
    kb.InClosure names id :=
  ⟨id, p, hp, hname, .refl⟩

theorem InClosure.step {kb : KnowledgeBase} {names : List String} {a b : UUID}
    (h : kb.InClosure names a) (hedge : TransitiveEdge kb.known a b) : kb.InClosure names b := by
  obtain ⟨root, p, hp, hname, hpath⟩ := h
  exact ⟨root, p, hp, hname, hpath.tail hedge⟩

theorem InClosure.known {kb : KnowledgeBase} {names : List String} {id : UUID}
    (h : kb.InClosure names id) : ∃ p, kb.known id = some p := by
  obtain ⟨root, p, hp, -, hpath⟩ := h
  cases hpath with
  | refl => exact ⟨p, hp⟩
  | tail _ hedge =>
      obtain ⟨q, hq, r, hr, rfl, -⟩ := hedge
      exact Option.isSome_iff_exists.mp (kb.closed _ q hq r hr)

/-! ## The same closure -/

open Classical in
/-- `kb'` holds the closure of the names in `kb` as it stands there: the names lead into it,
no transitive relatum leaves it, and its primitives have the same relata inside. -/
structure SameClosure (kb kb' : KnowledgeBase) (names : List String) : Prop where
  named : ∀ id p, kb'.known id = some p → p.nameLower ∈ names.map foldName →
    kb.InClosure names id
  inside : ∀ id, kb.InClosure names id →
    (kb'.known id).map (Primitive.restrict (kb.InClosure names)) =
      (kb.known id).map (Primitive.restrict (kb.InClosure names))
  shut : ∀ a b, kb.InClosure names a → TransitiveEdge kb'.known a b → kb.InClosure names b

theorem SameClosure.refl (kb : KnowledgeBase) (names : List String) : kb.SameClosure kb names where
  named := fun _ _ => InClosure.root
  inside := fun _ _ => rfl
  shut := fun _ _ => InClosure.step

theorem SameClosure.inClosure_iff {kb kb' : KnowledgeBase} {names : List String}
    (h : kb.SameClosure kb' names) {id : UUID} :
    kb'.InClosure names id ↔ kb.InClosure names id := by
  classical
  constructor
  · intro hid
    obtain ⟨root, p, hp, hname, hpath⟩ := hid
    induction hpath with
    | refl => exact h.named root p hp hname
    | tail _ hedge ih => exact h.shut _ _ ih hedge
  · intro hid
    have hmatch : ∀ a p, kb.InClosure names a → kb.known a = some p → ∃ p',
        kb'.known a = some p' ∧
          p'.restrict (kb.InClosure names) = p.restrict (kb.InClosure names) := by
      intro a p ha hp
      have hsame := h.inside a ha
      rw [hp, Option.map_some] at hsame
      exact Option.map_eq_some_iff.mp hsame
    obtain ⟨root, p, hp, hname, hpath⟩ := hid
    have hroot := InClosure.root hp hname
    obtain ⟨p', hp', heq⟩ := hmatch root p hroot hp
    have hname' : p'.nameLower ∈ names.map foldName := by
      have hsame := congrArg Primitive.nameLower heq
      rw [Primitive.nameLower_restrict, Primitive.nameLower_restrict] at hsame
      exact hsame ▸ hname
    refine ⟨root, p', hp', hname', ?_⟩
    have hboth : Relation.ReflTransGen (TransitiveEdge kb'.known) root id ∧
        kb.InClosure names id := by
      induction hpath with
      | refl => exact ⟨.refl, hroot⟩
      | tail _ hedge ih =>
          have hnext := ih.2.step hedge
          obtain ⟨q, hq, r, hr, rfl, htype⟩ := hedge
          obtain ⟨q', hq', heq⟩ := hmatch _ q ih.2 hq
          have hr' := (mem_relata_restrict.mp
            (heq.symm ▸ mem_relata_restrict.mpr ⟨hr, hnext⟩)).1
          exact ⟨ih.1.tail ⟨q', hq', r, hr', rfl, htype⟩, hnext⟩
    exact hboth.1

theorem SameClosure.trans {kb kb' kb'' : KnowledgeBase} {names : List String}
    (h : kb.SameClosure kb' names) (h' : kb'.SameClosure kb'' names) :
    kb.SameClosure kb'' names := by
  have hclosure : kb'.InClosure names = kb.InClosure names := by
    funext id
    exact propext h.inClosure_iff
  refine ⟨?_, ?_, ?_⟩
  · intro id p hp hname
    exact h.inClosure_iff.mp (h'.named id p hp hname)
  · intro id hid
    have hinside := h'.inside id (h.inClosure_iff.mpr hid)
    rw [hclosure] at hinside
    exact hinside.trans (h.inside id hid)
  · intro a b ha hedge
    exact h.inClosure_iff.mp (h'.shut a b (h.inClosure_iff.mpr ha) hedge)

/-! ## Subgraphs of the same closure -/

namespace Resolves

variable {kb : KnowledgeBase} {names : List String} {sg : ResolvedSubgraph}

open Classical in
/-- The nodes are the primitives of the closure, cut down to it. -/
theorem mem_nodes (h : kb.Resolves names sg) {node : Primitive} : node ∈ sg.nodes ↔
    ∃ id p, kb.InClosure names id ∧ kb.known id = some p ∧
      node = p.restrict (kb.InClosure names) := by
  have hwithin : ∀ p : Primitive, p.within sg.ids = p.restrict (kb.InClosure names) := by
    intro p
    simp only [Primitive.within, Primitive.restrict, h.mem_ids]
  constructor
  · intro hnode
    obtain ⟨p, hp, heq⟩ := h.nodes node hnode
    exact ⟨node.id, p, (h.mem_ids _).mp (List.mem_map_of_mem hnode), hp, heq.trans (hwithin p)⟩
  · intro hnode
    obtain ⟨id, p, hid, hp, rfl⟩ := hnode
    obtain ⟨node, hnode, rfl⟩ := List.mem_map.mp ((h.mem_ids id).mpr hid)
    obtain ⟨p', hp', heq⟩ := h.nodes node hnode
    obtain rfl := Option.some.inj (hp.symm.trans hp')
    rw [← hwithin, ← heq]
    exact hnode

theorem coherent (h : kb.Resolves names sg) : sg.Coherent names := by
  have hedge : ∀ e ∈ sg.edges, ∃ node ∈ sg.nodes, e.sourceId = node.id ∧ e.targetId ∈ sg.ids := by
    intro e he
    obtain ⟨node, hnode, he⟩ := List.mem_flatMap.mp (h.edges.mem_iff.mp he)
    obtain ⟨rel, hrel, rfl⟩ := List.mem_map.mp he
    obtain ⟨p, -, heq⟩ := h.nodes node hnode
    obtain ⟨d, hd, r, hr, rfl⟩ := Tables.mem_toRelata.mp hrel
    rw [heq] at hd
    obtain ⟨d', -, rfl⟩ := List.mem_map.mp hd
    exact ⟨node, hnode, rfl, of_decide_eq_true (List.mem_filter.mp hr).2⟩
  refine ⟨h.nodup, ?_, h.roots, ?_, ?_⟩
  · apply List.Nodup.map_on
    · intro a ha b hb hname
      obtain ⟨p, hp, heq⟩ := h.nodes a ha
      obtain ⟨q, hq, heq'⟩ := h.nodes b hb
      have hsame : p.nameLower = q.nameLower := by
        rw [heq, heq'] at hname
        exact hname
      exact List.inj_on_of_nodup_map h.nodup ha hb (kb.one_name _ _ p q hp hq hsame)
    · exact h.nodup.of_map
  · intro e he
    obtain ⟨node, hnode, hsource, -⟩ := hedge e he
    exact hsource ▸ List.mem_map_of_mem hnode
  · intro e he
    obtain ⟨node, -, -, htarget⟩ := hedge e he
    exact htarget

/-- Two subgraphs of one closure differ in order. -/
theorem perm {kb' : KnowledgeBase} {sg' : ResolvedSubgraph} (h : kb.Resolves names sg)
    (h' : kb'.Resolves names sg') (hsame : kb.SameClosure kb' names) :
    sg'.nodes.Perm sg.nodes ∧ sg'.edges.Perm sg.edges := by
  classical
  have hclosure : kb'.InClosure names = kb.InClosure names := by
    funext id
    exact propext hsame.inClosure_iff
  have hnodes : sg'.nodes.Perm sg.nodes := by
    apply (List.perm_ext_iff_of_nodup h'.nodup.of_map h.nodup.of_map).mpr
    intro node
    rw [h.mem_nodes, h'.mem_nodes]
    constructor
    · intro hnode
      obtain ⟨id, p', hid, hp', rfl⟩ := hnode
      simp only [hclosure] at hid ⊢
      have hinside := hsame.inside id hid
      rw [hp', Option.map_some] at hinside
      obtain ⟨p, hp, heq⟩ := Option.map_eq_some_iff.mp hinside.symm
      exact ⟨id, p, hid, hp, heq.symm⟩
    · intro hnode
      obtain ⟨id, p, hid, hp, rfl⟩ := hnode
      simp only [hclosure]
      have hinside := hsame.inside id hid
      rw [hp, Option.map_some] at hinside
      obtain ⟨p', hp', heq⟩ := Option.map_eq_some_iff.mp hinside
      exact ⟨id, p', hid, hp', heq.symm⟩
  refine ⟨hnodes, h'.edges.trans ((hnodes.flatMap_right _).trans h.edges.symm)⟩

end Resolves

/-- The identifiers drawn are new to the map. -/
structure Spare (kb : KnowledgeBase) (draw : Draw) : Prop where
  unused : ∀ i, kb.known (draw.uuid4 i) = none
  distinct : Function.Injective draw.uuid4

theorem Resolves.apart {kb : KnowledgeBase} {draw : Draw} {names : List String}
    {sg : ResolvedSubgraph} (h : kb.Resolves names sg) (hspare : kb.Spare draw)
    (minDepth : Option DepthLevel) :
    (⟨draw, names, minDepth, sg⟩ : GroundingEngine.Inquiry).Apart := by
  obtain ⟨seen, hordered⟩ := GroundingEngine.identifyRoots_ordered h.coherent draw
  have hids : (⟨draw, names, minDepth, sg⟩ : GroundingEngine.Inquiry).transientIds =
      (List.range _).map draw.uuid4 := hordered.ids
  refine ⟨h.coherent, ?_, ?_⟩
  · intro node hnode hmem
    rw [hids] at hmem
    obtain ⟨i, -, hid⟩ := List.mem_map.mp hmem
    obtain ⟨p, hp, -⟩ := h.nodes node hnode
    rw [← hid, hspare.unused i] at hp
    cases hp
  · rw [hids]
    exact List.nodup_range.map hspare.distinct

end KnowledgeBase

/-! ## Grounding -/

namespace GroundingEngine

theorem ground_of_represents {ρ : Type} [NameFolding] [Repository ρ] {repo : ρ}
    {kb : KnowledgeBase} (h : Represents repo kb) (draw : Draw) {concepts : List String}
    (hne : concepts ≠ []) (minDepth : Option DepthLevel) :
    ∃ sg, kb.Resolves concepts sg ∧ ground draw repo concepts minDepth =
      .ok (⟨draw, concepts, minDepth, sg⟩ : Inquiry).result := by
  obtain ⟨sg, hresolve, hsg⟩ := h.subgraph concepts
  have hquery : query draw repo concepts minDepth =
      .ok (⟨draw, concepts, minDepth, sg⟩ : Inquiry).response := by
    simp only [query, List.isEmpty_iff, hne, if_false, hresolve, Loops.ok_bind]
    exact Inquiry.respond_eq ⟨draw, concepts, minDepth, sg⟩ hsg.coherent
  refine ⟨sg, hsg, ?_⟩
  simp only [ground, List.isEmpty_iff, hne, if_false, hquery, Loops.ok_bind]
  rfl

/-- Repositories of any two kinds that agree on the closure of a query give it the same
answer, up to the order of what the answer lists. -/
theorem ground_local {ρ τ : Type} [NameFolding] [Repository ρ] [Repository τ] {repo : ρ}
    {repo' : τ} {kb kb' : KnowledgeBase} (h : Represents repo kb) (h' : Represents repo' kb')
    {concepts : List String} (hsame : kb.SameClosure kb' concepts) {draw : Draw}
    (hspare : kb.Spare draw) (hspare' : kb'.Spare draw) (minDepth : Option DepthLevel) :
    ∃ r r', ground draw repo concepts minDepth = .ok r ∧
      ground draw repo' concepts minDepth = .ok r' ∧ r'.Agrees r := by
  by_cases hne : concepts = []
  · subst hne
    exact ⟨_, _, rfl, rfl, rfl, rfl, .refl _, ⟨_, _, rfl, rfl, rfl, .refl _, .refl _, .refl _⟩, rfl⟩
  · obtain ⟨sg, hsg, hground⟩ := ground_of_represents h draw hne minDepth
    obtain ⟨sg', hsg', hground'⟩ := ground_of_represents h' draw hne minDepth
    obtain ⟨hnodes, hedges⟩ := hsg.perm hsg' hsame
    have hrearranged : Inquiry.Rearranged ⟨draw, concepts, minDepth, sg⟩
        ⟨draw, concepts, minDepth, sg'⟩ :=
      ⟨hsg.apart hspare minDepth, hsg'.apart hspare' minDepth, rfl, rfl, rfl, hnodes, hedges⟩
    exact ⟨_, _, hground, hground', hrearranged.agrees⟩

end GroundingEngine

theorem Draw.Fresh.spare [NameFolding] {draw : Draw} {t : Tables} (h : draw.Fresh t)
    (hwell : t.WellFormed) : (t.knowledge hwell).Spare draw where
  unused := fun i => Tables.live_eq_none.mpr (h.unused i)
  distinct := h.distinct

theorem GroundingEngine.sound_writeFile [NameFolding] : writeFile.Sound :=
  Operation.sound_foldl _

/-- A SQLite store and a graph that agree on the closure of a query answer it alike. -/
theorem GroundingEngine.backends_ground_alike [NameFolding] {db : SqliteRepository}
    {graph : Neo4jRepository} {kb kb' : KnowledgeBase}
    (hdb : Holds (fun t => (⟨t, none⟩ : SqliteRepository)) db kb)
    (hgraph : Holds Tables.toGraph graph kb') {concepts : List String}
    (hsame : kb.SameClosure kb' concepts) {draw : Draw} (hspare : kb.Spare draw)
    (hspare' : kb'.Spare draw) (minDepth : Option DepthLevel) :
    ∃ r r', ground draw db concepts minDepth = .ok r ∧
      ground draw graph concepts minDepth = .ok r' ∧ r'.Agrees r :=
  ground_local (Sqlite.realizes.represents hdb) (Neo4j.realizes.represents hgraph) hsame hspare
    hspare' minDepth

/-- The Neo4j copy of a SQLite store gives the store's answer. -/
theorem GroundingEngine.backends_ground_alike_writeFile : letI := asciiFolding
    ∃ r r', ground ⟨fun i => i + 5, 0⟩ writeFile ["write", "paper"] none = .ok r ∧
      ground ⟨fun i => i + 5, 0⟩ writeFile.tables.toGraph ["write", "paper"] none = .ok r' ∧
      r'.Agrees r := by
  let _ := asciiFolding
  have hsound := sound_writeFile
  have hfresh : Draw.Fresh ⟨fun i => i + 5, 0⟩ writeFile.tables :=
    Draw.fresh_above 0 (by decide)
  have hspare := hfresh.spare hsound.2
  exact backends_ground_alike ⟨_, hsound.2, hsound.eq_idle, rfl⟩ ⟨_, hsound.2, rfl, rfl⟩
    (.refl _ _) hspare hspare none

/-! ## Calls that keep clear of a closure -/

namespace KnowledgeBase

variable [NameFolding]

/-- The call neither touches the closure of the names nor brings in one of the names. -/
def Avoids (kb : KnowledgeBase) (names : List String) : RepositoryCall → Prop
  | .save p => ¬ kb.InClosure names p.id ∧ p.nameLower ∉ names.map foldName
  | .upsert p => ¬ kb.InClosure names (kb.canonical p).id ∧ p.nameLower ∉ names.map foldName
  | .delete id => ¬ kb.InClosure names id
  | .clear => ∀ id, ¬ kb.InClosure names id
  | .updateMetrics id _ => ¬ kb.InClosure names id
  | .batchUpdateMetrics updates => ∀ e ∈ updates.entries, ¬ kb.InClosure names e.1

theorem sameClosure_write {kb : KnowledgeBase} {names : List String} {p : Primitive}
    (h : kb.Admits p) (hid : ¬ kb.InClosure names p.id) (hname : p.nameLower ∉ names.map foldName) :
    kb.SameClosure (kb.write p h) names := by
  have hknown : ∀ a, kb.InClosure names a → (kb.write p h).known a = kb.known a := by
    intro a ha
    apply Function.update_of_ne
    intro heq
    exact hid (heq ▸ ha)
  refine ⟨?_, ?_, ?_⟩
  · intro a q hq hq'
    rcases update_eq_some.mp hq with ⟨-, rfl⟩ | ⟨-, hq⟩
    · exact absurd hq' hname
    · exact .root hq hq'
  · intro a ha
    rw [hknown a ha]
  · intro a b ha hedge
    rw [TransitiveEdge, hknown a ha] at hedge
    exact ha.step hedge

theorem sameClosure_save (policy : MissingTarget) {kb : KnowledgeBase} {names : List String}
    {p : Primitive} (hid : ¬ kb.InClosure names p.id) (hname : p.nameLower ∉ names.map foldName) :
    kb.SameClosure (kb.save policy p).2 names := by
  rcases save_cases policy kb p with ⟨cls, heq⟩ | ⟨h, heq⟩
  · rw [heq]
    exact .refl kb names
  · rw [heq]
    cases policy with
    | refused => exact sameClosure_write h hid hname
    | dropped => exact sameClosure_write h hid hname

theorem sameClosure_erase {kb : KnowledgeBase} {names : List String} {id : UUID}
    (hid : ¬ kb.InClosure names id) : kb.SameClosure (kb.erase id) names := by
  classical
  refine ⟨?_, ?_, ?_⟩
  · intro a q hq hname
    obtain ⟨-, p, hp, rfl⟩ := erased_eq_some.mp hq
    exact .root hp hname
  · intro a ha
    have hne : a ≠ id := fun heq => hid (heq ▸ ha)
    have hknown : (kb.erase id).known a = (kb.known a).map (Primitive.restrict (· ≠ id)) :=
      if_neg hne
    rw [hknown, Option.map_map]
    apply Option.map_congr
    intro p _
    apply restrict_restrict
    intro b hb heq
    exact hid (heq ▸ hb)
  · intro a b ha hedge
    obtain ⟨q, hq, r, hr, htarget⟩ := hedge
    obtain ⟨-, p, hp, rfl⟩ := erased_eq_some.mp hq
    exact ha.step ⟨p, hp, r, (mem_relata_restrict.mp hr).1, htarget⟩

theorem sameClosure_setMetrics {kb : KnowledgeBase} {names : List String} {id : UUID}
    (hid : ¬ kb.InClosure names id) (metrics : PrimitiveMetrics) :
    kb.SameClosure (kb.setMetrics id metrics) names := by
  have hknown : ∀ a, kb.InClosure names a → (kb.setMetrics id metrics).known a = kb.known a := by
    intro a ha
    have hne : a ≠ id := fun heq => hid (heq ▸ ha)
    change (kb.known a).map (Primitive.counted id metrics a) = kb.known a
    cases kb.known a with
    | none => rfl
    | some p => exact congrArg some (if_neg hne)
  refine ⟨?_, ?_, ?_⟩
  · intro a q hq hname
    obtain ⟨p, hp, rfl⟩ := Option.map_eq_some_iff.mp hq
    obtain ⟨metrics', heq⟩ := counted_eq id metrics a p
    rw [heq] at hname
    exact .root hp hname
  · intro a ha
    rw [hknown a ha]
  · intro a b ha hedge
    rw [TransitiveEdge, hknown a ha] at hedge
    exact ha.step hedge

theorem sameClosure_foldl_setMetrics {names : List String}
    (entries : List (UUID × PrimitiveMetrics)) {kb : KnowledgeBase}
    (h : ∀ e ∈ entries, ¬ kb.InClosure names e.1) :
    kb.SameClosure (entries.foldl (fun kb e => kb.setMetrics e.1 e.2) kb) names := by
  induction entries generalizing kb with
  | nil => exact .refl kb names
  | cons e rest ih =>
      have hfirst := sameClosure_setMetrics (h e List.mem_cons_self) e.2
      apply hfirst.trans
      apply ih
      intro e' he' hinside
      exact h e' (List.mem_cons_of_mem e he') (hfirst.inClosure_iff.mp hinside)

/-- One call that avoids the closure leaves it as it stands. -/
theorem sameClosure_step (policy : MissingTarget) {kb : KnowledgeBase} {names : List String}
    {call : RepositoryCall} (h : kb.Avoids names call) :
    kb.SameClosure (kb.step policy call).2 names := by
  cases call with
  | save p =>
      rw [step, snd_answer]
      exact sameClosure_save policy h.1 h.2
  | upsert p =>
      rw [step, snd_answer]
      have hname : (kb.canonical p).nameLower = p.nameLower := by
        unfold canonical
        split <;> rfl
      exact sameClosure_save policy h.1 (hname ▸ h.2)
  | delete id => exact sameClosure_erase h
  | clear =>
      constructor
      · intro id p hp
        cases hp
      · intro a ha
        exact absurd ha (h a)
      · intro a b ha
        exact absurd ha (h a)
  | updateMetrics id metrics => exact sameClosure_setMetrics h metrics
  | batchUpdateMetrics updates => exact sameClosure_foldl_setMetrics updates.entries h

/-- A run of calls that avoid the closure leaves it as it stands. -/
theorem sameClosure_run (policy : MissingTarget) {names : List String}
    (calls : List RepositoryCall) {kb : KnowledgeBase}
    (h : Runs.EveryStep (step policy) (fun kb call => kb.Avoids names call) kb calls) :
    kb.SameClosure (calls.foldl (fun kb call => (kb.step policy call).2) kb) names := by
  induction calls generalizing kb with
  | nil => exact .refl kb names
  | cons call rest ih => exact (sameClosure_step policy h.1).trans (ih h.2)

end KnowledgeBase

theorem Realizes.run {ρ : Type} [NameFolding] [Repository ρ] {wrap : Tables → ρ}
    {policy : KnowledgeBase.MissingTarget} (hreal : Realizes wrap policy)
    (calls : List RepositoryCall) {repo : ρ} {kb : KnowledgeBase} (h : Holds wrap repo kb) :
    Holds wrap (calls.foldl (fun repo call => (call.step repo).2) repo)
      (calls.foldl (fun kb call => (kb.step policy call).2) kb) := by
  induction calls generalizing repo kb with
  | nil => exact h
  | cons call rest ih => exact ih (hreal.step h call).2

/-- After any run of calls that keep clear of a query's closure, the query is answered as
before the run. -/
theorem GroundingEngine.ground_unaffected {ρ : Type} [NameFolding] [Repository ρ]
    {wrap : Tables → ρ} {policy : KnowledgeBase.MissingTarget} (hreal : Realizes wrap policy)
    {repo : ρ} {kb : KnowledgeBase} (h : Holds wrap repo kb) {concepts : List String}
    {calls : List RepositoryCall} (havoids : Runs.EveryStep (KnowledgeBase.step policy)
      (fun kb call => kb.Avoids concepts call) kb calls) {draw : Draw} (hspare : kb.Spare draw)
    (hspare' : (calls.foldl (fun kb call => (kb.step policy call).2) kb).Spare draw)
    (minDepth : Option DepthLevel) :
    ∃ r r', ground draw repo concepts minDepth = .ok r ∧
      ground draw (calls.foldl (fun repo call => (call.step repo).2) repo) concepts minDepth =
        .ok r' ∧ r'.Agrees r :=
  ground_local (hreal.represents h) (hreal.represents (hreal.run calls h))
    (KnowledgeBase.sameClosure_run policy calls havoids) hspare hspare' minDepth

/-- A save under another id uses up none of the identifiers to be drawn. -/
theorem KnowledgeBase.Spare.save [NameFolding] {kb : KnowledgeBase} {draw : Draw}
    (h : kb.Spare draw) (policy : KnowledgeBase.MissingTarget) {p : Primitive}
    (hne : ∀ i, draw.uuid4 i ≠ p.id) : (kb.save policy p).2.Spare draw := by
  refine ⟨?_, h.distinct⟩
  intro i
  rcases save_cases policy kb p with ⟨cls, heq⟩ | ⟨hadmits, heq⟩
  · rw [heq]
    exact h.unused i
  · have hid : (kb.offered policy p).id = p.id := by
      cases policy <;> rfl
    have hother : (kb.write _ hadmits).known (draw.uuid4 i) = kb.known (draw.uuid4 i) :=
      Function.update_of_ne (hid ▸ hne i) _ _
    rw [heq, hother]
    exact h.unused i

theorem KnowledgeBase.not_inClosure_of_unknown [NameFolding] {kb : KnowledgeBase}
    {names : List String} {id : UUID} (h : kb.known id = none) : ¬ kb.InClosure names id := by
  intro hinside
  obtain ⟨p, hp⟩ := hinside.known
  rw [h] at hp
  cases hp

def notes : Primitive :=
  sample 3 "Notes" [.existence] []

/-- Saving `Notes` leaves the answer about `Write` alone. -/
theorem GroundingEngine.ground_unaffected_notes : letI := asciiFolding
    ∃ r r', ground ⟨fun i => i + 5, 0⟩ writeFile ["write"] none = .ok r ∧
      ground ⟨fun i => i + 5, 0⟩
        ([RepositoryCall.save notes].foldl (fun repo call => (call.step repo).2) writeFile)
        ["write"] none = .ok r' ∧
      r'.Agrees r := by
  let _ := asciiFolding
  have hsound := sound_writeFile
  have hholds : Holds (fun t => (⟨t, none⟩ : SqliteRepository)) writeFile
      (writeFile.tables.knowledge hsound.2) :=
    ⟨_, hsound.2, hsound.eq_idle, rfl⟩
  have hfresh : Draw.Fresh ⟨fun i => i + 5, 0⟩ writeFile.tables :=
    Draw.fresh_above 0 (by decide)
  have hspare := hfresh.spare hsound.2
  have habsent : ¬ writeFile.tables.Stored notes.id := by
    unfold Tables.Stored
    decide
  have hunknown : (writeFile.tables.knowledge hsound.2).known notes.id = none :=
    (Tables.knowledge_eq_none hsound.2).mpr habsent
  have hname : notes.nameLower ∉ ["write"].map foldName := by decide
  have hcall : (writeFile.tables.knowledge hsound.2).Avoids ["write"] (.save notes) :=
    ⟨KnowledgeBase.not_inClosure_of_unknown hunknown, hname⟩
  have havoids : Runs.EveryStep (KnowledgeBase.step .refused)
      (fun kb call => kb.Avoids ["write"] call) (writeFile.tables.knowledge hsound.2)
      [.save notes] :=
    ⟨hcall, trivial⟩
  have hother : ∀ i, i + 5 ≠ notes.id := by
    intro i heq
    have hsucc : i + 5 = 3 := heq
    simp at hsucc
  have hspare' := hspare.save .refused hother
  rw [← KnowledgeBase.snd_answer] at hspare'
  exact ground_unaffected Sqlite.realizes hholds havoids hspare hspare' none

end Vre
