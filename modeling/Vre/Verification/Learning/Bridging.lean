import Vre.Verification.Grounding.Composition
import Vre.Verification.Grounding.Connectivity
import Vre.Verification.Learning.Backends
import Vre.Verification.Learning.Placement

/-! # Joining what stands apart

When a check reports nothing but isolated concepts, each edge that is placed between two
components of its closure makes them one and owes nothing. So the placements end, after one
fewer of them than there are components, with a check that is grounded.
-/

namespace Vre

namespace Tables

variable [NameFolding]

theorem named_iff_live {t : Tables} (h : t.Schema) {names : List String} {id : UUID} :
    t.Named names id ↔ ∃ p, t.live id = some p ∧ p.nameLower ∈ names.map foldName := by
  constructor
  · intro hnamed
    obtain ⟨row, hrow, rfl, hname⟩ := hnamed
    exact ⟨_, (live_eq_some h).mpr ⟨row, hrow, rfl, rfl⟩, (h.nameLower_loadRow hrow).symm ▸ hname⟩
  · intro hlive
    obtain ⟨p, hp, hname⟩ := hlive
    obtain ⟨row, hrow, rfl, rfl⟩ := (live_eq_some h).mp hp
    exact ⟨row, hrow, rfl, h.nameLower_loadRow hrow ▸ hname⟩

theorem exists_row_iff_live {t : Tables} (h : t.Schema) {key : String} :
    (∃ row ∈ t.primitives, row.nameLower = key) ↔
      ∃ id p, t.live id = some p ∧ p.nameLower = key := by
  constructor
  · intro hrow
    obtain ⟨row, hrow, rfl⟩ := hrow
    exact ⟨_, _, (live_eq_some h).mpr ⟨row, hrow, rfl, rfl⟩, h.nameLower_loadRow hrow⟩
  · intro hlive
    obtain ⟨id, p, hp, rfl⟩ := hlive
    obtain ⟨row, hrow, rfl, rfl⟩ := (live_eq_some h).mp hp
    exact ⟨row, hrow, (h.nameLower_loadRow hrow).symm⟩

/-- How many components the primitives with the names are in. -/
noncomputable def componentCount (t : Tables) (names : List String) : ℕ :=
  (Digraph.components (t.ClosureEdge names) {id | t.Named names id}).ncard

theorem finite_named (t : Tables) (names : List String) : {id | t.Named names id}.Finite := by
  apply (List.finite_toSet (t.primitives.map PrimitiveRow.id)).subset
  intro id hid
  obtain ⟨row, hrow, rfl, -⟩ := hid
  exact List.mem_map_of_mem hrow

/-- A primitive is at least as deep as the closure shows. -/
theorem InClosure.meets_live {t : Tables} (ht : t.Schema) {names : List String} {p : Primitive}
    (h : t.InClosure names p.id) (hp : t.live p.id = some p) {d : DepthLevel}
    (hmeets : Meets ((t.subgraph names).depthAt p.id) d) : Meets p.contiguousMaxDepth d := by
  apply meets_contiguousMaxDepth.mpr
  intro l hl
  obtain ⟨depth, hdepth, rfl, hwhy⟩ := (meets_depthAt ht h hp).mp hmeets l hl
  have hgrounds : depth.grounds = true := by
    apply grounds_iff.mpr
    apply hwhy.imp_right
    apply Or.imp_right
    intro hrelatum
    obtain ⟨r, hr, -⟩ := hrelatum
    exact List.ne_nil_of_mem hr
  exact mem_groundingLevels.mpr ⟨depth, hdepth, hgrounds, rfl⟩

end Tables

namespace LearningEngine

/-! ## One placement inside the closure -/

namespace EdgePlaced

variable {draw : Draw} {t t' : Tables} {edge : EdgeProposal} {sourceId targetId : UUID}
  (hplaced : EdgePlaced draw t t' edge sourceId targetId)
include hplaced

theorem mem_relata {rel : RelatumRow} : rel ∈ t'.relata ↔
    rel = (EdgeProposal.toRelatum edge targetId (makeProvenance draw .learned)).toRow sourceId
      edge.sourceDepthLevel ∨ rel ∈ t.relata := by
  rw [hplaced.relata.mem_iff, List.mem_cons]

variable [NameFolding]

/-- The stored primitives keep their names, and their depths but for the one relatum. -/
theorem live_eq (h : t.Schema) (id : UUID) : (t'.live id = none ∧ t.live id = none) ∨
    ∃ p p', t.live id = some p ∧ t'.live id = some p' ∧ p'.name = p.name ∧
      ∀ d ∈ p.depths, ∃ d' ∈ p'.depths, d'.level = d.level ∧ d'.properties = d.properties ∧
        d.relata ⊆ d'.relata := by
  obtain ⟨p, p', hp, hlinked, hupdated⟩ := hplaced.linked
  have hid : p'.id = sourceId := hlinked.id.trans (Tables.live_id h hp)
  by_cases hself : id = sourceId
  · apply Or.inr
    refine ⟨p, p', hself ▸ hp, ?_, hlinked.name, ?_⟩
    · rw [hupdated, if_pos (hself.trans hid.symm)]
    · intro d hd
      refine ⟨_, hlinked.depths ▸ List.mem_map_of_mem hd, level_ite_attach d, ?_, ?_⟩
      · split <;> rfl
      · split
        · exact List.subset_append_left _ _
        · exact List.Subset.refl _
  · have hsame : t'.live id = t.live id := by
      rw [hupdated, if_neg fun heq => hself (heq.trans hid)]
    cases hlive : t.live id with
    | none => exact Or.inl ⟨hsame.trans hlive, rfl⟩
    | some q =>
        apply Or.inr
        refine ⟨q, q, rfl, hsame.trans hlive, rfl, ?_⟩
        intro d hd
        exact ⟨d, hd, rfl, rfl, List.Subset.refl _⟩

theorem named_iff (h : t.Schema) (h' : t'.Schema) {names : List String} {id : UUID} :
    t'.Named names id ↔ t.Named names id := by
  rw [Tables.named_iff_live h, Tables.named_iff_live h']
  rcases hplaced.live_eq h id with ⟨hnone', hnone⟩ | ⟨p, p', hp, hp', hname, -⟩
  · simp [hnone, hnone']
  · simp [hp, hp', Primitive.nameLower, hname]

theorem exists_row_iff (h : t.Schema) (h' : t'.Schema) {key : String} :
    (∃ row ∈ t'.primitives, row.nameLower = key) ↔ ∃ row ∈ t.primitives, row.nameLower = key := by
  rw [Tables.exists_row_iff_live h, Tables.exists_row_iff_live h']
  apply exists_congr
  intro id
  rcases hplaced.live_eq h id with ⟨hnone', hnone⟩ | ⟨p, p', hp, hp', hname, -⟩
  · simp [hnone, hnone']
  · simp [hp, hp', Primitive.nameLower, hname]

variable (h : t.Schema) (h' : t'.Schema) {names : List String}
  (htarget : t.InClosure names targetId)
include h h' htarget

/-- An edge inside the closure brings nothing into it. -/
theorem inClosure_iff {id : UUID} : t'.InClosure names id ↔ t.InClosure names id := by
  constructor
  · intro hinside
    obtain ⟨root, hroot, hpath⟩ := hinside
    induction hpath with
    | refl => exact ((hplaced.named_iff h h').mp hroot).inClosure
    | tail _ hedge ih =>
        obtain ⟨rel, hrel, rfl, rfl, htype⟩ := hedge
        rcases hplaced.mem_relata.mp hrel with rfl | hrel
        · exact htarget
        · exact ih.step ⟨rel, hrel, rfl, rfl, htype⟩
  · intro hinside
    obtain ⟨root, hroot, hpath⟩ := hinside
    have hkept : ∀ a b, t.TransEdge a b → t'.TransEdge a b := by
      intro a b hedge
      obtain ⟨rel, hrel, hends⟩ := hedge
      exact ⟨rel, hplaced.mem_relata.mpr (Or.inr hrel), hends⟩
    exact ⟨root, (hplaced.named_iff h h').mpr hroot,
      Relation.ReflTransGen.mono hkept _ _ hpath⟩

/-- What the closure shows of a primitive's depth does not shrink. -/
theorem meets_depthAt {id : UUID} (hinside : t.InClosure names id) {d : DepthLevel}
    (hmeets : Meets ((t.subgraph names).depthAt id) d) :
    Meets ((t'.subgraph names).depthAt id) d := by
  have hinside' := (hplaced.inClosure_iff h h' htarget).mpr hinside
  rcases hplaced.live_eq h id with ⟨-, hnone⟩ | ⟨p, p', hp, hp', -, hdepths⟩
  · exact absurd (hinside.stored h) (Tables.live_eq_none.mp hnone)
  · apply (Tables.meets_depthAt h' hinside' hp').mpr
    intro l hl
    obtain ⟨depth, hdepth, hlevel, hwhy⟩ := (Tables.meets_depthAt h hinside hp).mp hmeets l hl
    obtain ⟨depth', hdepth', hlevel', hproperties, hrelata⟩ := hdepths depth hdepth
    refine ⟨depth', hdepth', hlevel'.trans hlevel, ?_⟩
    rcases hwhy with hexistence | hcontent | ⟨r, hr, hrinside⟩
    · exact Or.inl hexistence
    · exact Or.inr (Or.inl (hproperties ▸ hcontent))
    · exact Or.inr (Or.inr ⟨r, hrelata hr,
        (hplaced.inClosure_iff h h' htarget).mpr hrinside⟩)

variable (hsource : t.InClosure names sourceId)
include hsource

theorem closureEdge_eq : t'.ClosureEdge names =
    Digraph.Insert (t.ClosureEdge names) sourceId targetId := by
  funext a b
  simp only [Tables.ClosureEdge, Tables.mem_closureRelata, hplaced.mem_relata,
    hplaced.inClosure_iff h h' htarget, Digraph.Insert, eq_iff_iff]
  constructor
  · intro hedge
    obtain ⟨rel, ⟨rfl | hrel, hinside⟩, rfl, rfl⟩ := hedge
    · exact Or.inr ⟨rfl, rfl⟩
    · exact Or.inl ⟨rel, ⟨hrel, hinside⟩, rfl, rfl⟩
  · intro hedge
    rcases hedge with ⟨rel, ⟨hrel, hinside⟩, rfl, rfl⟩ | ⟨rfl, rfl⟩
    · exact ⟨rel, ⟨Or.inr hrel, hinside⟩, rfl, rfl⟩
    · exact ⟨_, ⟨Or.inl rfl, hsource, htarget⟩, rfl, rfl⟩

/-- An edge whose ends are deep enough for it owes nothing. -/
theorem satisfied {before after : Draw} {minDepth : Option DepthLevel}
    (hsat : (t.inquiry before names minDepth).Satisfied)
    (hsourceDepth : Meets ((t.subgraph names).depthAt sourceId) edge.sourceDepthLevel)
    (htargetDepth : Meets ((t.subgraph names).depthAt targetId) edge.targetDepthLevel) :
    (t'.inquiry after names minDepth).Satisfied := by
  have hkept : ∀ {id d}, t.InClosure names id → Meets ((t.subgraph names).depthAt id) d →
      Meets ((t'.subgraph names).depthAt id) d := by
    intro id d hinside hmeets
    exact hplaced.meets_depthAt h h' htarget hinside hmeets
  obtain ⟨hstored, hedges, hfloor⟩ := (GroundingEngine.satisfied_iff h).mp hsat
  apply (GroundingEngine.satisfied_iff h').mpr
  refine ⟨?_, ?_, ?_⟩
  · intro c hc
    exact (hplaced.exists_row_iff h h').mpr (hstored c hc)
  · intro rel hrel
    simp only [hplaced.inClosure_iff h h' htarget]
    intro hsourceIn htargetIn
    rcases hplaced.mem_relata.mp hrel with rfl | hrel
    · exact ⟨hkept hsource hsourceDepth, hkept htarget htargetDepth⟩
    · obtain ⟨hs, ht⟩ := hedges rel hrel hsourceIn htargetIn
      exact ⟨hkept hsourceIn hs, hkept htargetIn ht⟩
  · intro floor hmin id hnamed
    have hnamed := (hplaced.named_iff h h').mp hnamed
    exact hkept hnamed.inClosure (hfloor floor hmin id hnamed)

/-- An edge between two components of the closure leaves one fewer. -/
theorem componentCount_eq
    (hapart : ¬ Digraph.Connected (t.ClosureEdge names) sourceId targetId) :
    t'.componentCount names + 1 = t.componentCount names := by
  have hnamed : {id | t'.Named names id} = {id | t.Named names id} := by
    ext id
    exact hplaced.named_iff h h'
  rw [Tables.componentCount, Tables.componentCount, hnamed,
    hplaced.closureEdge_eq h h' htarget hsource]
  exact Digraph.ncard_components_insert (t.finite_named names) hsource.connected
    htarget.connected hapart

end EdgePlaced

/-! ## Runs of placements -/

section

variable [NameFolding]

/-- The call proposes an edge between two components of the closure of the names, no deeper
than the closure shows its ends to be. -/
inductive Bridges (names : List String) (t : Tables) : LearnCall → Prop where
  | edge {draw : Draw} {gap : ReachabilityGap} {candidate : ReachabilityCandidate}
      {edge : EdgeProposal} {source target : Primitive}
      (hedge : candidate.validateForGap (.reachability gap) = .ok edge)
      (hsource : t.named edge.sourceName = some source)
      (htarget : t.named edge.targetName = some target)
      (hsourceIn : t.InClosure names source.id) (htargetIn : t.InClosure names target.id)
      (hsourceDepth : Meets ((t.subgraph names).depthAt source.id) edge.sourceDepthLevel)
      (htargetDepth : Meets ((t.subgraph names).depthAt target.id) edge.targetDepthLevel)
      (hapart : ¬ Digraph.Connected (t.ClosureEdge names) source.id target.id) :
      Bridges names t ⟨draw, .reachability gap, .reachability candidate⟩

/-- How a caller tells, from the resolved subgraph, that the edge is a bridge. -/
theorem Bridges.of_subgraph {names : List String} {t : Tables} (a b : UUID)
    {draw : Draw} {gap : ReachabilityGap} {candidate : ReachabilityCandidate}
    {edge : EdgeProposal} (hedge : candidate.validateForGap (.reachability gap) = .ok edge)
    (hsource : (t.named edge.sourceName).map Primitive.id = some a)
    (htarget : (t.named edge.targetName).map Primitive.id = some b)
    (hsourceIn : a ∈ (t.subgraph names).nodes.map Primitive.id)
    (htargetIn : b ∈ (t.subgraph names).nodes.map Primitive.id)
    (hsourceDepth : Meets ((t.subgraph names).depthAt a) edge.sourceDepthLevel)
    (htargetDepth : Meets ((t.subgraph names).depthAt b) edge.targetDepthLevel)
    (hapart : b ∉ GroundingEngine.reachableUndirected a (t.subgraph names).edges) :
    Bridges names t ⟨draw, .reachability gap, .reachability candidate⟩ := by
  obtain ⟨source, hnamed, rfl⟩ := Option.map_eq_some_iff.mp hsource
  obtain ⟨target, hnamed', rfl⟩ := Option.map_eq_some_iff.mp htarget
  have hinside : ∀ id ∈ (t.subgraph names).nodes.map Primitive.id, t.InClosure names id := by
    intro id hid
    obtain ⟨n, hn, rfl⟩ := List.mem_map.mp hid
    obtain ⟨row, -, hrow, rfl⟩ := Tables.mem_closureNodes.mp hn
    exact hrow
  rw [GroundingEngine.mem_reachableUndirected, GroundingEngine.stepEdge_subgraph] at hapart
  exact .edge hedge hnamed hnamed' (hinside _ hsourceIn) (hinside _ htargetIn) hsourceDepth
    htargetDepth hapart

/-- What is left of a query once it owes nothing but connections. -/
structure Knitted (names : List String) (minDepth : Option DepthLevel) (count : ℕ)
    (db : SqliteRepository) : Prop where
  sound : db.Sound
  satisfied : ∀ draw, (db.tables.inquiry draw names minDepth).Satisfied
  count : db.tables.componentCount names = count

/-- A bridge is accepted, and makes two components one. -/
theorem Bridges.step {names : List String} {minDepth : Option DepthLevel} {count : ℕ}
    {db : SqliteRepository} (hknit : Knitted names minDepth (count + 1) db) {call : LearnCall}
    (h : Bridges names db.tables call) :
    (call.step db).1 = .ok () ∧ Knitted names minDepth count (call.step db).2 := by
  have hwell := hknit.sound.2
  have hidle := hknit.sound.eq_idle
  cases h with
  | @edge draw gap candidate edge source target hedge hsource htarget hsourceIn htargetIn
      hsourceDepth htargetDepth hapart =>
      have hsourceLive := (Tables.live_of_named hwell.toSchema hsource).1
      have htargetLive := (Tables.live_of_named hwell.toSchema htarget).1
      have hplaces := learnGap_places draw hwell hedge hsource htarget
        (hsourceIn.meets_live hwell.toSchema hsourceLive hsourceDepth)
        (htargetIn.meets_live hwell.toSchema htargetLive htargetDepth)
      rcases hplaces with ⟨-, db', hlearn, hplaced⟩ | ⟨⟨-, hpath⟩, -⟩
      · have hstep : LearnCall.step db ⟨draw, .reachability gap, .reachability candidate⟩ =
            (.ok (), db') := by
          rw [LearnCall.step, hidle, hlearn]
        have hsound : db'.Sound := by
          have hnext := LearnCall.sound_next ⟨draw, .reachability gap, .reachability candidate⟩
            hknit.sound
          rw [LearnCall.next, hidle, hlearn] at hnext
          exact hnext
        have hcount := hplaced.componentCount_eq hwell.toSchema hsound.2.toSchema htargetIn
          hsourceIn hapart
        rw [hstep]
        refine ⟨rfl, hsound, ?_, ?_⟩
        · intro after
          exact hplaced.satisfied hwell.toSchema hsound.2.toSchema htargetIn hsourceIn
            (hknit.satisfied after) hsourceDepth htargetDepth
        · have hbefore := hknit.count
          change db'.tables.componentCount names = count
          change db'.tables.componentCount names + 1 = db.tables.componentCount names at hcount
          omega
      -- A cycle would lead from the target back to the source inside the closure.
      · exact absurd (htargetIn.connected_of_path hpath).2.symm hapart

/-- What is named is in some component. -/
theorem Knitted.pos {names : List String} (hne : names ≠ []) {minDepth : Option DepthLevel}
    {count : ℕ} {db : SqliteRepository} (h : Knitted names minDepth count db) : 0 < count := by
  obtain ⟨c, hc⟩ := List.exists_mem_of_ne_nil names hne
  obtain ⟨hstored, -, -⟩ :=
    (GroundingEngine.satisfied_iff h.sound.2.toSchema).mp (h.satisfied ⟨id, 0⟩)
  obtain ⟨row, hrow, hname⟩ := hstored c hc
  have hnamed : db.tables.Named names row.id :=
    ⟨row, hrow, rfl, hname ▸ List.mem_map_of_mem hc⟩
  have hfinite : (Digraph.components (db.tables.ClosureEdge names)
      {id | db.tables.Named names id}).Finite := (db.tables.finite_named names).image _
  rw [← h.count, Tables.componentCount, Set.ncard_pos hfinite]
  exact ⟨_, row.id, hnamed, rfl⟩

theorem Knitted.run {names : List String} (hne : names ≠ []) {minDepth : Option DepthLevel}
    {calls : List LearnCall} {count : ℕ} {db : SqliteRepository}
    (h : Knitted names minDepth count db)
    (hbridges : Runs.EveryStep LearnCall.step
      (fun db call => Bridges names db.tables call) db calls) :
    Runs.EveryStep LearnCall.step (fun db call => (call.step db).1 = .ok ()) db calls ∧
      ∃ left, Knitted names minDepth left (calls.foldl (fun db call => (call.step db).2) db) ∧
        left + calls.length = count := by
  induction calls generalizing db count with
  | nil => exact ⟨trivial, count, h, rfl⟩
  | cons call rest ih =>
      obtain ⟨before, rfl⟩ := Nat.exists_eq_add_one.mpr (h.pos hne)
      obtain ⟨hok, hnext⟩ := hbridges.1.step h
      obtain ⟨haccepted, left, hleft, hcount⟩ := ih hnext hbridges.2
      refine ⟨⟨hok, haccepted⟩, left, hleft, ?_⟩
      rw [List.length_cons]
      omega

/-- What a check says of a query that owes nothing but connections. -/
theorem Knitted.ground {names : List String} (hne : names ≠ []) {minDepth : Option DepthLevel}
    {count : ℕ} {db : SqliteRepository} (h : Knitted names minDepth count db) (draw : Draw) :
    ∃ r, GroundingEngine.ground draw db names minDepth = .ok r ∧
      (∀ gap ∈ r.gaps, gap.kind = .reachability) ∧ (r.grounded = true ↔ count = 1) := by
  have hschema := h.sound.2.toSchema
  have hsat := h.satisfied draw
  have hnone := (GroundingEngine.Inquiry.knowledgeGaps_eq_nil (hschema.coherent names)).mpr hsat
  refine ⟨_, GroundingEngine.ground_eq hschema draw hne minDepth, ?_, ?_⟩
  · intro gap hgap
    have hapart : gap ∈ (db.tables.inquiry draw names minDepth).gapsOf .reachability := by
      change gap ∈ (db.tables.inquiry draw names minDepth).knowledgeGaps ++ _ at hgap
      rw [hnone] at hgap
      exact hgap
    exact GroundingEngine.Inquiry.kind_gapsOf hapart
  · have hpos := h.pos hne
    have hone : db.tables.componentCount names ≤ 1 ↔ count = 1 := by
      rw [h.count]
      omega
    rw [← hone, Tables.componentCount,
      Digraph.ncard_components_le_one (db.tables.finite_named names)]
    refine List.isEmpty_iff.trans ((GroundingEngine.gaps_eq_nil_iff hschema hne).trans ?_)
    obtain ⟨hstored, hedges, hfloor⟩ := (GroundingEngine.satisfied_iff hschema).mp hsat
    constructor
    · intro hstrict a ha b hb
      exact hstrict.connected a b ha hb
    · intro hconnected
      exact ⟨hne, hstored, hedges, hfloor, fun a b ha hb => hconnected a ha b hb⟩

theorem knitted_of_ground {names : List String} (hne : names ≠ []) {minDepth : Option DepthLevel}
    {db : SqliteRepository} (h : db.Sound) {draw : Draw} {r : GroundingResult}
    (hground : GroundingEngine.ground draw db names minDepth = .ok r)
    (hapart : ∀ gap ∈ r.gaps, gap.kind = .reachability) :
    Knitted names minDepth (db.tables.componentCount names) db := by
  have hschema := h.2.toSchema
  have hnone : (db.tables.inquiry draw names minDepth).knowledgeGaps = [] := by
    cases (GroundingEngine.ground_eq hschema draw hne minDepth).symm.trans hground
    apply List.eq_nil_iff_forall_not_mem.mpr
    intro gap hgap
    have hkind := hapart gap (List.mem_append_left _ hgap)
    have hother : ∀ kind, kind ≠ GapKind.reachability →
        gap ∉ (db.tables.inquiry draw names minDepth).gapsOf kind := by
      intro kind hne
      apply GroundingEngine.Inquiry.notMem_gapsOf
      rw [hkind]
      exact hne.symm
    change gap ∈ (db.tables.inquiry draw names minDepth).gapsOf .existence ++
      (db.tables.inquiry draw names minDepth).gapsOf .depth ++
      (db.tables.inquiry draw names minDepth).gapsOf .relational at hgap
    simp [hother] at hgap
  have hsat := GroundingEngine.Inquiry.satisfied_of_knowledgeGaps (hschema.coherent names) hnone
  refine ⟨h, ?_, rfl⟩
  intro after
  apply (GroundingEngine.satisfied_iff hschema).mpr
  exact (GroundingEngine.satisfied_iff hschema).mp hsat

/-- When a check reports nothing but isolated concepts, edges placed between components of the
closure are all accepted, and the check after them, which reports nothing else either, is
grounded exactly when they are one fewer than the components there were. -/
theorem bridges_ground {db : SqliteRepository} (h : db.Sound) {concepts : List String}
    (hne : concepts ≠ []) {minDepth : Option DepthLevel} {before : Draw} {r : GroundingResult}
    (hbefore : GroundingEngine.ground before db concepts minDepth = .ok r)
    (hapart : ∀ gap ∈ r.gaps, gap.kind = .reachability) {calls : List LearnCall}
    (hbridges : Runs.EveryStep LearnCall.step
      (fun db call => Bridges concepts db.tables call) db calls) (after : Draw) :
    Runs.EveryStep LearnCall.step (fun db call => (call.step db).1 = .ok ()) db calls ∧
      calls.length < db.tables.componentCount concepts ∧
      ∃ r', GroundingEngine.ground after (calls.foldl (fun db call => (call.step db).2) db)
          concepts minDepth = .ok r' ∧
        (∀ gap ∈ r'.gaps, gap.kind = .reachability) ∧
        (r'.grounded = true ↔ calls.length + 1 = db.tables.componentCount concepts) := by
  have hstart := knitted_of_ground hne h hbefore hapart
  obtain ⟨haccepted, left, hleft, hcount⟩ := hstart.run hne hbridges
  obtain ⟨r', hr', hgaps, hgrounded⟩ := hleft.ground hne after
  have hpos := hleft.pos hne
  refine ⟨haccepted, by omega, r', hr', hgaps, hgrounded.trans ?_⟩
  omega

end

/-- `Copy`, isolated from `Log`, is made to require it. -/
def linkCopy : LearnCall :=
  ⟨⟨fun i => i + 5, 0⟩, .reachability ⟨sample 3 "Copy" [.existence] []⟩,
    .reachability ⟨some "copy", some "log", some .requires, some .existence, some .existence⟩⟩

theorem bridges_linkCopy : letI := asciiFolding
    Bridges ["copy", "log"] GroundingEngine.outlyingLog.tables linkCopy := by
  let _ := asciiFolding
  have hedge : ReachabilityCandidate.validateForGap
      ⟨some "copy", some "log", some .requires, some .existence, some .existence⟩
      (.reachability ⟨sample 3 "Copy" [.existence] []⟩) =
        .ok ⟨"copy", "log", .requires, .existence, .existence⟩ := by decide +kernel
  apply Bridges.of_subgraph 3 4 hedge <;> decide +kernel

/-- The check after it is grounded, so they were all that stood apart. -/
theorem bridges_ground_linkCopy : letI := asciiFolding
    (linkCopy.step GroundingEngine.outlyingLog).1 = .ok () ∧
      2 = GroundingEngine.outlyingLog.tables.componentCount ["copy", "log"] := by
  let _ := asciiFolding
  have hsound := GroundingEngine.sound_outlyingLog
  have hground := GroundingEngine.ground_eq hsound.2.toSchema ⟨fun i => i + 5, 0⟩
    (List.cons_ne_nil "copy" ["log"]) none
  have hapart : ∀ gap ∈ (GroundingEngine.outlyingLog.tables.inquiry ⟨fun i => i + 5, 0⟩
      ["copy", "log"] none).result.gaps, gap.kind = .reachability := by decide +kernel
  have hbridges : Runs.EveryStep LearnCall.step
      (fun db call => Bridges ["copy", "log"] db.tables call) GroundingEngine.outlyingLog
        [linkCopy] := ⟨bridges_linkCopy, trivial⟩
  obtain ⟨haccepted, -, r', hr', -, hiff⟩ := bridges_ground hsound
    (List.cons_ne_nil "copy" ["log"]) hground hapart hbridges ⟨fun i => i + 5, 0⟩
  have hgrounded : (GroundingEngine.ground ⟨fun i => i + 5, 0⟩
      (linkCopy.step GroundingEngine.outlyingLog).2 ["copy", "log"] none).map
        GroundingResult.grounded = .ok true := by decide +kernel
  refine ⟨haccepted.1, hiff.mp ?_⟩
  change GroundingEngine.ground ⟨fun i => i + 5, 0⟩
    (linkCopy.step GroundingEngine.outlyingLog).2 ["copy", "log"] none = _ at hr'
  rw [hr'] at hgrounded
  exact Except.ok.inj hgrounded

end LearningEngine

end Vre
