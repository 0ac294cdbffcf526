import Vre.Library.Components
import Vre.Verification.Grounding.Connectivity
import Vre.Verification.Grounding.ReadPaths
import Vre.Verification.Grounding.Trace

/-! # Asking for more at once

What one check of two lists of concepts needs beyond a check of each. A concept that a
grounded trace already shows needs nothing more than its floor.
-/

namespace Vre

namespace Tables

variable [NameFolding] {t : Tables}

/-- What transitive relata reach from the closure is in it and joined to where they start. -/
theorem InClosure.connected_of_path {names : List String} {a b : UUID}
    (h : t.InClosure names a) (hpath : Relation.ReflTransGen t.TransEdge a b) :
    t.InClosure names b ∧ Digraph.Connected (t.ClosureEdge names) a b := by
  induction hpath with
  | refl => exact ⟨h, .refl⟩
  | tail _ hedge ih =>
      obtain ⟨hinside, hconnected⟩ := ih
      have hnext := hinside.step hedge
      obtain ⟨rel, hrel, rfl, rfl, -⟩ := hedge
      have hlink := mem_closureRelata.mpr ⟨hrel, hinside, hnext⟩
      exact ⟨hnext, hconnected.tail (Or.inl ⟨rel, hlink, rfl, rfl⟩)⟩

theorem InClosure.connected {names : List String} {id : UUID} (h : t.InClosure names id) :
    ∃ root, t.Named names root ∧ Digraph.Connected (t.ClosureEdge names) root id := by
  obtain ⟨root, hroot, hpath⟩ := h
  exact ⟨root, hroot, (hroot.inClosure.connected_of_path hpath).2⟩

/-- A strict closure is connected, not only its roots. -/
theorem ClosureStrict.joined {concepts : List String} {minDepth : Option DepthLevel}
    {m : UUID → Option DepthLevel} (h : t.ClosureStrict concepts minDepth m) {a b : UUID}
    (ha : t.InClosure concepts a) (hb : t.InClosure concepts b) :
    Digraph.Connected (t.ClosureEdge concepts) a b := by
  obtain ⟨root, hroot, hpath⟩ := ha.connected
  obtain ⟨root', hroot', hpath'⟩ := hb.connected
  exact (hpath.symm.trans (h.connected root root' hroot hroot')).trans hpath'

/-! ## Wider queries -/

section

variable {names wider : List String} (hsub : ∀ id, t.InClosure names id → t.InClosure wider id)
include hsub

/-- A wider query shows at least as much of a primitive. -/
theorem meets_depthAt_mono (ht : t.Schema) {id : UUID} (hinside : t.InClosure names id)
    {d : DepthLevel} (hmeets : Meets ((t.subgraph names).depthAt id) d) :
    Meets ((t.subgraph wider).depthAt id) d := by
  obtain ⟨p, hp⟩ := exists_live (hinside.stored ht)
  apply (meets_depthAt ht (hsub id hinside) hp).mpr
  intro l hl
  obtain ⟨depth, hdepth, hlevel, hwhy⟩ := (meets_depthAt ht hinside hp).mp hmeets l hl
  refine ⟨depth, hdepth, hlevel, hwhy.imp_right (Or.imp_right ?_)⟩
  intro hrelatum
  obtain ⟨r, hr, htarget⟩ := hrelatum
  exact ⟨r, hr, hsub _ htarget⟩

theorem connected_closureEdge_mono {a b : UUID}
    (h : Digraph.Connected (t.ClosureEdge names) a b) :
    Digraph.Connected (t.ClosureEdge wider) a b := by
  apply h.mono
  intro x y hedge
  obtain ⟨rel, hrel, hends⟩ := hedge
  obtain ⟨hmem, hsource, htarget⟩ := mem_closureRelata.mp hrel
  exact ⟨rel, mem_closureRelata.mpr ⟨hmem, hsub _ hsource, hsub _ htarget⟩, hends⟩

end

/-! ## Two lists -/

variable {first second : List String}

theorem named_append {id : UUID} :
    t.Named (first ++ second) id ↔ t.Named first id ∨ t.Named second id := by
  simp only [Named, List.map_append, List.mem_append, and_or_left, exists_or]

theorem inClosure_append {id : UUID} :
    t.InClosure (first ++ second) id ↔ t.InClosure first id ∨ t.InClosure second id := by
  simp only [InClosure, named_append, or_and_right, exists_or]

/-- A relatum between what the one list reaches and what the other does. -/
def Crosses (t : Tables) (first second : List String) (rel : RelatumRow) : Prop :=
  t.InClosure first rel.sourceId ∧ t.InClosure second rel.targetId ∨
    t.InClosure second rel.sourceId ∧ t.InClosure first rel.targetId

/-- The closures share a primitive, or a relatum runs between them. -/
def Touch (t : Tables) (first second : List String) : Prop :=
  (∃ id, t.InClosure first id ∧ t.InClosure second id) ∨
    ∃ rel ∈ t.relata, t.Crosses first second rel

/-- Only where the closures touch does a path lead from the one into the other. -/
theorem inClosure_of_connected (hapart : ¬ t.Touch first second) {a b : UUID}
    (ha : t.InClosure first a) (h : Digraph.Connected (t.ClosureEdge (first ++ second)) a b) :
    t.InClosure first b := by
  induction h with
  | refl => exact ha
  | tail _ hlink ih =>
      by_contra hout
      have hcross : ∃ rel ∈ t.relata, t.Crosses first second rel := by
        rcases hlink with ⟨rel, hrel, rfl, rfl⟩ | ⟨rel, hrel, rfl, rfl⟩
        · obtain ⟨hmem, -, htarget⟩ := mem_closureRelata.mp hrel
          have htarget := (inClosure_append.mp htarget).resolve_left hout
          exact ⟨rel, hmem, Or.inl ⟨ih, htarget⟩⟩
        · obtain ⟨hmem, hsource, -⟩ := mem_closureRelata.mp hrel
          have hsource := (inClosure_append.mp hsource).resolve_left hout
          exact ⟨rel, hmem, Or.inr ⟨hsource, ih⟩⟩
      exact hapart (Or.inr hcross)

/-- Lists that are grounded together are not apart. -/
theorem ClosureStrict.touch {minDepth : Option DepthLevel} {m : UUID → Option DepthLevel}
    (h : t.ClosureStrict (first ++ second) minDepth m) (hfirst : first ≠ [])
    (hsecond : second ≠ []) : t.Touch first second := by
  by_contra hapart
  have hroot : ∀ names : List String, names ≠ [] → (∀ c ∈ names, c ∈ first ++ second) →
      ∃ id, t.Named names id := by
    intro names hne hsub
    obtain ⟨c, hc⟩ := List.exists_mem_of_ne_nil names hne
    obtain ⟨row, hrow, hname⟩ := h.stored c (hsub c hc)
    exact ⟨row.id, row, hrow, rfl, hname ▸ List.mem_map_of_mem hc⟩
  obtain ⟨a, ha⟩ := hroot first hfirst fun _ => List.mem_append_left _
  obtain ⟨b, hb⟩ := hroot second hsecond fun _ => List.mem_append_right _
  have hpath := h.connected a b (named_append.mpr (Or.inl ha)) (named_append.mpr (Or.inr hb))
  exact hapart (Or.inl ⟨b, inClosure_of_connected hapart ha.inClosure hpath, hb.inClosure⟩)

section

variable {minDepth : Option DepthLevel} {m m' : UUID → Option DepthLevel}
  (hfirst : t.ClosureStrict first minDepth m) (hsecond : t.ClosureStrict second minDepth m')
include hfirst hsecond

/-- Where two strict closures touch, they are joined. -/
theorem Touch.joined (h : t.Touch first second) {a b : UUID} (ha : t.InClosure first a)
    (hb : t.InClosure second b) :
    Digraph.Connected (t.ClosureEdge (first ++ second)) a b := by
  have hleft : ∀ id, t.InClosure first id → t.InClosure (first ++ second) id :=
    fun _ h => inClosure_append.mpr (Or.inl h)
  have hright : ∀ id, t.InClosure second id → t.InClosure (first ++ second) id :=
    fun _ h => inClosure_append.mpr (Or.inr h)
  have hwithin : ∀ x, t.InClosure first x →
      Digraph.Connected (t.ClosureEdge (first ++ second)) a x := by
    intro x hx
    exact connected_closureEdge_mono hleft (hfirst.joined ha hx)
  have hwithin' : ∀ x, t.InClosure second x →
      Digraph.Connected (t.ClosureEdge (first ++ second)) x b := by
    intro x hx
    exact connected_closureEdge_mono hright (hsecond.joined hx hb)
  rcases h with ⟨id, hid, hid'⟩ | ⟨rel, hrel, ⟨hsource, htarget⟩ | ⟨hsource, htarget⟩⟩
  · exact (hwithin id hid).trans (hwithin' id hid')
  · have hlink := mem_closureRelata.mpr ⟨hrel, hleft _ hsource, hright _ htarget⟩
    have hedge : Digraph.Connected (t.ClosureEdge (first ++ second)) rel.sourceId rel.targetId :=
      .single (Or.inl ⟨rel, hlink, rfl, rfl⟩)
    exact ((hwithin _ hsource).trans hedge).trans (hwithin' _ htarget)
  · have hlink := mem_closureRelata.mpr ⟨hrel, hright _ hsource, hleft _ htarget⟩
    have hedge : Digraph.Connected (t.ClosureEdge (first ++ second)) rel.targetId rel.sourceId :=
      .single (Or.inr ⟨rel, hlink, rfl, rfl⟩)
    exact ((hwithin _ htarget).trans hedge).trans (hwithin' _ hsource)

theorem Touch.connected (h : t.Touch first second) {a b : UUID}
    (ha : t.Named (first ++ second) a) (hb : t.Named (first ++ second) b) :
    Digraph.Connected (t.ClosureEdge (first ++ second)) a b := by
  rcases named_append.mp ha with ha | ha <;> rcases named_append.mp hb with hb | hb
  · apply connected_closureEdge_mono _ (hfirst.connected a b ha hb)
    exact fun _ h => inClosure_append.mpr (Or.inl h)
  · exact h.joined hfirst hsecond ha.inClosure hb.inClosure
  · exact (h.joined hfirst hsecond hb.inClosure ha.inClosure).symm
  · apply connected_closureEdge_mono _ (hsecond.connected a b ha hb)
    exact fun _ h => inClosure_append.mpr (Or.inr h)

end

/-- Two strict closures are strict together when they touch and what runs between them is
satisfied. -/
theorem closureStrict_append_iff (ht : t.Schema) {minDepth : Option DepthLevel}
    (hfirst : t.ClosureStrict first minDepth (t.subgraph first).depthAt)
    (hsecond : t.ClosureStrict second minDepth (t.subgraph second).depthAt) :
    t.ClosureStrict (first ++ second) minDepth (t.subgraph (first ++ second)).depthAt ↔
      t.Touch first second ∧ ∀ rel ∈ t.relata, t.Crosses first second rel →
        Meets ((t.subgraph (first ++ second)).depthAt rel.sourceId) rel.sourceDepth ∧
          Meets ((t.subgraph (first ++ second)).depthAt rel.targetId) rel.targetDepth := by
  have hleft : ∀ id, t.InClosure first id → t.InClosure (first ++ second) id :=
    fun _ h => inClosure_append.mpr (Or.inl h)
  have hright : ∀ id, t.InClosure second id → t.InClosure (first ++ second) id :=
    fun _ h => inClosure_append.mpr (Or.inr h)
  constructor
  · intro hboth
    refine ⟨hboth.touch hfirst.nonempty hsecond.nonempty, ?_⟩
    intro rel hrel hcross
    rcases hcross with ⟨hsource, htarget⟩ | ⟨hsource, htarget⟩
    · exact hboth.edges rel hrel (hleft _ hsource) (hright _ htarget)
    · exact hboth.edges rel hrel (hright _ hsource) (hleft _ htarget)
  · intro h
    obtain ⟨htouch, hcrossing⟩ := h
    refine ⟨by simp [hfirst.nonempty], ?_, ?_, ?_, fun a b => htouch.connected hfirst hsecond⟩
    · intro c hc
      rcases List.mem_append.mp hc with hc | hc
      · exact hfirst.stored c hc
      · exact hsecond.stored c hc
    · intro rel hrel hsource htarget
      rcases inClosure_append.mp hsource with hsource | hsource <;>
        rcases inClosure_append.mp htarget with htarget | htarget
      · obtain ⟨hs, hd⟩ := hfirst.edges rel hrel hsource htarget
        exact ⟨meets_depthAt_mono hleft ht hsource hs, meets_depthAt_mono hleft ht htarget hd⟩
      · exact hcrossing rel hrel (Or.inl ⟨hsource, htarget⟩)
      · exact hcrossing rel hrel (Or.inr ⟨hsource, htarget⟩)
      · obtain ⟨hs, hd⟩ := hsecond.edges rel hrel hsource htarget
        exact ⟨meets_depthAt_mono hright ht hsource hs, meets_depthAt_mono hright ht htarget hd⟩
    · intro floor hmin id hnamed
      rcases named_append.mp hnamed with hnamed | hnamed
      · exact meets_depthAt_mono hleft ht hnamed.inClosure (hfirst.floor floor hmin id hnamed)
      · exact meets_depthAt_mono hright ht hnamed.inClosure (hsecond.floor floor hmin id hnamed)

/-! ## What the closure already holds -/

section

variable {names more : List String} (hwithin : ∀ id, t.Named more id → t.InClosure names id)
include hwithin

theorem inClosure_append_within {id : UUID} :
    t.InClosure (names ++ more) id ↔ t.InClosure names id := by
  rw [inClosure_append, or_iff_left_iff_imp]
  intro hmore
  obtain ⟨root, hroot, hpath⟩ := hmore
  exact ((hwithin root hroot).connected_of_path hpath).1

theorem meets_depthAt_within (ht : t.Schema) {id : UUID} (hinside : t.InClosure names id)
    {d : DepthLevel} : Meets ((t.subgraph (names ++ more)).depthAt id) d ↔
      Meets ((t.subgraph names).depthAt id) d := by
  have hsame : ∀ id, t.InClosure (names ++ more) id ↔ t.InClosure names id :=
    fun _ => inClosure_append_within hwithin
  constructor
  · exact meets_depthAt_mono (fun id h => (hsame id).mp h) ht ((hsame id).mpr hinside)
  · exact meets_depthAt_mono (fun id h => (hsame id).mpr h) ht hinside

theorem closureStrict_within_iff (ht : t.Schema) {minDepth : Option DepthLevel}
    (hstored : ∀ c ∈ more, ∃ row ∈ t.primitives, row.nameLower = foldName c)
    (hstrict : t.ClosureStrict names minDepth (t.subgraph names).depthAt) :
    t.ClosureStrict (names ++ more) minDepth (t.subgraph (names ++ more)).depthAt ↔
      ∀ floor, minDepth = some floor → ∀ id, t.Named more id →
        Meets ((t.subgraph names).depthAt id) floor := by
  have hsame : ∀ id, t.InClosure (names ++ more) id ↔ t.InClosure names id :=
    fun _ => inClosure_append_within hwithin
  constructor
  · intro hboth floor hmin id hnamed
    apply (meets_depthAt_within hwithin ht (hwithin id hnamed)).mp
    exact hboth.floor floor hmin id (named_append.mpr (Or.inr hnamed))
  · intro hfloor
    refine ⟨by simp [hstrict.nonempty], ?_, ?_, ?_, ?_⟩
    · intro c hc
      rcases List.mem_append.mp hc with hc | hc
      · exact hstrict.stored c hc
      · exact hstored c hc
    · intro rel hrel hsource htarget
      have hsource := (hsame _).mp hsource
      have htarget := (hsame _).mp htarget
      rw [meets_depthAt_within hwithin ht hsource, meets_depthAt_within hwithin ht htarget]
      exact hstrict.edges rel hrel hsource htarget
    · intro floor hmin id hnamed
      rcases named_append.mp hnamed with hnamed | hnamed
      · rw [meets_depthAt_within hwithin ht hnamed.inClosure]
        exact hstrict.floor floor hmin id hnamed
      · rw [meets_depthAt_within hwithin ht (hwithin id hnamed)]
        exact hfloor floor hmin id hnamed
    · intro a b ha hb
      apply connected_closureEdge_mono fun id h => (hsame id).mpr h
      exact hstrict.joined ((hsame a).mp ha.inClosure) ((hsame b).mp hb.inClosure)

end

end Tables

namespace GroundingEngine

open Tables

theorem closureStrict_of_grounded [NameFolding] {db : SqliteRepository} (h : db.tables.Schema)
    {draw : Draw} {concepts : List String} {minDepth : Option DepthLevel} {r : GroundingResult}
    (hground : ground draw db concepts minDepth = .ok r) (hgrounded : r.grounded = true) :
    db.tables.ClosureStrict concepts minDepth (db.tables.subgraph concepts).depthAt := by
  obtain ⟨hne, rfl, -⟩ := satisfied_of_grounded h hground hgrounded
  exact (gaps_eq_nil_iff h hne).mp (List.isEmpty_iff.mp hgrounded)

/-- Two lists that are each grounded are grounded together exactly when their closures touch
and every relatum between them is satisfied, by the depths that the joint query sees. -/
theorem ground_append_iff [NameFolding] {db : SqliteRepository} (h : db.tables.Schema)
    {draw draw' : Draw} {first second : List String} {minDepth : Option DepthLevel}
    {r r' : GroundingResult} (hfirst : ground draw db first minDepth = .ok r)
    (hgrounded : r.grounded = true) (hsecond : ground draw' db second minDepth = .ok r')
    (hgrounded' : r'.grounded = true) (joint : Draw) :
    ∃ sg both, Repository.resolveSubgraph db (first ++ second) = .ok sg ∧
      ground joint db (first ++ second) minDepth = .ok both ∧
      (both.grounded = true ↔ db.tables.Touch first second ∧
        ∀ rel ∈ db.tables.relata, db.tables.Crosses first second rel →
          Meets (sg.depthAt rel.sourceId) rel.sourceDepth ∧
            Meets (sg.depthAt rel.targetId) rel.targetDepth) := by
  have hstrict := closureStrict_of_grounded h hfirst hgrounded
  have hstrict' := closureStrict_of_grounded h hsecond hgrounded'
  have hne : first ++ second ≠ [] := by simp [hstrict.nonempty]
  refine ⟨_, _, resolveSubgraph_eq h _, ground_eq h joint hne minDepth, ?_⟩
  refine List.isEmpty_iff.trans ((gaps_eq_nil_iff h hne).trans ?_)
  exact closureStrict_append_iff h hstrict hstrict'

/-- `Log` requires `Disk`, so what they reach touches. -/
theorem ground_append_iff_outlyingLog : letI := asciiFolding
    outlyingLog.tables.Touch ["log"] ["disk"] := by
  let _ := asciiFolding
  have hschema := sound_outlyingLog.2.toSchema
  have hgrounded : (askLog ["log"]).result.grounded = true ∧
      (askLog ["disk"]).result.grounded = true := by decide +kernel
  obtain ⟨sg, both, -, hboth, hiff⟩ := ground_append_iff hschema
    (ground_eq hschema ⟨fun i => i + 5, 0⟩ (List.cons_ne_nil "log" []) none) hgrounded.1
    (ground_eq hschema ⟨fun i => i + 5, 0⟩ (List.cons_ne_nil "disk" []) none) hgrounded.2
    ⟨fun i => i + 5, 0⟩
  have htogether : (ground ⟨fun i => i + 5, 0⟩ outlyingLog (["log"] ++ ["disk"]) none).map
      GroundingResult.grounded = .ok true := by decide +kernel
  rw [hboth] at htogether
  exact (hiff.mp (Except.ok.inj htogether)).1

theorem filterNode_eq_envelope {ids : List UUID} {n : Primitive}
    (h : ∀ d ∈ n.depths, ∀ r ∈ d.relata, r.targetId ∈ ids) : filterNode ids n = n.envelope := by
  have hkept : ∀ d ∈ n.depths, d.relata.filter (fun r => r.targetId ∈ ids) = d.relata := by
    intro d hd
    exact List.filter_eq_self.mpr fun r hr => decide_eq_true (h d hd r hr)
  unfold filterNode Primitive.envelope
  cases hmax : n.contiguousMaxDepth with
  | none => simp
  | some cmax =>
      simp only [meets_some, Primitive.mk.injEq, true_and, and_true]
      refine (List.map_congr_left fun d hd => ?_).trans (List.map_id _)
      rw [hkept d (List.mem_filter.mp hd).1]
      rfl

/-- A grounded trace shows each primitive of the closure, as deep as the closure does. -/
theorem shown_of_grounded [NameFolding] {db : SqliteRepository} (h : db.tables.Schema)
    {draw : Draw} {concepts : List String} {minDepth : Option DepthLevel} {r : GroundingResult}
    (hground : ground draw db concepts minDepth = .ok r) (hgrounded : r.grounded = true) :
    r.getPrimitives = (db.tables.closureNodes concepts).map Primitive.envelope := by
  obtain ⟨-, rfl, hsat⟩ := satisfied_of_grounded h hground hgrounded
  change (db.tables.inquiry draw concepts minDepth).response.result.primitives = _
  rw [primitives_of_satisfied h hsat, filterDepths]
  apply List.map_congr_left
  intro n hn
  apply filterNode_eq_envelope
  intro d hd r hr
  have hstep := List.mem_map_of_mem (f := Relatum.toStep n.id d.level) hr
  rw [(db.tables.hydrated_subgraph concepts).relata n hn d hd] at hstep
  exact (h.coherent concepts).targets _ (List.mem_filter.mp hstep).1

theorem mem_getPrimitives_of_grounded [NameFolding] {db : SqliteRepository}
    (h : db.tables.Schema) {draw : Draw} {concepts : List String} {minDepth : Option DepthLevel}
    {r : GroundingResult} (hground : ground draw db concepts minDepth = .ok r)
    (hgrounded : r.grounded = true) {p : Primitive} : p ∈ r.getPrimitives ↔
      ∃ row ∈ db.tables.primitives, db.tables.InClosure concepts row.id ∧
        (db.tables.nodeRow concepts row).envelope = p := by
  rw [shown_of_grounded h hground hgrounded, List.mem_map]
  constructor
  · intro hp
    obtain ⟨n, hn, rfl⟩ := hp
    obtain ⟨row, hrow, hinside, rfl⟩ := mem_closureNodes.mp hn
    exact ⟨row, hrow, hinside, rfl⟩
  · intro hp
    obtain ⟨row, hrow, hinside, rfl⟩ := hp
    exact ⟨_, mem_closureNodes.mpr ⟨row, hrow, hinside, rfl⟩, rfl⟩

/-- Asking as well for concepts that a grounded trace shows is grounded exactly when they meet
the floor. -/
theorem ground_within_iff [NameFolding] {db : SqliteRepository} (h : db.tables.Schema)
    {draw : Draw} {concepts more : List String} {minDepth : Option DepthLevel}
    {r : GroundingResult} (hground : ground draw db concepts minDepth = .ok r)
    (hgrounded : r.grounded = true)
    (hshown : ∀ c ∈ more, ∃ p ∈ r.getPrimitives, p.nameLower = foldName c) (joint : Draw) :
    ∃ both, ground joint db (concepts ++ more) minDepth = .ok both ∧
      (both.grounded = true ↔ ∀ floor, minDepth = some floor → ∀ p ∈ r.getPrimitives,
        p.nameLower ∈ more.map foldName → Meets p.contiguousMaxDepth floor) := by
  have hstrict := closureStrict_of_grounded h hground hgrounded
  have hne : concepts ++ more ≠ [] := by simp [hstrict.nonempty]
  have hrows : ∀ c ∈ more, ∃ row ∈ db.tables.primitives, row.nameLower = foldName c ∧
      db.tables.InClosure concepts row.id := by
    intro c hc
    obtain ⟨p, hp, hname⟩ := hshown c hc
    obtain ⟨row, hrow, hinside, rfl⟩ := (mem_getPrimitives_of_grounded h hground hgrounded).mp hp
    exact ⟨row, hrow, (h.nameLower_nodeRow concepts hrow).symm.trans hname, hinside⟩
  have hwithin : ∀ id, db.tables.Named more id → db.tables.InClosure concepts id := by
    intro id hnamed
    obtain ⟨row, hrow, rfl, hname⟩ := hnamed
    obtain ⟨c, hc, hfold⟩ := List.mem_map.mp hname
    obtain ⟨row', hrow', hname', hinside⟩ := hrows c hc
    rw [h.row_unique_name hrow hrow' (hfold.symm.trans hname'.symm)]
    exact hinside
  have hstored : ∀ c ∈ more, ∃ row ∈ db.tables.primitives, row.nameLower = foldName c := by
    intro c hc
    obtain ⟨row, hrow, hname, -⟩ := hrows c hc
    exact ⟨row, hrow, hname⟩
  refine ⟨_, ground_eq h joint hne minDepth, ?_⟩
  refine List.isEmpty_iff.trans ((gaps_eq_nil_iff h hne).trans ?_)
  rw [closureStrict_within_iff hwithin h hstored hstrict]
  have hdepth : ∀ row ∈ db.tables.primitives, db.tables.InClosure concepts row.id →
      (db.tables.subgraph concepts).depthAt row.id =
        (db.tables.nodeRow concepts row).envelope.contiguousMaxDepth := by
    intro row hrow hinside
    have hnode := mem_closureNodes.mpr ⟨row, hrow, hinside, rfl⟩
    exact ((h.coherent concepts).depthAt_eq hnode).trans (contiguousMaxDepth_envelope _).symm
  constructor
  · intro hfloor floor hmin p hp hname
    obtain ⟨row, hrow, hinside, rfl⟩ := (mem_getPrimitives_of_grounded h hground hgrounded).mp hp
    rw [← hdepth row hrow hinside]
    apply hfloor floor hmin
    exact ⟨row, hrow, rfl, (h.nameLower_nodeRow concepts hrow).symm ▸ hname⟩
  · intro hfloor floor hmin id hnamed
    have hinside := hwithin id hnamed
    obtain ⟨row, hrow, rfl, hname⟩ := hnamed
    rw [hdepth row hrow hinside]
    apply hfloor floor hmin
    · exact (mem_getPrimitives_of_grounded h hground hgrounded).mpr ⟨row, hrow, hinside, rfl⟩
    · exact (h.nameLower_nodeRow concepts hrow).symm ▸ hname

/-- The trace of `Log` shows `Disk` and `Clock`, at D0. -/
theorem ground_within_iff_outlyingLog : letI := asciiFolding
    ∃ both, ground ⟨fun i => i + 5, 0⟩ outlyingLog (["log"] ++ ["disk", "Clock"])
      (some .existence) = .ok both ∧ both.grounded = true := by
  let _ := asciiFolding
  have hschema := sound_outlyingLog.2.toSchema
  have hground := ground_eq hschema ⟨fun i => i + 5, 0⟩ (List.cons_ne_nil "log" [])
    (some .existence)
  have hgrounded : (outlyingLog.tables.inquiry ⟨fun i => i + 5, 0⟩ ["log"]
      (some .existence)).result.grounded = true := by decide +kernel
  have hshown : ∀ c ∈ ["disk", "Clock"], ∃ p ∈ (outlyingLog.tables.inquiry ⟨fun i => i + 5, 0⟩
      ["log"] (some .existence)).result.getPrimitives, p.nameLower = foldName c := by
    decide +kernel
  obtain ⟨both, hboth, hiff⟩ := ground_within_iff hschema hground hgrounded hshown
    ⟨fun i => i + 5, 0⟩
  have hfloor : ∀ p ∈ (outlyingLog.tables.inquiry ⟨fun i => i + 5, 0⟩ ["log"]
      (some .existence)).result.getPrimitives, Meets p.contiguousMaxDepth .existence := by
    decide +kernel
  refine ⟨both, hboth, hiff.mpr ?_⟩
  intro floor hmin p hp _
  cases hmin
  exact hfloor p hp

end GroundingEngine

end Vre
