import Vre.Verification.Learning.Additions
import Vre.Verification.Metrics.Counting

/-! # Conservation of the usage counters

Along a run of checks, learning and seeding, the counters of a stored primitive add up to the
checks that have named it, as long as no seeder overwrites a primitive that was counted.
-/

namespace Vre

/-! ## Counters -/

/-- The metrics stored under an id. -/
def Tables.metricsAt (t : Tables) (id : UUID) : Option PrimitiveMetrics :=
  (t.live id).bind Primitive.metrics

/-- `grounding_count` and `failure_count`. -/
structure Counters where
  grounding : ℤ
  failure : ℤ
  deriving DecidableEq, Repr

/-- The counters of metrics that may never have been written. -/
def PrimitiveMetrics.counters (metrics : Option PrimitiveMetrics) : Counters :=
  ⟨(metrics.getD .new).groundingCount, (metrics.getD .new).failureCount⟩

def Tables.counters (t : Tables) (id : UUID) : Counters :=
  PrimitiveMetrics.counters (t.metricsAt id)

/-- One more check, a failure or a grounding. -/
def Counters.bump (failed : Bool) (c : Counters) : Counters :=
  if failed then ⟨c.grounding, c.failure + 1⟩ else ⟨c.grounding + 1, c.failure⟩

instance [NameFolding] (t : Tables) (names : List String) (id : UUID) :
    Decidable (t.Named names id) :=
  inferInstanceAs (Decidable (∃ row ∈ t.primitives, row.id = id ∧ _))

namespace Tables

theorem metricsAt_of_mem [NameFolding] {t : Tables} (h : t.Schema) {row : PrimitiveRow}
    (hrow : row ∈ t.primitives) : t.metricsAt row.id = row.metricsJson := by
  rw [metricsAt, (live_eq_some h).mpr ⟨row, hrow, rfl, rfl⟩]
  rfl

theorem metricsAt_of_live {t : Tables} {id : UUID} {p : Primitive} (h : t.live id = some p) :
    t.metricsAt id = p.metrics := by
  rw [metricsAt, h]
  rfl

theorem metricsAt_of_absent {t : Tables} {id : UUID} (h : ¬ t.Stored id) :
    t.metricsAt id = none := by
  rw [metricsAt, live_eq_none.mpr h]
  rfl

/-- A save writes the metrics that the primitive carries, and those of no other. -/
theorem metricsAt_replace [NameFolding] {t : Tables} (h : t.Schema) {p : Primitive}
    (hp : Sqlite.Accepts t p) (id : UUID) :
    (t.replace p.toRow p.toRelata).metricsAt id =
      if id = p.id then p.metrics else t.metricsAt id := by
  have hschema := h.replace hp
  by_cases hid : id = p.id
  · subst hid
    rw [if_pos rfl]
    exact metricsAt_of_mem hschema (mem_replaceRow.mpr (Or.inl rfl))
  · rw [if_neg hid]
    by_cases hstored : t.Stored id
    · obtain ⟨row, hrow, rfl⟩ := hstored
      rw [metricsAt_of_mem h hrow]
      exact metricsAt_of_mem hschema (mem_replaceRow.mpr (Or.inr ⟨hrow, hid⟩))
    · rw [metricsAt_of_absent hstored, metricsAt_of_absent]
      exact fun h => (stored_replace.mp h).elim hid hstored

theorem sameKnowledge_countCheck [NameFolding] (t : Tables) (now : Timestamp)
    (concepts : List String) (gapIds : List UUID) :
    t.SameKnowledge (t.countCheck now concepts gapIds) := by
  refine ⟨rfl, ?_⟩
  simp only [countCheck, List.map_map]
  apply List.map_congr_left
  intro row _
  simp only [Function.comp_apply]
  split <;> rfl

/-- A check counts the primitives it names. -/
theorem metricsAt_countCheck [NameFolding] {t : Tables} (h : t.Schema) (now : Timestamp)
    (concepts : List String) (gapIds : List UUID) (id : UUID) :
    (t.countCheck now concepts gapIds).metricsAt id =
      if t.Named concepts id then
        some (MetricsManager.bump now (id ∈ gapIds) ((t.metricsAt id).getD .new))
      else t.metricsAt id := by
  have hsame := t.sameKnowledge_countCheck now concepts gapIds
  by_cases hstored : t.Stored id
  · obtain ⟨row, hrow, rfl⟩ := hstored
    have hmem := List.mem_map_of_mem (f := fun row : PrimitiveRow =>
      if row.nameLower ∈ concepts.map foldName then
        { row with metricsJson := some (MetricsManager.bump now (row.id ∈ gapIds)
            (row.metricsJson.getD .new)) }
      else row) hrow
    have hnamed : t.Named concepts row.id ↔ row.nameLower ∈ concepts.map foldName := by
      refine ⟨?_, fun hname => ⟨row, hrow, rfl, hname⟩⟩
      rintro ⟨row', hrow', hid, hname⟩
      exact h.row_unique hrow' hrow hid ▸ hname
    have hread := metricsAt_of_mem (h.sameKnowledge hsame) hmem
    rw [metricsAt_of_mem h hrow]
    by_cases hname : row.nameLower ∈ concepts.map foldName
    · rw [if_pos hname] at hread
      rw [if_pos (hnamed.mpr hname)]
      exact hread
    · rw [if_neg hname] at hread
      rw [if_neg fun hnot => hname (hnamed.mp hnot)]
      exact hread
  · have hnot : ¬ t.Named concepts id := fun ⟨row, hrow, hid, _⟩ => hstored ⟨row, hrow, hid⟩
    rw [if_neg hnot, metricsAt_of_absent hstored, metricsAt_of_absent]
    exact fun h => hstored (hsame.stored.mp h)

end Tables

theorem counters_bump (now : Timestamp) (failed : Bool) (metrics : Option PrimitiveMetrics) :
    PrimitiveMetrics.counters (some (MetricsManager.bump now failed (metrics.getD .new))) =
      (PrimitiveMetrics.counters metrics).bump failed := by
  cases failed <;> rfl

theorem Counters.sum_bump (failed : Bool) (c : Counters) :
    (c.bump failed).grounding + (c.bump failed).failure = c.grounding + c.failure + 1 := by
  cases failed <;> simp [bump] <;> omega

/-! ## Runs -/

/-- A call of an agent or of a seeder. What a seeder upserts carries no metrics. -/
inductive UsageCall where
  | check (draw : Draw) (concepts : List String) (minDepth : Option DepthLevel)
  | learn (draw : Draw) (gap : KnowledgeGap) (candidate : LearningCandidate)
  | seed (primitive : {p : Primitive // p.metrics = none})

/-- A store, and how many checks have named each of its primitives since it was created. -/
structure Ledger where
  db : SqliteRepository
  named : UUID → ℕ

namespace Ledger

/-- A new store. -/
def opened : Ledger :=
  ⟨.fresh, fun _ => 0⟩

variable [NameFolding] {σ : Type}

/-- Make one call: the result of a check, and the ledger after it. -/
def step (vre : VRE σ) (l : Ledger) : UsageCall → Option GroundingResult × Ledger
  | .check draw concepts minDepth =>
      let named id := if l.db.tables.Named concepts id then l.named id + 1 else l.named id
      match vre.check draw concepts minDepth l.db with
      | .ok result db => (some result, ⟨db, named⟩)
      | .error _ db => (none, ⟨db, named⟩)
  | .learn draw gap candidate =>
      (none, { l with db := Operation.next l.db (.learn draw gap candidate) })
  | .seed primitive => (none, { l with db := Operation.next l.db (.upsert primitive.1) })

/-- A call does to the counters what it should: a check adds one to one counter of each
stored primitive that it names, to the failures if some gap is about it, and leaves all other
metrics; learning and seeding leave every counter. No primitive is lost. -/
def Conserves (vre : VRE σ) (l : Ledger) (call : UsageCall) : Prop :=
  let (result, next) := l.step vre call
  (∀ id, l.db.tables.Stored id → next.db.tables.Stored id) ∧
  match call with
  | .check _ concepts _ => ∃ r, result = some r ∧ ∀ id,
      if l.db.tables.Named concepts id then
        next.db.tables.counters id =
          (l.db.tables.counters id).bump (id ∈ gapPrimitiveIds r.gaps)
      else next.db.tables.metricsAt id = l.db.tables.metricsAt id
  | _ => ∀ id, next.db.tables.counters id = l.db.tables.counters id

/-- The counters of each stored primitive add up to the checks that have named it. -/
def Balanced (l : Ledger) : Prop :=
  ∀ id, l.db.tables.Stored id →
    (l.db.tables.counters id).grounding + (l.db.tables.counters id).failure = l.named id

/-- An upsert that the store accepts overwrites no primitive that was counted. -/
def KeepsCounters (l : Ledger) : UsageCall → Prop
  | .seed primitive =>
      Sqlite.Accepts l.db.tables (l.db.tables.canonical primitive.1) →
        l.db.tables.counters (l.db.tables.canonical primitive.1).id = ⟨0, 0⟩
  | _ => True

/-- What `uuid4()` returns is new. -/
def NewIds (l : Ledger) : UsageCall → Prop
  | .check draw _ _ => draw.Fresh l.db.tables
  | .learn draw _ _ => draw.Fresh l.db.tables
  | .seed _ => True

/-- What every step keeps that counts right. An id under which nothing is stored counts as
never named. -/
structure Coherent (l : Ledger) : Prop where
  sound : l.db.Sound
  balanced : ∀ id,
    (l.db.tables.counters id).grounding + (l.db.tables.counters id).failure = l.named id

theorem Coherent.next {l : Ledger} (h : l.Coherent) {db : SqliteRepository} (hsound : db.Sound)
    (hsame : ∀ id, db.tables.counters id = l.db.tables.counters id) :
    Coherent { l with db := db } where
  sound := hsound
  balanced := fun id => by rw [hsame]; exact h.balanced id

/-! ### Checks -/

theorem step_check (vre : VRE σ) {l : Ledger} (h : l.db.Sound) {draw : Draw}
    (hfresh : draw.Fresh l.db.tables) (concepts : List String) (minDepth : Option DepthLevel) :
    ∃ result, l.step vre (.check draw concepts minDepth) = (some result,
      ⟨⟨l.db.tables.countCheck draw.now concepts (gapPrimitiveIds result.gaps), none⟩,
        fun id => if l.db.tables.Named concepts id then l.named id + 1 else l.named id⟩) := by
  obtain ⟨result, hcheck⟩ := vre.check_counts h.2.toSchema hfresh concepts minDepth
  refine ⟨result, ?_⟩
  rw [← h.eq_idle] at hcheck
  simp only [step, hcheck]

theorem counters_countCheck {t : Tables} (h : t.Schema) (now : Timestamp)
    (concepts : List String) (gapIds : List UUID) (id : UUID) :
    (t.countCheck now concepts gapIds).counters id =
      if t.Named concepts id then (t.counters id).bump (id ∈ gapIds) else t.counters id := by
  rw [Tables.counters, Tables.metricsAt_countCheck h]
  split
  · exact counters_bump _ _ _
  · rfl

theorem conserves_check (vre : VRE σ) {l : Ledger} (h : l.db.Sound) {draw : Draw}
    (hfresh : draw.Fresh l.db.tables) (concepts : List String) (minDepth : Option DepthLevel) :
    l.Conserves vre (.check draw concepts minDepth) := by
  obtain ⟨result, hstep⟩ := step_check vre h hfresh concepts minDepth
  rw [Conserves, hstep]
  have hsame := l.db.tables.sameKnowledge_countCheck draw.now concepts
    (gapPrimitiveIds result.gaps)
  refine ⟨fun id hid => hsame.stored.mpr hid, result, rfl, fun id => ?_⟩
  split
  · rename_i hnamed
    rw [counters_countCheck h.2.toSchema, if_pos hnamed]
  · rename_i hnamed
    rw [Tables.metricsAt_countCheck h.2.toSchema, if_neg hnamed]

theorem coherent_check (vre : VRE σ) {l : Ledger} (h : l.Coherent) {draw : Draw}
    (hfresh : draw.Fresh l.db.tables) (concepts : List String) (minDepth : Option DepthLevel) :
    (l.step vre (.check draw concepts minDepth)).2.Coherent := by
  obtain ⟨result, hstep⟩ := step_check vre h.sound hfresh concepts minDepth
  have hsame := l.db.tables.sameKnowledge_countCheck draw.now concepts
    (gapPrimitiveIds result.gaps)
  rw [hstep]
  refine ⟨⟨rfl, h.sound.2.sameKnowledge hsame⟩, fun id => ?_⟩
  have hbefore := h.balanced id
  simp only [counters_countCheck h.sound.2.toSchema]
  split
  · rw [Counters.sum_bump, hbefore]
    rfl
  · exact hbefore

/-! ### Writes -/

/-- A primitive that is learned carries the metrics stored under its id. -/
theorem metrics_learned {t : Tables} (h : t.Schema) {draw : Draw} (hfresh : draw.Fresh t)
    {gap : KnowledgeGap} {candidate : LearningCandidate} {p : Primitive}
    (hp : LearningEngine.Learned draw t gap candidate p) : t.metricsAt p.id = p.metrics := by
  cases hp with
  | existence _ _ _ _ _ => exact Tables.metricsAt_of_absent (hfresh.unused 0)
  | fill _ hlive _ _ =>
      obtain rfl := Tables.live_id h hlive
      exact (Tables.metricsAt_of_live hlive :)
  | edge _ hsource _ _ _ => exact (Tables.metricsAt_of_live (Tables.live_of_named h hsource).1 :)

/-- Learning loses no primitive and writes no metrics. -/
theorem learn_keeps {db : SqliteRepository} (h : db.Sound) {draw : Draw}
    (hfresh : draw.Fresh db.tables) (gap : KnowledgeGap) (candidate : LearningCandidate)
    (id : UUID) :
    (db.tables.Stored id →
      (Operation.next db (.learn draw gap candidate)).tables.Stored id) ∧
    (Operation.next db (.learn draw gap candidate)).tables.metricsAt id =
      db.tables.metricsAt id := by
  have hschema := h.2.toSchema
  have hnext : Operation.next db (.learn draw gap candidate) =
      Action.after (LearningEngine.learnGap draw gap candidate
        (⟨db.tables, none⟩ : SqliteRepository)) := by rw [← h.eq_idle]; rfl
  rw [hnext]
  rcases LearningEngine.learnGap_outcome hschema draw gap candidate with
    ⟨exc, herror⟩ | ⟨p, hp, haccepts, hok⟩
  · rw [herror]
    exact ⟨fun hid => hid, rfl⟩
  · rw [hok]
    refine ⟨fun hid => Tables.stored_replace.mpr (Or.inr hid),
      (Tables.metricsAt_replace hschema haccepts id).trans ?_⟩
    split
    · rename_i hid
      rw [hid, metrics_learned hschema hfresh hp]
    · rfl

theorem metrics_canonical (t : Tables) {p : Primitive} (h : p.metrics = none) :
    (t.canonical p).metrics = none := by
  unfold Tables.canonical
  split <;> exact h

/-- Every way in which an upsert can end. -/
theorem upsert_cases {db : SqliteRepository} (h : db.Sound) (p : Primitive) :
    (Sqlite.Accepts db.tables (db.tables.canonical p) ∧
      Operation.next db (.upsert p) = ⟨db.tables.replace (db.tables.canonical p).toRow
        (db.tables.canonical p).toRelata, none⟩) ∨
    (¬ Sqlite.Accepts db.tables (db.tables.canonical p) ∧
      Operation.next db (.upsert p) = db) := by
  have hnext : Operation.next db (.upsert p) =
      Action.after (upsertPrimitive p (⟨db.tables, none⟩ : SqliteRepository)) := by
    rw [← h.eq_idle]
    exact Action.after_bind_pure _ _ _
  rw [hnext]
  rcases Sqlite.upsertPrimitive_cases h.2.toSchema p with
    ⟨haccepts, hok⟩ | ⟨exc, hrefusal, herror⟩
  · exact Or.inl ⟨haccepts, by rw [hok]; rfl⟩
  · exact Or.inr ⟨hrefusal.not_accepts, by rw [herror]; exact h.eq_idle.symm⟩

/-- An upsert resets the metrics of the primitive that it overwrites. -/
theorem conserves_seed_iff (vre : VRE σ) {l : Ledger} (h : l.db.Sound)
    (primitive : {p : Primitive // p.metrics = none}) :
    l.Conserves vre (.seed primitive) ↔ l.KeepsCounters (.seed primitive) := by
  simp only [Conserves, step, KeepsCounters]
  rcases upsert_cases h primitive.1 with ⟨haccepts, hnext⟩ | ⟨hrefused, hnext⟩
  · rw [hnext]
    have hread (id : UUID) := Tables.metricsAt_replace h.2.toSchema haccepts id
    simp only [metrics_canonical _ primitive.2] at hread
    constructor
    · rintro ⟨-, hsame⟩ -
      rw [← hsame, Tables.counters, hread, if_pos rfl]
      rfl
    · intro hzero
      refine ⟨fun id hid => Tables.stored_replace.mpr (Or.inr hid), fun id => ?_⟩
      rw [Tables.counters, hread]
      split
      · rename_i hid
        rw [hid, hzero haccepts]
        rfl
      · rfl
  · rw [hnext]
    exact iff_of_true ⟨fun _ hid => hid, fun _ => rfl⟩ fun haccepts => absurd haccepts hrefused

/-! ## Whole runs -/

theorem conserves_iff (vre : VRE σ) {l : Ledger} (h : l.Coherent) {call : UsageCall}
    (hfresh : l.NewIds call) : l.Conserves vre call ↔ l.KeepsCounters call := by
  cases call with
  | check draw concepts minDepth =>
      exact iff_of_true (conserves_check vre h.sound hfresh concepts minDepth) trivial
  | learn draw gap candidate =>
      have hkeeps := learn_keeps h.sound hfresh gap candidate
      refine iff_of_true ⟨fun id => (hkeeps id).1, fun id => ?_⟩ trivial
      exact congrArg PrimitiveMetrics.counters (hkeeps id).2
  | seed primitive => exact conserves_seed_iff vre h.sound primitive

theorem coherent_step (vre : VRE σ) {l : Ledger} (h : l.Coherent) {call : UsageCall}
    (hfresh : l.NewIds call) (hcond : l.KeepsCounters call) : (l.step vre call).2.Coherent := by
  have hconserves := (conserves_iff vre h hfresh).mpr hcond
  cases call with
  | check draw concepts minDepth => exact coherent_check vre h hfresh concepts minDepth
  | learn draw gap candidate => exact h.next (Operation.sound_step h.sound rfl) hconserves.2
  | seed primitive => exact h.next (Operation.sound_step h.sound rfl) hconserves.2

theorem coherent_opened : opened.Coherent where
  sound := ⟨rfl, Tables.wellFormed_empty⟩
  balanced := fun _ => rfl

/-- Along a run from a new store whose calls draw new identifiers: every call does to the
counters what it should, and the counters of every stored primitive add up to the checks that
have named it, exactly when no upsert overwrites a primitive that was counted. -/
theorem run_conserves_iff (vre : VRE σ) {calls : List UsageCall}
    (hfresh : Runs.EveryStep (step vre) NewIds opened calls) :
    (Runs.EveryStep (step vre) (Conserves vre) opened calls ∧
      Runs.EveryState (step vre) Balanced opened calls) ↔
    Runs.EveryStep (step vre) KeepsCounters opened calls := by
  have hkeep (l : Ledger) (call : UsageCall) (h : l.Coherent)
      (hcond : l.NewIds call ∧ l.KeepsCounters call) : (l.step vre call).2.Coherent :=
    coherent_step vre h hcond.1 hcond.2
  have hiff := Runs.everyStep_iff (fun l call h => conserves_iff vre h) hkeep coherent_opened hfresh
  refine ⟨fun h => hiff.mp h.1, fun hcond => ⟨hiff.mpr hcond, ?_⟩⟩
  apply (Runs.everyState_of_everyStep hkeep coherent_opened (hfresh.and hcond)).mono
  exact fun l h id _ => h.balanced id

/-- What a seeder upserts. -/
def seededFile : {p : Primitive // p.metrics = none} :=
  ⟨sample 0 "File" [.existence] [], rfl⟩

/-- A seeded primitive is checked twice, the second time along with an unknown name. -/
def checkedTwice : List UsageCall :=
  [.seed seededFile, .check ⟨fun i => i + 1, 5⟩ ["file"] none,
    .check ⟨fun i => i + 1, 6⟩ ["file", "folder"] none]

omit [NameFolding] in
theorem run_conserves_checkedTwice : letI := asciiFolding
    let vre : VRE Unit := ⟨.new, none⟩
    Runs.EveryStep (step vre) (Conserves vre) opened checkedTwice ∧
      Runs.EveryState (step vre) Balanced opened checkedTwice := by
  let _ := asciiFolding
  intro vre
  have hfresh : Runs.EveryStep (step vre) NewIds opened checkedTwice :=
    ⟨trivial, Draw.fresh_above 5 (by decide), Draw.fresh_above 6 (by decide +kernel), trivial⟩
  exact (run_conserves_iff vre hfresh).mpr ⟨fun _ => rfl, trivial, trivial, trivial⟩

/-- The seeder runs again after a check. -/
def reseeded : List UsageCall :=
  [.seed seededFile, .check ⟨fun i => i + 1, 5⟩ ["file"] none, .seed seededFile]

omit [NameFolding] in
/-- A check is forgotten when the seeder runs again. -/
theorem run_conserves_reseeded : letI := asciiFolding
    let vre : VRE Unit := ⟨.new, none⟩
    let l := reseeded.foldl (fun l call => (l.step vre call).2) opened
    (l.named 0 = 1 ∧ l.db.tables.counters 0 = ⟨0, 0⟩) ∧
      ¬ Runs.EveryState (step vre) Balanced opened reseeded := by
  have hlost : letI := asciiFolding
      let l := reseeded.foldl (fun l call => (l.step (⟨.new, none⟩ : VRE Unit) call).2) opened
      0 ∈ l.db.tables.primitives.map PrimitiveRow.id ∧
        l.named 0 = 1 ∧ l.db.tables.counters 0 = ⟨0, 0⟩ := by decide +kernel
  let _ := asciiFolding
  refine ⟨hlost.2, fun hbalanced => ?_⟩
  have hsum := hbalanced.last 0 (Tables.stored_iff_mem.mpr hlost.1)
  rw [hlost.2.1, hlost.2.2] at hsum
  cases hsum

end Ledger

end Vre
