import Vre.Verification.Metrics.Statements

/-! # Counting while others count

Nothing serializes the calls of several agents, and a batch of metrics is computed from what
an earlier statement read. Counts can be lost, to another check and to a call of `learn_gap`
that saves what it has read. None is invented, and none of those from before is lost.
-/

namespace Vre

open Transactions (Reading)

namespace Counters

def total (c : Counters) : ℤ :=
  c.grounding + c.failure

end Counters

/-! ## What a script saves -/

namespace LearningEngine

/-- The id and the metrics of what an answer shows. -/
def shown : Answer → List (UUID × Option PrimitiveMetrics)
  | .ok (some p) => [(p.id, p.metrics)]
  | _ => []

/-- What the script saves has an id and metrics that were seen together. -/
def Carries : List (UUID × Option PrimitiveMetrics) → Script Primitive → Prop
  | seen, .done p => (p.id, p.metrics) ∈ seen
  | _, .fail _ => True
  | seen, .ask _ next => ∀ answer, Carries (seen ++ shown answer) (next answer)

theorem carries_ofExcept_bind {seen : List (UUID × Option PrimitiveMetrics)} {α : Type}
    {x : Except PyException α} {f : α → Script Primitive} (h : ∀ a, Carries seen (f a)) :
    Carries seen (Reading.ofExcept x >>= f) := by
  cases x with
  | ok a => exact h a
  | error exc => trivial

theorem carries_find {seen : List (UUID × Option PrimitiveMetrics)} {question : Question}
    {f : Option Primitive → Script Primitive} (hnone : Carries seen (f none))
    (hsome : ∀ p, Carries (seen ++ [(p.id, p.metrics)]) (f (some p))) :
    Carries seen (Script.find question >>= f) := by
  intro answer
  cases answer with
  | error exc => trivial
  | ok found =>
      cases found with
      | none =>
          change Carries (seen ++ []) (f none)
          rw [List.append_nil]
          exact hnone
      | some p => exact hsome p

theorem carries_resolveName {seen : List (UUID × Option PrimitiveMetrics)} {name : String}
    {f : Primitive → Script Primitive}
    (h : ∀ p, Carries (seen ++ [(p.id, p.metrics)]) (f p)) :
    Carries seen (Script.resolveName name >>= f) := by
  rw [Script.resolveName, Reading.bind_assoc]
  exact carries_find trivial h

theorem carries_findEndpoint {seen : List (UUID × Option PrimitiveMetrics)} {role name : String}
    {id : UUID} {f : Primitive → Script Primitive}
    (h : ∀ p, Carries (seen ++ [(p.id, p.metrics)]) (f p)) :
    Carries seen (Script.findEndpoint role name id >>= f) := by
  rw [Script.findEndpoint, Reading.bind_assoc]
  exact carries_find trivial h

theorem carries_depthFill {seen : List (UUID × Option PrimitiveMetrics)} (primitiveId : UUID)
    (snapshotName : String) (requiredDepth : DepthLevel) (newDepths : List ProposedDepth)
    (provenance : Provenance) (label : String) :
    Carries seen (Script.depthFill primitiveId snapshotName requiredDepth newDepths provenance
      label) := by
  apply carries_find
  · trivial
  · intro p
    apply carries_ofExcept_bind
    intro _
    apply carries_ofExcept_bind
    intro _
    exact List.mem_append_right _ List.mem_cons_self

/-- A call creates a primitive without metrics, or saves one that it has read. -/
theorem carries_script [NameFolding] (draw : Draw) (gap : KnowledgeGap)
    (candidate : LearningCandidate) :
    Carries [(draw.uuid4 0, none)] (script draw gap candidate) := by
  cases gap with
  | existence g =>
      cases candidate with
      | existence c =>
          apply carries_ofExcept_bind
          intro _
          apply carries_find
          · apply carries_ofExcept_bind
            intro _
            exact List.mem_cons_self
          · intro _
            trivial
      | _ => trivial
  | depth g =>
      cases candidate with
      | depth c => exact carries_ofExcept_bind fun _ => carries_depthFill _ _ _ _ _ _
      | _ => trivial
  | relational g =>
      cases candidate with
      | relational c => exact carries_ofExcept_bind fun _ => carries_depthFill _ _ _ _ _ _
      | _ => trivial
  | reachability g =>
      cases candidate with
      | reachability c =>
          apply carries_ofExcept_bind
          intro edge
          apply carries_resolveName
          intro _
          apply carries_resolveName
          intro _
          apply carries_findEndpoint
          intro source
          apply carries_findEndpoint
          intro _
          apply carries_ofExcept_bind
          intro _
          apply carries_ofExcept_bind
          intro _
          exact List.mem_append_left _ (List.mem_append_right _ List.mem_cons_self)
      | _ => trivial

end LearningEngine

/-- A record is read back with its id and its metrics. -/
theorem hydratePrimitive_identity {row : PrimitiveRow} {relata : List RelatumRow} {p : Primitive}
    (h : (do
      let primitive ← hydratePrimitive row relata
      return some primitive : LearningEngine.Answer) = .ok (some p)) :
    row.id = p.id ∧ row.metricsJson = p.metrics := by
  obtain ⟨q, hq, hsame⟩ := Loops.except_bind_ok.mp h
  cases hsame
  unfold hydratePrimitive at hq
  obtain ⟨_, -, hq⟩ := Loops.except_bind_ok.mp hq
  obtain ⟨_, -, hq⟩ := Loops.except_bind_ok.mp hq
  split at hq
  · cases hq
  · cases hq
    exact ⟨rfl, rfl⟩

theorem LearningEngine.exists_row_of_answer [NameFolding] {question : Question}
    {rows : List PrimitiveRow} {relata : List RelatumRow} {p : Primitive}
    (h : question.answer (⟨⟨rows, relata⟩, none⟩ : SqliteRepository) = .ok (some p)) :
    ∃ row ∈ rows, row.id = p.id ∧ row.metricsJson = p.metrics := by
  cases question with
  | byId id =>
      change Sqlite.findById _ id = _ at h
      unfold Sqlite.findById at h
      split at h
      · cases h
      · rename_i row hrow
        exact ⟨row, List.mem_of_find?_eq_some hrow, hydratePrimitive_identity h⟩
  | byName name =>
      change Sqlite.findByName _ name = _ at h
      unfold Sqlite.findByName at h
      split at h
      · cases h
      · rename_i row hrow
        exact ⟨row, List.mem_of_find?_eq_some hrow, hydratePrimitive_identity h⟩

/-! ## Bounds -/

namespace Ledger

theorem sameKnowledge_writeMetrics (t : Tables) (updates : OrderedDict UUID PrimitiveMetrics) :
    t.SameKnowledge (t.writeMetrics updates) := by
  rw [← Tables.foldl_setMetrics_eq]
  exact Sqlite.sameKnowledge_foldl_setMetrics updates.entries t

/-- The metrics lie between those of `id` at the start and what `n` checks since then allow. -/
structure Bounded (start : Ledger) (id : UUID) (n : ℕ) (metrics : Option PrimitiveMetrics) :
    Prop where
  grounding : (start.db.tables.counters id).grounding ≤
    (PrimitiveMetrics.counters metrics).grounding
  failure : (start.db.tables.counters id).failure ≤ (PrimitiveMetrics.counters metrics).failure
  total : (PrimitiveMetrics.counters metrics).total + start.named id ≤
    (start.db.tables.counters id).total + n

theorem Bounded.mono {start : Ledger} {id : UUID} {n n' : ℕ} {metrics : Option PrimitiveMetrics}
    (h : start.Bounded id n metrics) (hle : n ≤ n') : start.Bounded id n' metrics := by
  refine ⟨h.grounding, h.failure, ?_⟩
  have htotal := h.total
  omega

/-- One more check adds one to the metrics that it read. -/
theorem Bounded.bump {start : Ledger} {id : UUID} {n : ℕ} {metrics : Option PrimitiveMetrics}
    (h : start.Bounded id n metrics) (now : Timestamp) (failed : Bool) :
    start.Bounded id (n + 1) (some (MetricsManager.bump now failed (metrics.getD .new))) ∧
      (start.db.tables.counters id).total <
        (PrimitiveMetrics.counters (some (MetricsManager.bump now failed
          (metrics.getD .new)))).total := by
  obtain ⟨hgrounding, hfailure, htotal⟩ := h
  simp only [Counters.total] at htotal ⊢
  rw [counters_bump]
  cases failed
  · refine ⟨⟨?_, ?_, ?_⟩, ?_⟩ <;> simp only [counters_bump, Counters.bump, Counters.total] <;>
      simp <;> omega
  · refine ⟨⟨?_, ?_, ?_⟩, ?_⟩ <;> simp only [counters_bump, Counters.bump, Counters.total] <;>
      simp <;> omega

/-- No counter has fallen below the start, and none has gained more than the checks since then.
When nobody learns, what was named has gained at least one. -/
structure Counted [NameFolding] (start : Ledger) (alone : Prop) (l : Ledger) : Prop where
  sound : l.db.Sound
  bounded : ∀ id, start.Bounded id (l.named id) (l.db.tables.metricsAt id)
  gained : alone → ∀ id, start.named id < l.named id →
    (start.db.tables.counters id).total < (l.db.tables.counters id).total

theorem Counted.start [NameFolding] {l : Ledger} {alone : Prop} (h : l.db.Sound) :
    l.Counted alone l :=
  ⟨h, fun _ => ⟨le_rfl, le_rfl, le_rfl⟩, fun _ _ hmore => absurd hmore (lt_irrefl _)⟩

/-- From one state to a later one. -/
structure Passes [NameFolding] (start : Ledger) (alone : Prop) (l l' : Ledger) : Prop where
  named : ∀ id, l.named id ≤ l'.named id
  counted : start.Counted alone l → start.Counted alone l' ∧
    ∀ id, l.db.tables.Stored id → l'.db.tables.Stored id

/-- A write that keeps the bounds, now and later. -/
def Writable [NameFolding] (start : Ledger) (alone : Prop) (l : Ledger) : UsageWrite → Prop
  | .save p => ¬ alone ∧ start.Bounded p.id (l.named p.id) p.metrics
  | .count updates => ∀ id metrics, updates.get? id = some metrics → l.db.tables.Stored id ∧
      start.Bounded id (l.named id + 1) (some metrics) ∧
        (start.db.tables.counters id).total < (PrimitiveMetrics.counters (some metrics)).total

variable [NameFolding] {σ : Type} {start : Ledger} {alone : Prop}

theorem Passes.refl (l : Ledger) : start.Passes alone l l :=
  ⟨fun _ => le_rfl, fun h => ⟨h, fun _ hid => hid⟩⟩

theorem Passes.trans {l l' l'' : Ledger} (h : start.Passes alone l l')
    (h' : start.Passes alone l' l'') : start.Passes alone l l'' := by
  refine ⟨fun id => (h.named id).trans (h'.named id), ?_⟩
  intro hcounted
  obtain ⟨hcounted', hstored⟩ := h.counted hcounted
  obtain ⟨hcounted'', hstored'⟩ := h'.counted hcounted'
  exact ⟨hcounted'', fun id hid => hstored' id (hstored id hid)⟩

/-! ### Writes -/

theorem write_count {l : Ledger} (h : l.db.Sound) (updates : OrderedDict UUID PrimitiveMetrics) :
    (sharedStore.write l (.count updates)).2 = ⟨⟨l.db.tables.writeMetrics updates, none⟩,
      fun id => if (updates.get? id).isSome then l.named id + 1 else l.named id⟩ := by
  have hbatch := Sqlite.batchUpdateMetrics_eq updates l.db.tables
  rw [← h.eq_idle, Tables.foldl_setMetrics_eq] at hbatch
  simp only [sharedStore, hbatch]
  rfl

/-- A batch replaces the metrics of the stored primitives that it names. -/
theorem metricsAt_writeMetrics {t : Tables} (h : t.Schema)
    (updates : OrderedDict UUID PrimitiveMetrics) (id : UUID) :
    (t.writeMetrics updates).metricsAt id =
      (t.live id).bind fun p => (updates.get? id).or p.metrics := by
  have hsame := sameKnowledge_writeMetrics t updates
  cases hlive : t.live id with
  | none =>
      have habsent : ¬ t.Stored id := Tables.live_eq_none.mp hlive
      exact Tables.metricsAt_of_absent fun hstored => habsent (hsame.stored.mp hstored)
  | some p =>
      obtain ⟨row, hrow, rfl, rfl⟩ := (Tables.live_eq_some h).mp hlive
      have hread := Tables.metricsAt_of_mem (h.sameKnowledge hsame) (List.mem_map_of_mem hrow)
      cases hget : updates.get? row.id with
      | some metrics =>
          simp only [hget] at hread
          exact hread
      | none =>
          simp only [hget] at hread
          exact hread

theorem metricsAt_batch {t : Tables} (h : t.Schema) {updates : OrderedDict UUID PrimitiveMetrics}
    {id : UUID} {metrics : PrimitiveMetrics} (hget : updates.get? id = some metrics)
    (hstored : t.Stored id) : (t.writeMetrics updates).metricsAt id = some metrics := by
  obtain ⟨p, hp⟩ := Tables.exists_live hstored
  rw [metricsAt_writeMetrics h, hp, hget]
  rfl

theorem metricsAt_batch_of_none {t : Tables} (h : t.Schema)
    {updates : OrderedDict UUID PrimitiveMetrics} {id : UUID} (hget : updates.get? id = none) :
    (t.writeMetrics updates).metricsAt id = t.metricsAt id := by
  rw [metricsAt_writeMetrics h, hget]
  rfl

theorem Writable.passes_count {l : Ledger} {updates : OrderedDict UUID PrimitiveMetrics}
    (h : start.Writable alone l (.count updates)) :
    start.Passes alone l (sharedStore.write l (.count updates)).2 := by
  constructor
  · intro id
    simp only [sharedStore]
    split
    · exact Nat.le_succ _
    · exact le_rfl
  · intro hcounted
    have hschema := hcounted.sound.2.toSchema
    have hsame := sameKnowledge_writeMetrics l.db.tables updates
    rw [write_count hcounted.sound]
    refine ⟨⟨⟨rfl, hcounted.sound.2.sameKnowledge hsame⟩, ?_, ?_⟩, fun id => hsame.stored.mpr⟩
    · intro id
      cases hget : updates.get? id with
      | some metrics =>
          obtain ⟨hstored, hbounded, -⟩ := h id metrics hget
          simpa [metricsAt_batch hschema hget hstored, hget] using hbounded
      | none =>
          simpa [metricsAt_batch_of_none hschema hget, hget] using hcounted.bounded id
    · intro halone id hmore
      cases hget : updates.get? id with
      | some metrics =>
          obtain ⟨hstored, -, hgained⟩ := h id metrics hget
          have hread := metricsAt_batch hschema hget hstored
          change _ < (PrimitiveMetrics.counters (Tables.metricsAt _ id)).total
          rw [hread]
          exact hgained
      | none =>
          have hread := metricsAt_batch_of_none hschema hget
          change _ < (PrimitiveMetrics.counters (Tables.metricsAt _ id)).total
          rw [hread]
          apply hcounted.gained halone
          simpa [hget] using hmore

theorem Writable.passes_save {l : Ledger} {p : Primitive}
    (h : start.Writable alone l (.save p)) :
    start.Passes alone l (sharedStore.write l (.save p)).2 := by
  rw [write_save]
  refine ⟨fun _ => le_rfl, ?_⟩
  intro hcounted
  have hsound := Operation.sound_save hcounted.sound p
  have hschema := hcounted.sound.2.toSchema
  rcases Sqlite.savePrimitive_cases p l.db.tables with ⟨haccepts, hok⟩ | ⟨exc, -, herror⟩
  · rw [← hcounted.sound.eq_idle] at hok
    rw [hok] at hsound ⊢
    refine ⟨⟨hsound, ?_, fun halone => absurd halone h.1⟩,
      fun id hid => Tables.stored_replace.mpr (Or.inr hid)⟩
    intro id
    have hread := Tables.metricsAt_replace hschema haccepts id
    by_cases hid : id = p.id
    · subst hid
      rw [if_pos rfl] at hread
      exact hread ▸ h.2
    · rw [if_neg hid] at hread
      exact hread ▸ hcounted.bounded id
  · rw [← hcounted.sound.eq_idle] at herror
    rw [herror]
    exact ⟨hcounted, fun _ hid => hid⟩

theorem Writable.passes {l : Ledger} {w : UsageWrite} (h : start.Writable alone l w) :
    start.Passes alone l (sharedStore.write l w).2 := by
  cases w with
  | save p => exact h.passes_save
  | count updates => exact h.passes_count

/-- What agents owe each other: that their writes keep the bounds. -/
theorem contract_sharedStore (ι : Type) (start : Ledger) (alone : Prop) :
    sharedStore.Contract (fun _ : ι => start.Passes alone) (fun _ => start.Writable alone)
      (start.Passes alone) where
  rely_refl _ := Passes.refl
  rely_trans _ _ _ _ h h' := h.trans h'
  guar_refl := Passes.refl
  guar_trans _ _ _ h h' := h.trans h'
  gives _ _ _ h := h.passes
  relied _ _ _ _ _ h := h.passes

/-! ### The statements of a call -/

theorem safe_select {l : Ledger} {f : Tables → Statements UsageWrite}
    (h : ∀ l', start.Passes alone l l' →
      sharedStore.Safe (start.Passes alone) (start.Writable alone) l' (f l'.db.tables)) :
    sharedStore.Safe (start.Passes alone) (start.Writable alone) l (Statements.select >>= f) :=
  h

/-- What a batch read shows of a primitive is what is stored. -/
theorem Counted.bounded_of_read {l : Ledger} (h : start.Counted alone l) {ids : List UUID}
    {id : UUID} {metrics : Option PrimitiveMetrics}
    (hread : (l.db.tables.metricsOf ids).get? id = some metrics) :
    l.db.tables.Stored id ∧ start.Bounded id (l.named id) metrics := by
  rw [Tables.get?_metricsOf h.sound.2.toSchema] at hread
  split at hread
  · cases hlive : l.db.tables.live id with
    | none =>
        rw [hlive] at hread
        cases hread
    | some p =>
        rw [hlive] at hread
        cases hread
        have hbounded := h.bounded id
        rw [Tables.metricsAt_of_live hlive] at hbounded
        have hstored : (l.db.tables.live id).isSome := by simp [hlive]
        exact ⟨Tables.isSome_live.mp hstored, hbounded⟩
  · cases hread

/-- The updates that follow from a read may be written at any later time. -/
theorem Counted.writable_updates {l : Ledger} (h : start.Counted alone l) (now : Timestamp)
    (gapIds : List UUID) (targets : List Primitive) {l' : Ledger}
    (hpasses : start.Passes alone l l') :
    start.Writable alone l' (.count (MetricsManager.metricUpdates now gapIds targets
      (l.db.tables.metricsOf (targets.map Primitive.id)))) := by
  intro id metrics hget
  rw [MetricsManager.get?_metricUpdates] at hget
  split at hget
  · obtain ⟨read, hread, rfl⟩ := Option.map_eq_some_iff.mp hget
    obtain ⟨hstored, hbounded⟩ := h.bounded_of_read hread
    obtain ⟨hbumped, hgained⟩ := hbounded.bump now (id ∈ gapIds)
    have hnamed := hpasses.named id
    exact ⟨(hpasses.counted h).2 id hstored, hbumped.mono (Nat.succ_le_succ hnamed), hgained⟩
  · cases hget

theorem safe_check (vre : VRE σ) {l : Ledger} (h : start.Counted alone l) (draw : Draw)
    (concepts : List String) (minDepth : Option DepthLevel) :
    sharedStore.Safe (start.Passes alone) (start.Writable alone) l
      (Statements.check vre draw concepts minDepth) := by
  have hempty (l' : Ledger) : start.Writable alone l' (.count .empty) := by
    intro id metrics hget
    cases hget
  apply safe_select
  intro l₁ h₁
  apply safe_select
  intro l₂ h₂
  apply safe_select
  intro l₃ h₃
  apply Transactions.Store.safe_ofExcept_bind
  intro result _
  have h₃ := h₁.trans (h₂.trans h₃)
  dsimp only
  split
  · exact fun l' _ => hempty l'
  · apply safe_select
    intro l₄ h₄
    have hcounted := ((h₃.trans h₄).counted h).1
    intro l' h'
    exact hcounted.writable_updates _ _ _ h'

/-- What a script saves was bounded when it was read, and checks since then only leave more
room. -/
theorem safe_ofScript (halone : ¬ alone) {l : Ledger} (h : start.Counted alone l)
    {script : LearningEngine.Script Primitive} {seen : List (UUID × Option PrimitiveMetrics)}
    (hcarries : LearningEngine.Carries seen script)
    (hseen : ∀ e ∈ seen, start.Bounded e.1 (l.named e.1) e.2) :
    sharedStore.Safe (start.Passes alone) (start.Writable alone) l
      (Statements.ofScript script >>= fun p => .done (.save p)) := by
  induction script generalizing l seen with
  | done p =>
      intro l' h'
      exact ⟨halone, (hseen _ hcarries).mono (h'.named _)⟩
  | fail exc => trivial
  | ask question next ih =>
      intro l₁ h₁ l₂ h₂
      have hcounted₁ := (h₁.counted h).1
      apply ih _ (h₂.counted hcounted₁).1 (hcarries _)
      intro e he
      rcases List.mem_append.mp he with he | he
      · exact (hseen e he).mono ((h₁.trans h₂).named _)
      · unfold LearningEngine.shown at he
        split at he
        · rename_i p hanswer
          obtain ⟨row, hrow, hid, hmetrics⟩ := LearningEngine.exists_row_of_answer hanswer
          cases List.mem_singleton.mp he
          have hread := Tables.metricsAt_of_mem hcounted₁.sound.2.toSchema hrow
          have hbounded := hcounted₁.bounded row.id
          rw [hread, hid, hmetrics] at hbounded
          exact hbounded.mono (h₂.named _)
        · cases he

end Ledger

/-! ## The interleaved run -/

namespace AgentCall

def Checks : AgentCall → Prop
  | check _ _ _ => True
  | learn _ _ _ => False

/-- What it may create has a new id. -/
def New (l : Ledger) : AgentCall → Prop
  | check _ _ _ => True
  | learn draw _ _ => ¬ l.db.tables.Stored (draw.uuid4 0)

end AgentCall

namespace Ledger

section

variable [NameFolding] {σ : Type} {ι : Type}

theorem safe_statements (vre : VRE σ) {l : Ledger} (h : l.db.Sound) {alone : Prop}
    {call : AgentCall} (hchecks : alone → call.Checks) (hnew : call.New l) :
    sharedStore.Safe (l.Passes alone) (l.Writable alone) l (call.statements vre) := by
  have hcounted : l.Counted alone l := .start h
  cases call with
  | check draw concepts minDepth => exact safe_check vre hcounted draw concepts minDepth
  | learn draw gap candidate =>
      apply safe_ofScript hchecks hcounted (LearningEngine.carries_script draw gap candidate)
      intro e he
      cases List.mem_singleton.mp he
      have hzero : l.db.tables.counters (draw.uuid4 0) = PrimitiveMetrics.counters none := by
        rw [Tables.counters, Tables.metricsAt_of_absent hnew]
      exact ⟨by rw [hzero], by rw [hzero], by rw [hzero]⟩

/-- However the statements of checks and of calls of `learn_gap` interleave, the counters of a
primitive gain at most one for each check that counts it, and fall below what they were for
none. Unless somebody learns they gain at least one. -/
theorem interleaved_counts [DecidableEq ι] (vre : VRE σ) {l : Ledger} (h : l.db.Sound)
    {calls : ι → AgentCall} (hnew : ∀ i, (calls i).New l) (schedule : List ι) :
    let l' := (sharedStore.interleave (.start (fun i => (calls i).statements vre) l)
      schedule).store
    l'.db.Sound ∧ ∀ id,
      (l.db.tables.counters id).grounding ≤ (l'.db.tables.counters id).grounding ∧
      (l.db.tables.counters id).failure ≤ (l'.db.tables.counters id).failure ∧
      (l'.db.tables.counters id).total + l.named id ≤
        (l.db.tables.counters id).total + l'.named id ∧
      ((∀ i, (calls i).Checks) → l.named id < l'.named id →
        (l.db.tables.counters id).total < (l'.db.tables.counters id).total) := by
  have hsafe : sharedStore.AllSafe (fun _ : ι => l.Passes (∀ i, (calls i).Checks))
      (fun _ => l.Writable (∀ i, (calls i).Checks))
      (.start (fun i => (calls i).statements vre) l) := by
    intro i p hp
    cases hp
    exact safe_statements vre h (fun halone => halone i) (hnew i)
  obtain ⟨hpasses, -⟩ := hsafe.interleave (contract_sharedStore ι l _) schedule
  obtain ⟨hsound, hbounded, hgained⟩ := (hpasses.counted (.start h)).1
  refine ⟨hsound, fun id => ⟨(hbounded id).grounding, (hbounded id).failure, (hbounded id).total,
    fun halone => hgained halone id⟩⟩

end

/-- A store that nobody has checked. -/
def uncounted [NameFolding] : Ledger :=
  ⟨GroundingEngine.writeFile, fun _ => 0⟩

def writeChecks (_ : Bool) : AgentCall :=
  .check ⟨fun i => i + 20, 0⟩ ["write"] none

/-- Two checks, the second between the two metric statements of the first. -/
def overlapped [NameFolding] : Ledger :=
  (sharedStore.interleave (.start (fun i => (writeChecks i).statements (⟨.new, none⟩ : VRE Unit))
    uncounted) (List.replicate 4 true ++ List.replicate 5 false ++ [true])).store

/-- One of the two counts is lost. -/
theorem interleaved_counts_overlapped : letI := asciiFolding
    overlapped.named 1 = 2 ∧ 0 < (overlapped.db.tables.counters 1).total ∧
      (overlapped.db.tables.counters 1).total < overlapped.named 1 := by
  have hsound : letI := asciiFolding; uncounted.db.Sound :=
    @GroundingEngine.sound_writeFile asciiFolding
  have hnew : letI := asciiFolding; ∀ i, (writeChecks i).New uncounted := fun _ => trivial
  have hnone : letI := asciiFolding; (uncounted.db.tables.counters 1).total = 0 := by
    decide +kernel
  have hnamed : letI := asciiFolding; overlapped.named 1 = 2 := by decide +kernel
  have hlost : letI := asciiFolding
      (overlapped.db.tables.counters 1).total < overlapped.named 1 := by decide +kernel
  have hcounts := letI := asciiFolding
    interleaved_counts (⟨.new, none⟩ : VRE Unit) hsound hnew
      (List.replicate 4 true ++ List.replicate 5 false ++ [true])
  have hgained := (hcounts.2 1).2.2.2 fun _ => trivial
  refine ⟨hnamed, ?_, hlost⟩
  apply lt_of_eq_of_lt hnone.symm
  exact hgained (lt_of_lt_of_eq Nat.two_pos hnamed.symm)

end Ledger

end Vre
