import Vre.Verification.Interface.SplitReads
import Vre.Verification.Learning.Script
import Vre.Verification.Metrics.Conservation

/-! # Calls statement by statement

On SQLite a check selects three times for its subgraph and once for the metrics of what it
counts, then updates them in one transaction. `learn_gap` selects a record and its relata each
time it looks a primitive up, and ends with a save. Between two statements anything may have
been committed.
-/

namespace Vre

open Transactions (Reading)

/-- The transaction that ends a call. -/
inductive UsageWrite where
  | save (p : Primitive)
  | count (updates : OrderedDict UUID PrimitiveMetrics)

/-- Statements that read, each of the tables as it finds them. -/
abbrev Statements (α : Type) := Reading Unit Tables PyException α

namespace Statements

def select : Statements Tables :=
  .ask () .done

/-- `find_by_id` and `find_by_name` select the record, then its relata. -/
def ofScript {α : Type} [NameFolding] : LearningEngine.Script α → Statements α
  | .done a => .done a
  | .fail exc => .fail exc
  | .ask question next => .ask () fun rows => .ask () fun relata =>
      ofScript (next (question.answer
        (⟨⟨rows.primitives, relata.relata⟩, none⟩ : SqliteRepository)))

variable [NameFolding] {σ : Type}

/-- The statements of `check` up to the batch of its updates. -/
def check (vre : VRE σ) (draw : Draw) (concepts : List String) (minDepth : Option DepthLevel) :
    Statements UsageWrite := do
  let reachable ← select
  let rows ← select
  let relata ← select
  let reader : SplitRead := ⟨reachable, rows, ⟨relata, none⟩⟩
  let result ← Reading.ofExcept (GroundingEngine.ground draw reader concepts minDepth)
  let result := vre.stampIdentity result
  let targets := MetricsManager.counted result
  if targets.isEmpty then
    return .count .empty
  else
    let tables ← select
    match Sqlite.batchReadMetrics ⟨tables, none⟩ (targets.map Primitive.id) with
    | .error _ => return .count .empty
    | .ok current =>
        let updates := MetricsManager.metricUpdates draw.now (gapPrimitiveIds result.gaps) targets
          current
        return .count updates

end Statements

/-! ## Agents -/

/-- What agents call. -/
inductive AgentCall where
  | check (draw : Draw) (concepts : List String) (minDepth : Option DepthLevel)
  | learn (draw : Draw) (gap : KnowledgeGap) (candidate : LearningCandidate)

namespace AgentCall

def usage : AgentCall → UsageCall
  | check draw concepts minDepth => .check draw concepts minDepth
  | learn draw gap candidate => .learn draw gap candidate

def statements {σ : Type} [NameFolding] (vre : VRE σ) : AgentCall → Statements UsageWrite
  | check draw concepts minDepth => Statements.check vre draw concepts minDepth
  | learn draw gap candidate => do
      let primitive ← Statements.ofScript (LearningEngine.script draw gap candidate)
      return .save primitive

end AgentCall

namespace Ledger

variable [NameFolding] {σ : Type}

/-- The store as the statements of many calls share it. A batch of updates counts the check for
each primitive in it. -/
def sharedStore : Transactions.Store Ledger Unit Tables UsageWrite (Option ErrorClass) where
  answer l _ := l.db.tables
  write l
    | .save p =>
        match Sqlite.savePrimitive p l.db with
        | .ok _ db => (none, { l with db := db })
        | .error exc db => (some exc.cls, { l with db := db })
    | .count updates => (none, ⟨Action.after (Sqlite.batchUpdateMetrics updates l.db),
        fun id => if (updates.get? id).isSome then l.named id + 1 else l.named id⟩)

/-! ## A call with nothing in between -/

theorem run_ofScript {α : Type} (t : Tables) (s : LearningEngine.Script α) :
    (Statements.ofScript s).run (fun _ => t) =
      s.run (LearningEngine.Question.answer (⟨t, none⟩ : SqliteRepository)) := by
  induction s with
  | done a => rfl
  | fail exc => rfl
  | ask question next ih => exact ih _

theorem write_save (l : Ledger) (p : Primitive) :
    (sharedStore.write l (.save p)).2 =
      { l with db := Action.after (Sqlite.savePrimitive p l.db) } := by
  simp only [sharedStore]
  cases Sqlite.savePrimitive p l.db <;> rfl

theorem run_learn (vre : VRE σ) {l : Ledger} (h : l.db.Sound) (draw : Draw) (gap : KnowledgeGap)
    (candidate : LearningCandidate) :
    (sharedStore.run ((AgentCall.learn draw gap candidate).statements vre) l).2 =
      (l.step vre (.learn draw gap candidate)).2 := by
  have hscript := run_ofScript l.db.tables (LearningEngine.script draw gap candidate)
  rw [← h.eq_idle] at hscript
  have hnext : Operation.next l.db (.learn draw gap candidate) = Action.after
      (((LearningEngine.script draw gap candidate).toAction >>= Sqlite.savePrimitive) l.db) :=
    congrArg (fun act : Action SqliteRepository Unit => Action.after (act l.db))
      (LearningEngine.learnGap_eq draw gap candidate)
  simp only [step, hnext]
  have hrun : ((AgentCall.learn draw gap candidate).statements vre).run (sharedStore.answer l) =
      (Statements.ofScript (LearningEngine.script draw gap candidate)).run
        (fun _ => l.db.tables) >>= fun p => .ok (.save p) := by
    simp only [AgentCall.statements, Reading.run_bind]
    rfl
  unfold Transactions.Store.run
  rw [hrun, hscript]
  cases hcase : (LearningEngine.script draw gap candidate).run
      (LearningEngine.Question.answer l.db) with
  | error exc =>
      have hread : ((LearningEngine.script draw gap candidate).toAction :
        Action SqliteRepository Primitive) l.db = .error exc l.db := Action.read_of_error hcase
      rw [Loops.bind_of_error hread]
      rfl
  | ok p =>
      have hread : ((LearningEngine.script draw gap candidate).toAction :
        Action SqliteRepository Primitive) l.db = .ok p l.db := Action.read_of_ok hcase
      rw [Loops.bind_of_ok hread]
      exact write_save l p

/-- What a check counts are the primitives of the response under a submitted name. -/
theorem counted_eq_targets (vre : VRE σ) {t : Tables} (h : t.Schema) {draw : Draw}
    {concepts : List String} {minDepth : Option DepthLevel} {result : GroundingResult}
    (hground : GroundingEngine.ground draw (⟨t, none⟩ : SqliteRepository) concepts minDepth =
      .ok result) :
    MetricsManager.counted (vre.stampIdentity result) =
      (t.inquiry draw concepts minDepth).targets := by
  by_cases hne : concepts = []
  · subst hne
    cases (GroundingEngine.ground_nil draw ⟨t, none⟩ minDepth).symm.trans hground
    have hnone : (t.inquiry draw [] minDepth).response.result.primitives = [] := by
      rw [GroundingEngine.response_nil]
      rfl
    have htargets : (t.inquiry draw [] minDepth).targets = [] := by
      rw [GroundingEngine.Inquiry.targets, hnone]
      rfl
    rw [htargets, MetricsManager.counted, GroundingResult.getPrimitives,
      VRE.trace_stampIdentity]
    rfl
  · have hschema : (⟨t, none⟩ : SqliteRepository).tables.Schema := h
    cases (GroundingEngine.ground_eq hschema draw hne minDepth).symm.trans hground
    rw [MetricsManager.counted, VRE.resolved_stampIdentity, GroundingResult.getPrimitives,
      VRE.trace_stampIdentity]
    simp only [GroundingEngine.Inquiry.result, GroundingEngine.fold_resolved]
    rfl

/-- Without commits in between the statements of a check end in one batch: what the check
makes of the metrics that are stored. -/
theorem run_statements_check (vre : VRE σ) {t : Tables} {draw : Draw} {concepts : List String}
    {minDepth : Option DepthLevel} {result : GroundingResult}
    (hground : GroundingEngine.ground draw (⟨t, none⟩ : SqliteRepository) concepts minDepth =
      .ok result) {current : OrderedDict UUID (Option PrimitiveMetrics)}
    (hcurrent : Sqlite.batchReadMetrics ⟨t, none⟩
      ((MetricsManager.counted (vre.stampIdentity result)).map Primitive.id) = .ok current) :
    (Statements.check vre draw concepts minDepth).run (fun _ => t) =
      .ok (.count (MetricsManager.metricUpdates draw.now
        (gapPrimitiveIds (vre.stampIdentity result).gaps)
        (MetricsManager.counted (vre.stampIdentity result)) current)) := by
  have hsplit : GroundingEngine.ground draw (⟨t, t, ⟨t, none⟩⟩ : SplitRead) concepts minDepth =
      .ok result := hground
  unfold Statements.check
  simp only [Reading.run_bind, Reading.run_ofExcept, Statements.select, Reading.run,
    Loops.ok_bind, hsplit]
  by_cases htargets : MetricsManager.counted (vre.stampIdentity result) = []
  · simp only [htargets]
    rfl
  · simp only [List.isEmpty_iff, htargets, if_false, Reading.run_bind, Reading.run, Loops.ok_bind,
      hcurrent]
    rfl

/-- A check updates the stored primitives that its concepts name. -/
theorem isSome_metricUpdates {t : Tables} (h : t.Schema) {draw : Draw} (hfresh : draw.Fresh t)
    (concepts : List String) (minDepth : Option DepthLevel) (gapIds : List UUID)
    {current : OrderedDict UUID (Option PrimitiveMetrics)}
    (hcurrent : Sqlite.batchReadMetrics ⟨t, none⟩
      ((t.inquiry draw concepts minDepth).targets.map Primitive.id) = .ok current) (id : UUID) :
    ((MetricsManager.metricUpdates draw.now gapIds (t.inquiry draw concepts minDepth).targets
      current).get? id).isSome ↔ t.Named concepts id := by
  have hread : ∀ id, current.get? id =
      if id ∈ (t.inquiry draw concepts minDepth).targets.map Primitive.id then
        (t.live id).map Primitive.metrics else none := by
    intro id
    cases hcurrent
    exact Tables.get?_metricsOf h _ id
  rw [MetricsManager.get?_metricUpdates, hread]
  constructor
  · intro hsome
    split at hsome
    · rename_i htarget
      simp only [Option.isSome_map] at hsome
      obtain ⟨row, hrow, rfl⟩ := Tables.isSome_live.mp hsome
      exact ⟨row, hrow, rfl, (GroundingEngine.mem_targets_iff h hfresh _ _ hrow).mp htarget⟩
    · cases hsome
  · intro hnamed
    obtain ⟨row, hrow, rfl, hname⟩ := hnamed
    have htarget := (GroundingEngine.mem_targets_iff h hfresh concepts minDepth hrow).mpr hname
    rw [if_pos htarget, if_pos htarget]
    simpa using Tables.isSome_live.mpr ⟨row, hrow, rfl⟩

theorem run_check (vre : VRE σ) {l : Ledger} (h : l.db.Sound) {draw : Draw}
    (hfresh : draw.Fresh l.db.tables) (concepts : List String) (minDepth : Option DepthLevel) :
    (sharedStore.run ((AgentCall.check draw concepts minDepth).statements vre) l).2 =
      (l.step vre (.check draw concepts minDepth)).2 := by
  obtain ⟨db, named⟩ := l
  obtain ⟨t, savepoint⟩ := db
  obtain ⟨rfl, hwell⟩ := h
  have hschema : t.Schema := hwell.toSchema
  obtain ⟨checked, hcheck⟩ := vre.check_counts hschema hfresh concepts minDepth
  have hidle : (⟨t, none⟩ : SqliteRepository).tables.Schema := hschema
  obtain ⟨-, result, -, hground, -⟩ :=
    GroundingEngine.ground_grounded_iff hidle draw concepts minDepth
  obtain ⟨t', hcheck', -⟩ := vre.check_eq draw hground
  cases hcheck.symm.trans hcheck'
  have htargets := counted_eq_targets vre hschema hground
  have hcurrent : Sqlite.batchReadMetrics ⟨t, none⟩
      ((t.inquiry draw concepts minDepth).targets.map Primitive.id) = .ok _ := rfl
  have hrun := run_statements_check vre hground (htargets ▸ hcurrent)
  rw [htargets] at hrun
  have hwritten := MetricsManager.writeMetrics_eq_countCheck hschema hfresh concepts minDepth
    (gapPrimitiveIds (vre.stampIdentity result).gaps) hcurrent
  have hnamed := isSome_metricUpdates hschema hfresh concepts minDepth
    (gapPrimitiveIds (vre.stampIdentity result).gaps) hcurrent
  unfold Transactions.Store.run
  simp only [AgentCall.statements, sharedStore, hrun, step, hcheck, Sqlite.batchUpdateMetrics_eq,
    Tables.foldl_setMetrics_eq, hwritten, hnamed]
  rfl

/-- A call whose statements nothing comes between is the call. -/
theorem run_statements (vre : VRE σ) {l : Ledger} (h : l.db.Sound) {call : AgentCall}
    (hfresh : l.NewIds call.usage) :
    (sharedStore.run (call.statements vre) l).2 = (l.step vre call.usage).2 := by
  cases call with
  | check draw concepts minDepth => exact run_check vre h hfresh concepts minDepth
  | learn draw gap candidate => exact run_learn vre h draw gap candidate

end Ledger

end Vre
