import Vre.Library.Runs
import Vre.Verification.Learning.Effect
import Vre.Verification.Store.WellFormed

/-! # Runs of the SQLite backend

Every operation, whether it returns or raises, leaves an idle connection over well-formed
tables.
-/

namespace Vre

/-- A call that may change the store. -/
inductive Operation where
  | save (primitive : Primitive)
  | upsert (primitive : Primitive)
  | delete (id : UUID)
  | clear
  | updateMetrics (id : UUID) (metrics : PrimitiveMetrics)
  | batchUpdateMetrics (updates : OrderedDict UUID PrimitiveMetrics)
  | learn (draw : Draw) (gap : KnowledgeGap) (candidate : LearningCandidate)

namespace Operation

def run [NameFolding] : Operation → Action SqliteRepository Unit
  | save primitive => Repository.savePrimitive primitive
  | upsert primitive => do
      let _ ← upsertPrimitive primitive
      return ()
  | delete id => do
      let _ ← (Repository.deletePrimitive id : Action SqliteRepository Bool)
      return ()
  | clear => do
      let _ ← (Repository.clear : Action SqliteRepository ℕ)
      return ()
  | updateMetrics id metrics => Repository.updateMetrics id metrics
  | batchUpdateMetrics updates => Repository.batchUpdateMetrics updates
  | learn draw gap candidate => LearningEngine.learnGap draw gap candidate

/-- The store the call leaves, whether it returned or raised. -/
def next [NameFolding] (db : SqliteRepository) (op : Operation) : SqliteRepository :=
  Action.after (op.run db)

def Step [NameFolding] (db : SqliteRepository) (op : Operation) (db' : SqliteRepository) : Prop :=
  next db op = db'

end Operation

namespace Sqlite

/-! ## Metrics -/

theorem metricsTransaction_eq {label : String} {statements : Action SqliteRepository Unit}
    {t t' : Tables} (h : statements ⟨t, some t⟩ = .ok () ⟨t', some t⟩) :
    metricsTransaction label statements ⟨t, none⟩ = .ok () ⟨t', none⟩ := by
  have hbegin : begin ⟨t, none⟩ = .ok () ⟨t, some t⟩ := rfl
  apply Loops.tryCatch_of_ok
  rw [Loops.bind_of_ok hbegin, Loops.bind_of_ok h]
  rfl

theorem updateMetrics_eq (id : UUID) (metrics : PrimitiveMetrics) (t : Tables) :
    updateMetrics id metrics ⟨t, none⟩ = .ok () ⟨t.setMetrics id metrics, none⟩ :=
  metricsTransaction_eq rfl

theorem forM_setMetrics (entries : List (UUID × PrimitiveMetrics)) (t : Tables)
    (savepoint : Option Tables) :
    (entries.forM fun e => execute fun t => .ok (t.setMetrics e.1 e.2)) ⟨t, savepoint⟩ =
      .ok () ⟨entries.foldl (fun t e => t.setMetrics e.1 e.2) t, savepoint⟩ := by
  induction entries generalizing t with
  | nil => rfl
  | cons e rest ih =>
      rw [Loops.forM_cons, Loops.bind_of_ok (execute_eq _ _)]
      exact ih (t.setMetrics e.1 e.2)

theorem batchUpdateMetrics_eq (updates : OrderedDict UUID PrimitiveMetrics) (t : Tables) :
    batchUpdateMetrics updates ⟨t, none⟩ =
      .ok () ⟨updates.entries.foldl (fun t e => t.setMetrics e.1 e.2) t, none⟩ := by
  unfold batchUpdateMetrics
  cases hentries : updates.entries with
  | nil => rfl
  | cons e rest => exact metricsTransaction_eq (forM_setMetrics (e :: rest) t (some t))

theorem sameKnowledge_foldl_setMetrics (entries : List (UUID × PrimitiveMetrics)) (t : Tables) :
    t.SameKnowledge (entries.foldl (fun t e => t.setMetrics e.1 e.2) t) := by
  induction entries generalizing t with
  | nil => exact .refl t
  | cons e rest ih =>
      exact (Tables.sameKnowledge_setMetrics e.1 e.2 t).trans (ih (t.setMetrics e.1 e.2))

/-! ## Upserts -/

theorem upsertPrimitive_eq [NameFolding] {t : Tables} (h : t.Schema) (p : Primitive) :
    upsertPrimitive p (⟨t, none⟩ : SqliteRepository) =
      (do savePrimitive (t.canonical p); return t.canonical p) ⟨t, none⟩ :=
  Loops.bind_of_ok (LearningEngine.read_findByName h p.name)

/-- What one upsert can do. -/
theorem upsertPrimitive_cases [NameFolding] {t : Tables} (h : t.Schema) (p : Primitive) :
    (Accepts t (t.canonical p) ∧ upsertPrimitive p (⟨t, none⟩ : SqliteRepository) =
      .ok (t.canonical p)
        ⟨t.replace (t.canonical p).toRow (t.canonical p).toRelata, none⟩) ∨
    ∃ exc, Refusal t (t.canonical p) exc ∧
      upsertPrimitive p (⟨t, none⟩ : SqliteRepository) = .error exc ⟨t, none⟩ := by
  rw [upsertPrimitive_eq h]
  rcases savePrimitive_cases (t.canonical p) t with ⟨haccepts, hok⟩ | ⟨exc, hrefusal, herror⟩
  · exact Or.inl ⟨haccepts, Loops.bind_of_ok hok⟩
  · exact Or.inr ⟨exc, hrefusal, Loops.bind_of_error herror⟩

end Sqlite

/-! ## One step -/

/-- An idle connection over well-formed tables. -/
def SqliteRepository.Sound [NameFolding] (db : SqliteRepository) : Prop :=
  db.savepoint = none ∧ db.tables.WellFormed

theorem SqliteRepository.Sound.eq_idle [NameFolding] {db : SqliteRepository} (h : db.Sound) :
    db = ⟨db.tables, none⟩ := by
  rw [← h.1]

namespace Operation

theorem sound_save [NameFolding] {db : SqliteRepository} (h : db.Sound) (p : Primitive) :
    (Action.after (Sqlite.savePrimitive p db)).Sound := by
  rw [h.eq_idle]
  rcases Sqlite.savePrimitive_cases p db.tables with ⟨haccepts, hok⟩ | ⟨exc, -, herr⟩
  · rw [hok]
    exact ⟨rfl, h.2.replace haccepts⟩
  · rw [herr]
    exact ⟨rfl, h.2⟩

/-- An upsert is a save, under the id of a primitive that already has the name. -/
theorem next_upsert [NameFolding] {db : SqliteRepository} (h : db.Sound) (p : Primitive) :
    next db (.upsert p) = Action.after (Sqlite.savePrimitive (db.tables.canonical p) db) := by
  rw [h.eq_idle]
  calc next ⟨db.tables, none⟩ (.upsert p)
      = Action.after (upsertPrimitive p (⟨db.tables, none⟩ : SqliteRepository)) :=
        Action.after_bind_pure _ _ _
    _ = Action.after (Sqlite.savePrimitive (db.tables.canonical p) ⟨db.tables, none⟩) := by
        rw [Sqlite.upsertPrimitive_eq h.2.toSchema]
        exact Action.after_bind_pure _ _ _

/-- Every operation leaves a sound connection, also when it raises. -/
theorem sound_step [NameFolding] {db db' : SqliteRepository} {op : Operation} (h : db.Sound)
    (hstep : Step db op db') : db'.Sound := by
  subst hstep
  cases op with
  | save p => exact sound_save h p
  | upsert p =>
      rw [next_upsert h]
      exact sound_save h _
  | delete id =>
      rw [h.eq_idle]
      exact ⟨rfl, h.2.deletePrimitiveRow id⟩
  | clear =>
      rw [h.eq_idle]
      exact ⟨rfl, Tables.wellFormed_empty⟩
  | updateMetrics id metrics =>
      rw [h.eq_idle]
      change SqliteRepository.Sound (Action.after (Sqlite.updateMetrics id metrics ⟨_, none⟩))
      rw [Sqlite.updateMetrics_eq]
      exact ⟨rfl, h.2.sameKnowledge (Tables.sameKnowledge_setMetrics id metrics _)⟩
  | batchUpdateMetrics updates =>
      rw [h.eq_idle]
      change SqliteRepository.Sound (Action.after (Sqlite.batchUpdateMetrics updates ⟨_, none⟩))
      rw [Sqlite.batchUpdateMetrics_eq]
      exact ⟨rfl, h.2.sameKnowledge (Sqlite.sameKnowledge_foldl_setMetrics updates.entries _)⟩
  | learn draw gap candidate =>
      rw [h.eq_idle]
      have hidle : SqliteRepository.Sound ⟨db.tables, none⟩ := ⟨rfl, h.2⟩
      change SqliteRepository.Sound
        (Action.after (LearningEngine.learnGap draw gap candidate ⟨_, none⟩))
      rcases LearningEngine.learnGap_cases h.2.toSchema draw gap candidate with
        ⟨p, -, hsave⟩ | ⟨-, exc, herr⟩
      · rw [hsave]
        exact sound_save hidle p
      · rw [herr]
        exact hidle

theorem sound_run [NameFolding] {ops : List Operation} {db : SqliteRepository}
    (h : Runs.Run Step .fresh ops db) : db.Sound := by
  have hfresh : SqliteRepository.fresh.Sound := ⟨rfl, Tables.wellFormed_empty⟩
  have hstep : ∀ s op s', SqliteRepository.Sound s → Step s op s' → SqliteRepository.Sound s' :=
    fun _ _ _ => sound_step
  exact Runs.Run.invariant hstep hfresh h

theorem sound_foldl [NameFolding] (ops : List Operation) : (List.foldl next .fresh ops).Sound :=
  sound_run (Runs.run_foldl next .fresh ops)

end Operation

/-! ## Whole runs -/

/-- In every state a run reaches, whatever succeeded and whatever failed on the way: the
transitive relata form no cycle, names are unique up to folding, both ends of every relatum
are stored, and every relatum stands at a stored level, where hydration finds it. -/
theorem run_wellFormed [NameFolding] {ops : List Operation} {db : SqliteRepository}
    (h : Runs.Run Operation.Step .fresh ops db) :
    Digraph.Acyclic db.tables.TransEdge ∧
    (db.tables.primitives.map PrimitiveRow.nameLower).Nodup ∧
    (∀ row ∈ db.tables.primitives, row.nameLower = foldName row.name) ∧
    (∀ rel ∈ db.tables.relata, db.tables.Stored rel.sourceId ∧ db.tables.Stored rel.targetId) ∧
    ∀ rel ∈ db.tables.relata, db.tables.Homed rel ∧ ∃ p, db.tables.live rel.sourceId = some p ∧
      ∃ d ∈ p.depths, d.level = rel.sourceDepth ∧ rel.toRelatum ∈ d.relata := by
  have hsound := (Operation.sound_run h).2
  exact ⟨hsound.acyclic, hsound.nodup_names, hsound.folded,
    fun rel hrel => ⟨hsound.sources rel hrel, hsound.targets rel hrel⟩,
    fun rel hrel => ⟨hsound.homed rel hrel, hsound.exists_depth hrel⟩⟩

/-- Provenance of the sample graphs. -/
def authored : Provenance :=
  ⟨.authored, 0, 0, none⟩

/-- A primitive with bare records at the given levels, and the given relata at the last. -/
def sample (id : UUID) (name : String) (levels : List DepthLevel) (relata : List Relatum) :
    Primitive :=
  let bare := levels.map fun level => (⟨level, [], [], some authored⟩ : Depth)
  let top := (levels.getLast?.map fun level => (⟨level, [], relata, some authored⟩ : Depth)).toList
  ⟨id, name, bare.dropLast ++ top, some authored, none⟩

/-- Two saves, the second of a primitive that requires the first, and a refused third that
would close the cycle. -/
theorem run_wellFormed_refused_cycle : letI := asciiFolding
    let db := List.foldl Operation.next .fresh
      [.save (sample 0 "File" [.existence] []),
        .save (sample 1 "Write" [.existence] [⟨.requires, 0, .existence, [], some authored⟩]),
        .save (sample 0 "file" [.existence] [⟨.dependsOn, 1, .existence, [], some authored⟩])]
    db.tables.relata.length = 1 ∧ Digraph.Acyclic db.tables.TransEdge := by
  let _ := asciiFolding
  refine ⟨by decide, ?_⟩
  exact (run_wellFormed (Runs.run_foldl Operation.next .fresh _)).1

end Vre
