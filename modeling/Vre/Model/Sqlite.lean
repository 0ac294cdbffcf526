import Vre.Library.Worklist
import Vre.Model.PyPrimitive
import Vre.Model.Repository
import Vre.Model.Rows

/-! # The SQLite backend

`SQLiteRepository` of `vre.core.backends.sqlite`. The two tables are lists in insertion
order; the statements below carry the constraints the schema declares: the primary key on
`id`, the unique index on `name_lower`, and the two foreign keys of `relata` with cascading
deletes. `BEGIN` keeps a copy of the tables that `rollback` restores.
-/

namespace Vre

structure Tables where
  primitives : List PrimitiveRow
  relata : List RelatumRow
  deriving DecidableEq, Repr

/-- A connection: its tables, and what an open transaction would roll back to. -/
structure SqliteRepository where
  tables : Tables
  savepoint : Option Tables
  deriving DecidableEq, Repr

/-! ## Statements -/

/-- `INSERT INTO primitives … ON CONFLICT(id) DO UPDATE`. -/
def Tables.upsertPrimitiveRow (row : PrimitiveRow) (t : Tables) : Except PyException Tables :=
  if t.primitives.any fun other => other.id ≠ row.id ∧ other.nameLower = row.nameLower then
    raise .sqliteError "UNIQUE constraint failed: primitives.name_lower"
  else if t.primitives.any fun other => other.id = row.id then
    .ok { t with primitives := t.primitives.map fun r => if r.id = row.id then row else r }
  else
    .ok { t with primitives := t.primitives ++ [row] }

/-- `DELETE FROM relata WHERE source_id = ?`. -/
def Tables.deleteOutgoing (sourceId : UUID) (t : Tables) : Tables :=
  { t with relata := t.relata.filter fun r => r.sourceId ≠ sourceId }

/-- `INSERT INTO relata`, with both foreign keys checked. -/
def Tables.insertRelatum (rel : RelatumRow) (t : Tables) : Except PyException Tables :=
  if (t.primitives.any fun row => row.id = rel.sourceId) ∧
      (t.primitives.any fun row => row.id = rel.targetId) then
    .ok { t with relata := t.relata ++ [rel] }
  else
    raise .sqliteError "FOREIGN KEY constraint failed"

/-- `DELETE FROM primitives WHERE id = ?`, cascading to the relata of both directions. -/
def Tables.deletePrimitiveRow (id : UUID) (t : Tables) : Tables where
  primitives := t.primitives.filter fun row => row.id ≠ id
  relata := t.relata.filter fun r => r.sourceId ≠ id ∧ r.targetId ≠ id

/-- `UPDATE primitives SET metrics_json = ? WHERE id = ?`. -/
def Tables.setMetrics (id : UUID) (metrics : PrimitiveMetrics) (t : Tables) : Tables :=
  { t with
    primitives := t.primitives.map fun row =>
      if row.id = id then { row with metricsJson := some metrics } else row }

/-- The join of the recursive queries: targets of the transitive relata that leave `id`. -/
def Tables.transitiveTargets (t : Tables) (id : UUID) : List UUID :=
  (t.relata.filter fun r => r.sourceId = id ∧ r.relType ∈ transitiveRelationTypes).map
    RelatumRow.targetId

/-- Every target of a stored relatum. -/
def Tables.targets (t : Tables) : List UUID :=
  t.relata.map RelatumRow.targetId

namespace Sqlite

/-! ## Transactions -/

def begin : Action SqliteRepository Unit := fun db =>
  match db.savepoint with
  | none => .ok () { db with savepoint := some db.tables }
  | some _ => .error ⟨.sqliteError, "cannot start a transaction within a transaction"⟩ db

def commit : Action SqliteRepository Unit := fun db =>
  .ok () { db with savepoint := none }

def rollback : Action SqliteRepository Unit := fun db =>
  match db.savepoint with
  | none => .ok () db
  | some tables => .ok () ⟨tables, none⟩

def execute (statement : Tables → Except PyException Tables) : Action SqliteRepository Unit :=
  fun db =>
    match statement db.tables with
    | .ok tables => .ok () { db with tables := tables }
    | .error e => .error e db

/-! ## Cycle detection -/

/-- The distinct transitive targets of the proposed relata, each with the type of the first
relatum to it. A self-reference is refused at once. -/
def collectTargets (sourceId : UUID) :
    List RelatumRow → OrderedDict UUID RelationType →
      Except PyException (OrderedDict UUID RelationType)
  | [], targetRelType => .ok targetRelType
  | rp :: rest, targetRelType =>
      if rp.relType ∉ transitiveRelationTypes then
        collectTargets sourceId rest targetRelType
      else if rp.targetId = sourceId then
        raise .cyclicRelationshipError s!"Self-referential {rp.relType.value} on {sourceId}"
      else
        collectTargets sourceId rest (targetRelType.setDefault rp.targetId rp.relType)

/-- The recursive query of the cycle check: the targets that reach `sourceId`, each target
carried along as the origin of its walk. -/
def originsReaching (t : Tables) (targets : List UUID) (sourceId : UUID) : List UUID :=
  let reachable := Worklist.search
    (fun row : UUID × UUID => (t.transitiveTargets row.2).map fun target => (row.1, target))
    (targets.flatMap fun origin => t.targets.map fun target => (origin, target))
    (targets.map fun target => (target, target))
  ((reachable.filter fun row => row.2 = sourceId).map Prod.fst).dedup

/-- `_check_transitive_cycles`. -/
def checkTransitiveCycles (sourceId : UUID) (relataParams : List RelatumRow) (t : Tables) :
    Except PyException Unit := do
  let targetRelType ← collectTargets sourceId relataParams .empty
  match originsReaching t targetRelType.keys sourceId with
  | [] => return ()
  | offending :: _ =>
      let relType := ((targetRelType.get? offending).map RelationType.value).getD ""
      raise .cyclicRelationshipError
        s!"{relType} from {sourceId} to {offending} would create a cycle"

/-! ## Primitives -/

/-- The statements of `save_primitive` between `BEGIN` and the commit. -/
def writePrimitive (row : PrimitiveRow) (relataParams : List RelatumRow) :
    Action SqliteRepository Unit := do
  execute (Tables.upsertPrimitiveRow row)
  execute fun t => .ok (t.deleteOutgoing row.id)
  Action.read fun db => checkTransitiveCycles row.id relataParams db.tables
  relataParams.forM fun rp => execute (Tables.insertRelatum rp)

variable [NameFolding]

/-- Persist a primitive: full replace of its record and of its outgoing relata. The UPSERT takes
the name and the folded name as the driver binds them. -/
def savePrimitiveBinding (bound : Except PyException (String × String)) (primitive : Primitive) :
    Action SqliteRepository Unit := do
  Action.lift primitive.validateProvenance
  let depthsJson ← Action.lift (depthsToJson primitive.depths)
  let relataParams ← Action.lift (relataParams primitive)
  try
    begin
    let names ← Action.lift bound
    let row : PrimitiveRow := ⟨primitive.id, names.1, names.2, depthsJson, primitive.provenance,
      primitive.metrics⟩
    writePrimitive row relataParams
    commit
  catch exc =>
    match exc.cls with
    | .cyclicRelationshipError =>
        rollback
        throw exc
    | .sqliteError =>
        rollback
        throw ⟨.persistenceError, s!"Failed to save primitive '{primitive.name}': {exc.message}"⟩
    | _ => throw exc

/-- `save_primitive` under any `str` as the name. The driver encodes both names in UTF-8. -/
def savePyPrimitive [JsonEncoder] (primitive : PyPrimitive) : Action SqliteRepository Unit :=
  let bound : Except PyException (String × String) := do
    let name ← primitive.name.encode
    let nameLower ← primitive.nameLower.encode
    return (name, nameLower)
  savePrimitiveBinding bound primitive.written

/-- `save_primitive` under a text as the name, which UTF-8 encodes. -/
def savePrimitive (primitive : Primitive) : Action SqliteRepository Unit :=
  savePrimitiveBinding (.ok (primitive.name, primitive.nameLower)) primitive

/-- `_fetch_outgoing_relata`. -/
def fetchOutgoingRelata (t : Tables) (id : UUID) : List RelatumRow :=
  t.relata.filter fun r => r.sourceId = id

def findById (db : SqliteRepository) (id : UUID) : Except PyException (Option Primitive) :=
  match db.tables.primitives.find? fun row => row.id = id with
  | none => .ok none
  | some row => do
      let primitive ← hydratePrimitive row (fetchOutgoingRelata db.tables id)
      return some primitive

def findByName (db : SqliteRepository) (name : String) : Except PyException (Option Primitive) :=
  match db.tables.primitives.find? fun row => row.nameLower = foldName name with
  | none => .ok none
  | some row => do
      let primitive ← hydratePrimitive row (fetchOutgoingRelata db.tables row.id)
      return some primitive

/-- Outside a transaction each statement commits by itself. -/
def deletePrimitive (id : UUID) : Action SqliteRepository Bool := fun db =>
  .ok (db.tables.primitives.any fun row => row.id = id)
    { db with tables := db.tables.deletePrimitiveRow id }

def clear : Action SqliteRepository ℕ := fun db =>
  .ok db.tables.primitives.length { db with tables := ⟨[], []⟩ }

/-! ## Metrics -/

/-- A transaction whose statements raise at most a database error. -/
def metricsTransaction (label : String) (statements : Action SqliteRepository Unit) :
    Action SqliteRepository Unit := do
  try
    begin
    statements
    commit
  catch exc =>
    match exc.cls with
    | .sqliteError =>
        rollback
        throw ⟨.persistenceError, s!"{label}: {exc.message}"⟩
    | _ => throw exc

def updateMetrics (id : UUID) (metrics : PrimitiveMetrics) : Action SqliteRepository Unit :=
  metricsTransaction s!"Failed to update metrics for '{id}'"
    (execute fun t => .ok (t.setMetrics id metrics))

def batchReadMetrics (db : SqliteRepository) (ids : List UUID) :
    Except PyException (OrderedDict UUID (Option PrimitiveMetrics)) :=
  .ok (OrderedDict.ofItems
    ((db.tables.primitives.filter fun row => row.id ∈ ids).map fun row =>
      (row.id, row.metricsJson)))

def batchUpdateMetrics (updates : OrderedDict UUID PrimitiveMetrics) :
    Action SqliteRepository Unit :=
  if updates.entries.isEmpty then
    pure ()
  else
    metricsTransaction "Failed to batch-update metrics"
      (updates.entries.forM fun e => execute fun t => .ok (t.setMetrics e.1 e.2))

/-! ## Subgraph resolution -/

/-- Phase 1: the ids reachable from the named primitives along transitive relata. -/
def reachableIds (t : Tables) (names : List String) : List UUID :=
  let roots := (t.primitives.filter fun row => row.nameLower ∈ names.map foldName).map
    PrimitiveRow.id
  Worklist.search t.transitiveTargets t.targets roots

def resolveSubgraph (db : SqliteRepository) (names : List String) :
    Except PyException ResolvedSubgraph :=
  if names.isEmpty then
    .ok ⟨[], [], []⟩
  else
    let ids := reachableIds db.tables names
    if ids.isEmpty then
      .ok ⟨[], [], []⟩
    else do
      let nodeRows := db.tables.primitives.filter fun row => row.id ∈ ids
      let edgeRows := db.tables.relata.filter fun r => r.sourceId ∈ ids ∧ r.targetId ∈ ids
      let edgesBySource := OrderedDict.groupBy RelatumRow.sourceId edgeRows
      let lowered := names.map foldName
      let nodes ← nodeRows.mapM fun row =>
        hydratePrimitive row ((edgesBySource.get? row.id).getD [])
      let roots := nodes.filter fun p => p.nameLower ∈ lowered
      return ⟨roots, nodes, edgeRows.map RelatumRow.toStep⟩

end Sqlite

instance [NameFolding] : Repository SqliteRepository where
  findById := Sqlite.findById
  findByName := Sqlite.findByName
  savePrimitive := Sqlite.savePrimitive
  deletePrimitive := Sqlite.deletePrimitive
  clear := Sqlite.clear
  updateMetrics := Sqlite.updateMetrics
  batchReadMetrics := Sqlite.batchReadMetrics
  batchUpdateMetrics := Sqlite.batchUpdateMetrics
  resolveSubgraph := Sqlite.resolveSubgraph

/-- A database file just created. -/
def SqliteRepository.fresh : SqliteRepository :=
  ⟨⟨[], []⟩, none⟩

end Vre
