import Vre.Library.Worklist
import Vre.Model.Repository
import Vre.Model.Rows

/-! # The Neo4j backend

`Neo4jRepository` of `vre.core.backends.neo4j`. A node and a relationship carry the same
properties as the records of the SQLite tables. The statements below carry the semantics of
the Cypher they are written in: uniqueness constraints on `id` and `name_lower`, a `MATCH`
without a match that makes what follows do nothing, and a managed write that leaves no
effect when it raises.
-/

namespace Vre

structure Neo4jRepository where
  nodes : List PrimitiveRow
  relationships : List RelatumRow
  deriving DecidableEq, Repr

namespace Neo4j

/-- `session.execute_write`. -/
def executeWrite {α : Type} (tx : Action Neo4jRepository α) : Action Neo4jRepository α :=
  fun db =>
    match tx db with
    | .ok a db' => .ok a db'
    | .error e _ => .error e db

/-- `MATCH (p:Primitive {id: $id})` finds a node. -/
def matchesNode (db : Neo4jRepository) (id : UUID) : Bool :=
  db.nodes.any fun node => node.id = id

/-! ## Statements -/

/-- `MERGE (p:Primitive {id: $id}) SET …`, with both uniqueness constraints. -/
def mergeNode (row : PrimitiveRow) : Action Neo4jRepository Unit := fun db =>
  if db.nodes.any fun other => other.id ≠ row.id ∧ other.nameLower = row.nameLower then
    .error ⟨.constraintError, "Node already exists with label Primitive and property name_lower"⟩ db
  else if matchesNode db row.id then
    .ok () { db with nodes := db.nodes.map fun r => if r.id = row.id then row else r }
  else
    .ok () { db with nodes := db.nodes ++ [row] }

/-- `MATCH (p:Primitive {id: $id})-[r:rt]->() DELETE r`. -/
def deleteRelationships (id : UUID) (relType : RelationType) : Action Neo4jRepository Unit :=
  fun db =>
    .ok () { db with
      relationships := db.relationships.filter fun r => ¬ (r.sourceId = id ∧ r.relType = relType) }

/-- `MATCH (s …) MATCH (t …) CREATE (s)-[…]->(t)`. -/
def createRelationship (rp : RelatumRow) : Action Neo4jRepository Unit := fun db =>
  if matchesNode db rp.sourceId ∧ matchesNode db rp.targetId then
    .ok () { db with relationships := db.relationships ++ [rp] }
  else
    .ok () db

/-! ## Cycle detection -/

/-- The ends of the transitive relationships that leave `id`. -/
def transitiveTargets (db : Neo4jRepository) (id : UUID) : List UUID :=
  (db.relationships.filter fun r =>
    r.sourceId = id ∧ r.relType ∈ transitiveRelationTypes).map RelatumRow.targetId

def targets (db : Neo4jRepository) : List UUID :=
  db.relationships.map RelatumRow.targetId

/-- `would_cycle`: both nodes match, and a path of one or more transitive relationships
leads from the target back to the source. -/
def wouldCycle (db : Neo4jRepository) (sourceId targetId : UUID) : Bool :=
  matchesNode db targetId && matchesNode db sourceId &&
    decide (sourceId ∈
      Worklist.search (transitiveTargets db) (targets db) (transitiveTargets db targetId))

/-- `_check_transitive_cycles`. -/
def checkTransitiveCycles (sourceId : UUID) (db : Neo4jRepository) :
    List RelatumRow → Except PyException Unit
  | [] => .ok ()
  | rp :: rest =>
      if rp.relType ∉ transitiveRelationTypes then
        checkTransitiveCycles sourceId db rest
      else if rp.targetId = sourceId then
        raise .cyclicRelationshipError s!"Self-referential {rp.relType.value} on {sourceId}"
      else if wouldCycle db sourceId rp.targetId then
        raise .cyclicRelationshipError
          s!"{rp.relType.value} from {sourceId} to {rp.targetId} would create a cycle"
      else
        checkTransitiveCycles sourceId db rest

/-! ## Primitives -/

/-- Every member of `RelationType`. -/
def relTypes : List RelationType :=
  [.appliesTo, .requires, .constrainedBy, .dependsOn, .includes]

/-- The statements of the write transaction of `save_primitive`. -/
def writePrimitive (row : PrimitiveRow) (relataParams : List RelatumRow) :
    Action Neo4jRepository Unit := do
  mergeNode row
  relTypes.forM fun rt => deleteRelationships row.id rt
  Action.read fun db => checkTransitiveCycles row.id db relataParams
  relataParams.forM createRelationship

variable [NameFolding]

def savePrimitive (primitive : Primitive) : Action Neo4jRepository Unit := do
  Action.lift primitive.validateProvenance
  let depthsJson ← Action.lift (depthsToJson primitive.depths)
  let relataParams ← Action.lift (relataParams primitive)
  let row : PrimitiveRow := ⟨primitive.id, primitive.name, primitive.nameLower, depthsJson,
    primitive.provenance, primitive.metrics⟩
  try
    executeWrite (writePrimitive row relataParams)
  catch exc =>
    match exc.cls with
    | .constraintError => throw ⟨.persistenceError, s!"Failed to save primitive "
        ++ s!"'{primitive.name}': a primitive with that name already exists (case-insensitive)"⟩
    | _ => throw exc

/-- The relationships `OPTIONAL MATCH (p)-[r]->(t:Primitive)` collects. -/
def outgoing (db : Neo4jRepository) (id : UUID) : List RelatumRow :=
  db.relationships.filter fun r => r.sourceId = id

def findById (db : Neo4jRepository) (id : UUID) : Except PyException (Option Primitive) :=
  match db.nodes.find? fun node => node.id = id with
  | none => .ok none
  | some node => do
      let primitive ← hydratePrimitive node (outgoing db id)
      return some primitive

/-- Several nodes under one folded name are a fault of the graph. -/
def findByName (db : Neo4jRepository) (name : String) : Except PyException (Option Primitive) :=
  match db.nodes.filter fun node => node.nameLower = foldName name with
  | [] => .ok none
  | [node] => do
      let primitive ← hydratePrimitive node (outgoing db node.id)
      return some primitive
  | records => raise .graphError
      (s!"Multiple primitives ({records.length}) share the case-insensitive name '{name}' — "
        ++ "graph integrity violation")

/-- `DETACH DELETE` takes the relationships of both directions along. -/
def deletePrimitive (id : UUID) : Action Neo4jRepository Bool := fun db =>
  .ok (matchesNode db id)
    ⟨db.nodes.filter fun node => node.id ≠ id,
      db.relationships.filter fun r => r.sourceId ≠ id ∧ r.targetId ≠ id⟩

def clear : Action Neo4jRepository ℕ := fun db =>
  .ok db.nodes.length ⟨[], []⟩

/-! ## Metrics -/

/-- `MATCH (p:Primitive {id: $id}) SET p.metrics_json = $metrics_json`. -/
def setMetrics (id : UUID) (metrics : PrimitiveMetrics) (db : Neo4jRepository) :
    Neo4jRepository :=
  { db with
    nodes := db.nodes.map fun node =>
      if node.id = id then { node with metricsJson := some metrics } else node }

def updateMetrics (id : UUID) (metrics : PrimitiveMetrics) : Action Neo4jRepository Unit :=
  fun db => .ok () (setMetrics id metrics db)

def batchReadMetrics (db : Neo4jRepository) (ids : List UUID) :
    Except PyException (OrderedDict UUID (Option PrimitiveMetrics)) :=
  .ok (OrderedDict.ofItems
    ((db.nodes.filter fun node => node.id ∈ ids).map fun node => (node.id, node.metricsJson)))

def batchUpdateMetrics (updates : OrderedDict UUID PrimitiveMetrics) :
    Action Neo4jRepository Unit := fun db =>
  .ok () (updates.entries.foldl (fun db e => setMetrics e.1 e.2 db) db)

/-! ## Subgraph resolution -/

/-- One query: the named roots, what transitive paths reach from them, and every
relationship between two of the collected nodes. -/
def resolveSubgraph (db : Neo4jRepository) (names : List String) :
    Except PyException ResolvedSubgraph :=
  let rootRows := db.nodes.filter fun node => node.nameLower ∈ names.map foldName
  if rootRows.isEmpty then
    .ok ⟨[], [], []⟩
  else do
    let ids := Worklist.search (transitiveTargets db) (targets db)
      (rootRows.map PrimitiveRow.id)
    let nodeRows := db.nodes.filter fun node => node.id ∈ ids
    let edgeRows := nodeRows.flatMap fun src =>
      db.relationships.filter fun r => r.sourceId = src.id ∧ r.targetId ∈ ids
    let edgesBySource := OrderedDict.groupBy RelatumRow.sourceId edgeRows
    let roots ← rootRows.mapM fun row =>
      hydratePrimitive row ((edgesBySource.get? row.id).getD [])
    let nodes ← nodeRows.mapM fun row =>
      hydratePrimitive row ((edgesBySource.get? row.id).getD [])
    return ⟨roots, nodes, edgeRows.map RelatumRow.toStep⟩

end Neo4j

instance [NameFolding] : Repository Neo4jRepository where
  findById := Neo4j.findById
  findByName := Neo4j.findByName
  savePrimitive := Neo4j.savePrimitive
  deletePrimitive := Neo4j.deletePrimitive
  clear := Neo4j.clear
  updateMetrics := Neo4j.updateMetrics
  batchReadMetrics := Neo4j.batchReadMetrics
  batchUpdateMetrics := Neo4j.batchUpdateMetrics
  resolveSubgraph := Neo4j.resolveSubgraph

/-- A database that holds no primitive. -/
def Neo4jRepository.fresh : Neo4jRepository :=
  ⟨[], []⟩

end Vre
