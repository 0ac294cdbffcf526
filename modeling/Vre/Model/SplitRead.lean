import Vre.Model.Sqlite

/-! # A subgraph read in three statements

`resolve_subgraph` of the SQLite backend runs three `SELECT`s on a connection that commits each
statement by itself. Other connections may commit between two of them, and each statement sees
what is committed when it runs.
-/

namespace Vre

/-- A connection to a file that others write: the tables as the first and the second statement
of `resolve_subgraph` see them, and the file as its third statement and every other call do. -/
structure SplitRead where
  reachable : Tables
  rows : Tables
  file : SqliteRepository
  deriving DecidableEq, Repr

namespace SplitRead

def onFile {α : Type} (act : Action SqliteRepository α) : Action SplitRead α := fun reader =>
  match act reader.file with
  | .ok a file => .ok a { reader with file := file }
  | .error e file => .error e { reader with file := file }

variable [NameFolding]

/-- `resolve_subgraph`, each phase on the tables that its statement sees. -/
def resolveSubgraph (reader : SplitRead) (names : List String) :
    Except PyException ResolvedSubgraph :=
  if names.isEmpty then
    .ok ⟨[], [], []⟩
  else
    let ids := Sqlite.reachableIds reader.reachable names
    if ids.isEmpty then
      .ok ⟨[], [], []⟩
    else do
      let nodeRows := reader.rows.primitives.filter fun row => row.id ∈ ids
      let edgeRows := reader.file.tables.relata.filter fun r =>
        r.sourceId ∈ ids ∧ r.targetId ∈ ids
      let edgesBySource := OrderedDict.groupBy RelatumRow.sourceId edgeRows
      let lowered := names.map foldName
      let nodes ← nodeRows.mapM fun row =>
        hydratePrimitive row ((edgesBySource.get? row.id).getD [])
      let roots := nodes.filter fun p => p.nameLower ∈ lowered
      return ⟨roots, nodes, edgeRows.map RelatumRow.toStep⟩

instance : Repository SplitRead where
  findById reader := Sqlite.findById reader.file
  findByName reader := Sqlite.findByName reader.file
  savePrimitive primitive := onFile (Sqlite.savePrimitive primitive)
  deletePrimitive id := onFile (Sqlite.deletePrimitive id)
  clear := onFile Sqlite.clear
  updateMetrics id metrics := onFile (Sqlite.updateMetrics id metrics)
  batchReadMetrics reader := Sqlite.batchReadMetrics reader.file
  batchUpdateMetrics updates := onFile (Sqlite.batchUpdateMetrics updates)
  resolveSubgraph := resolveSubgraph

end SplitRead

end Vre
