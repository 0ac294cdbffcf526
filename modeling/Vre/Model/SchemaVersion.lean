import Mathlib.Algebra.Group.Int.Defs
import Vre.Model.Neo4j
import Vre.Model.Sqlite

/-! # The schema version of a store

`reconcile_schema_version` of `vre.core.backends.repository`, and what the constructors of the
two backends do with the version that marks a store.
-/

namespace Vre

/-- What a build may have as `CURRENT_SCHEMA_VERSION`: `PRAGMA user_version` keeps 32 bits, and
0 is the version of a store that no build has stamped. -/
abbrev SchemaVersion := {version : ℤ // 0 < version ∧ version < 2 ^ 31}

/-- The `CURRENT_SCHEMA_VERSION` of this build. -/
def currentSchemaVersion : SchemaVersion :=
  ⟨1, by decide⟩

structure SchemaVersionError where
  message : String
  deriving DecidableEq, Repr

/-- `reconcile_schema_version`: both directions are refused. -/
def reconcileSchemaVersion (disk current : ℤ) : Except SchemaVersionError Unit :=
  if disk > current then
    .error ⟨s!"On-disk schema version {disk} is newer than this build of VRE "
      ++ s!"supports ({current}). Upgrade VRE to read this graph."⟩
  else if disk < current then
    .error ⟨s!"On-disk schema version {disk} predates this build of VRE "
      ++ s!"({current}) and no migration path is implemented yet."⟩
  else
    .ok ()

/-! ## SQLite -/

/-- A database file: its `PRAGMA user_version`, and what a connection to it works on. -/
structure SqliteFile where
  userVersion : ℤ
  repository : SqliteRepository

namespace SqliteFile

/-- A file that did not exist: `CREATE TABLE IF NOT EXISTS` has made the tables. -/
def new : SqliteFile :=
  ⟨0, .fresh⟩

/-- The rest of `__init__`, once the version has been read. -/
def initFrom (current : SchemaVersion) (disk : ℤ) (file : SqliteFile) :
    Except SchemaVersionError Unit × SqliteFile :=
  if disk = 0 then
    (.ok (), { file with userVersion := current })
  else
    (reconcileSchemaVersion disk current, file)

/-- `__init__` of a build, with no other connection at work. -/
def init (current : SchemaVersion) (file : SqliteFile) :
    Except SchemaVersionError Unit × SqliteFile :=
  file.initFrom current file.userVersion

end SqliteFile

/-! ## Neo4j -/

/-- A graph database: the `schema_version` of its `:VREMeta` node, if it has one, and its
primitives. -/
structure Neo4jServer where
  schemaVersion : Option ℤ
  repository : Neo4jRepository

namespace Neo4jServer

def new : Neo4jServer :=
  ⟨none, .fresh⟩

/-- `_ensure_schema_version`: the transaction merges the marker and returns its version. -/
def ensureSchemaVersion (current : SchemaVersion) (server : Neo4jServer) :
    Except SchemaVersionError Unit × Neo4jServer :=
  let disk := server.schemaVersion.getD current
  (reconcileSchemaVersion disk current, { server with schemaVersion := some disk })

end Neo4jServer

end Vre
