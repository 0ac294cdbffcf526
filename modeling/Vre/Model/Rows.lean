import Vre.Model.Epistemic

/-! # Stored records

The record of a primitive and of a relatum as both backends write them, and the
serialization helpers the two backends share: `_depths_to_json`, the `relata_params` of
`save_primitive`, and `_hydrate_primitive`. A JSON column is modelled by the value it
encodes.
-/

namespace Vre

/-- An entry of the `depths_json` column. -/
structure DepthEntry where
  level : DepthLevel
  properties : List (String × Json)
  provenance : Option Provenance
  deriving DecidableEq, Repr

/-- A record of the `primitives` table, or a `Primitive` node. -/
structure PrimitiveRow where
  id : UUID
  name : String
  nameLower : String
  depthsJson : List DepthEntry
  provenanceJson : Option Provenance
  metricsJson : Option PrimitiveMetrics
  deriving DecidableEq, Repr

/-- A record of the `relata` table, or a relationship between two `Primitive` nodes. -/
structure RelatumRow where
  sourceId : UUID
  targetId : UUID
  relType : RelationType
  sourceDepth : DepthLevel
  targetDepth : DepthLevel
  metadataJson : List (String × Json)
  provenanceJson : Option Provenance
  deriving DecidableEq, Repr

/-! ## Writing -/

/-- `json.dumps` of one value of a dictionary. A value that it writes as another comes here as it
is written. -/
def dumpValue : String × PyValue → Except PyException (String × Json)
  | (key, .json text) => .ok (key, text)
  | (_, .object repr) => raise .typeError s!"Object {repr} is not JSON serializable"

/-- `json.dumps` of a `properties` or `metadata` dictionary. -/
def jsonDumps (properties : Properties) : Except PyException (List (String × Json)) :=
  properties.mapM dumpValue

def depthEntry (depth : Depth) : Except PyException DepthEntry := do
  let properties ← jsonDumps depth.properties
  return ⟨depth.level, properties, depth.provenance⟩

/-- `_depths_to_json`. -/
def depthsToJson (depths : List Depth) : Except PyException (List DepthEntry) :=
  depths.mapM depthEntry

/-- The parameters of one relatum of `primitive` at `depth`. -/
def relatumParams (primitive : Primitive) (depth : Depth) (relatum : Relatum) :
    Except PyException RelatumRow := do
  let metadata ← jsonDumps relatum.metadata
  return ⟨primitive.id, relatum.targetId, relatum.relationType, depth.level,
    relatum.targetDepth, metadata, relatum.provenance⟩

/-- The `relata_params` list: every relatum of every depth, in order. -/
def relataParams (primitive : Primitive) : Except PyException (List RelatumRow) := do
  let params ← primitive.depths.mapM fun depth =>
    depth.relata.mapM (relatumParams primitive depth)
  return params.flatten

/-! ## Hydration -/

/-- `json.loads` of a `properties` or `metadata` object. -/
def jsonLoads (object : List (String × Json)) : Properties :=
  object.map fun e => (e.1, .json e.2)

/-- The depths of a primitive under construction, keyed by level. -/
abbrev DepthsByLevel := DepthLevel → Option Depth

/-- Read one entry of `depths_json`: a later record at a level replaces an earlier one. -/
def hydrateDepth (name : String) (depthsByLevel : DepthsByLevel) (rd : DepthEntry) :
    Except PyException DepthsByLevel :=
  match rd.provenance with
  | none => raise .hydrationError (s!"Depth D{rd.level.value} of '{name}' is missing provenance — "
      ++ "provenance is required (no legacy/unstamped graphs)")
  | some provenance =>
      .ok (Function.update depthsByLevel rd.level
        (some ⟨rd.level, jsonLoads rd.properties, [], some provenance⟩))

/-- Attach one relatum to the depth it lives at; one at an absent level is dropped. -/
def hydrateRelatum (name : String) (depthsByLevel : DepthsByLevel) (rel : RelatumRow) :
    Except PyException DepthsByLevel :=
  match rel.provenanceJson with
  | none => raise .hydrationError
      (s!"Relatum {rel.relType.value} on '{name}' is missing provenance — "
        ++ "provenance is required (no legacy/unstamped graphs)")
  | some provenance =>
      match depthsByLevel rel.sourceDepth with
      | none => .ok depthsByLevel
      | some depth =>
          let relatum : Relatum := ⟨rel.relType, rel.targetId, rel.targetDepth,
            jsonLoads rel.metadataJson, some provenance⟩
          .ok (Function.update depthsByLevel rel.sourceDepth
            (some { depth with relata := depth.relata ++ [relatum] }))

/-- `_hydrate_primitive`. -/
def hydratePrimitive (row : PrimitiveRow) (relata : List RelatumRow) :
    Except PyException Primitive := do
  let depthsByLevel ← row.depthsJson.foldlM (hydrateDepth row.name) fun _ => none
  let depthsByLevel ← relata.foldlM (hydrateRelatum row.name) depthsByLevel
  let sortedDepths := DepthLevel.sorted.filterMap depthsByLevel
  match row.provenanceJson with
  | none => raise .hydrationError (s!"Primitive '{row.name}' is missing provenance — "
      ++ "provenance is required (no legacy/unstamped graphs)")
  | some provenance =>
      return ⟨row.id, row.name, sortedDepths, some provenance, row.metricsJson⟩

/-- The step a stored relatum stands for in a resolved subgraph. -/
def RelatumRow.toStep (rel : RelatumRow) : EpistemicStep :=
  ⟨rel.sourceId, rel.targetId, rel.relType, rel.sourceDepth, rel.targetDepth⟩

end Vre
