import Vre.Model.Depth
import Vre.Model.Errors

/-! # Primitives

Provenance, metrics, relata, depths and primitives of `vre.core.models`. Provenance is an
option because a model may have lost it after construction: the persistence boundary checks
for it. Timestamps are counted, identifiers are numbered.
-/

namespace Vre

abbrev UUID := ℕ

abbrev Timestamp := ℕ

/-- What `unicodedata.normalize("NFC", ·)` and `str.casefold` do to a name. -/
class NameFolding where
  nfc : String → String
  casefold : String → String

/-- Folding of ASCII text: it is in NFC as it stands, and casefold lowers its letters. -/
abbrev asciiFolding : NameFolding where
  nfc := fun name => name
  casefold := fun name => String.ofList (name.toList.map Char.toLower)

/-- What a call draws from outside the process: the identifiers `uuid4()` returns, in
order, and the clock. -/
structure Draw where
  uuid4 : ℕ → UUID
  now : Timestamp

/-- The text of a JSON value. -/
abbrev Json := String

/-- A Python value held in `properties` or `metadata`: a JSON value, by its text, or another, by
its repr. -/
inductive PyValue where
  | json (text : Json)
  | object (repr : String)
  deriving DecidableEq, Repr

abbrev Properties := List (String × PyValue)

inductive RelationType where
  | appliesTo
  | requires
  | constrainedBy
  | dependsOn
  | includes
  deriving DecidableEq, Repr

def RelationType.value : RelationType → String
  | appliesTo => "APPLIES_TO"
  | requires => "REQUIRES"
  | constrainedBy => "CONSTRAINED_BY"
  | dependsOn => "DEPENDS_ON"
  | includes => "INCLUDES"

/-- `TRANSITIVE_RELATION_TYPES`. -/
def transitiveRelationTypes : List RelationType :=
  [.requires, .constrainedBy, .dependsOn]

inductive ProvenanceSource where
  | authored
  | learned
  | synthetic
  deriving DecidableEq, Repr

structure Provenance where
  source : ProvenanceSource
  createdAt : Timestamp
  updatedAt : Timestamp
  detail : Option String
  deriving DecidableEq, Repr

/-- Aggregate usage counters of a primitive. -/
structure PrimitiveMetrics where
  lastGrounded : Option Timestamp
  lastFailed : Option Timestamp
  groundingCount : ℤ
  failureCount : ℤ
  deriving DecidableEq, Repr

/-- `PrimitiveMetrics()`. -/
def PrimitiveMetrics.new : PrimitiveMetrics :=
  ⟨none, none, 0, 0⟩

/-- Directional, typed, depth-aware relationship. -/
structure Relatum where
  relationType : RelationType
  targetId : UUID
  targetDepth : DepthLevel
  metadata : Properties
  provenance : Option Provenance
  deriving DecidableEq, Repr

/-- Knowledge at a specific depth level. -/
structure Depth where
  level : DepthLevel
  properties : Properties
  relata : List Relatum
  provenance : Option Provenance
  deriving DecidableEq, Repr

/-- A conceptual primitive in the epistemic graph. -/
structure Primitive where
  id : UUID
  name : String
  depths : List Depth
  provenance : Option Provenance
  metrics : Option PrimitiveMetrics
  deriving DecidableEq, Repr

/-! ## Names -/

/-- The key by which names are compared: NFC, then casefold. -/
def foldName [NameFolding] (name : String) : String :=
  NameFolding.casefold (NameFolding.nfc name)

def Primitive.nameLower [NameFolding] (p : Primitive) : String :=
  foldName p.name

/-! ## The vacuity floor -/

/-- No properties and no relata. -/
def Depth.isEmpty (d : Depth) : Bool :=
  d.properties.isEmpty && d.relata.isEmpty

/-- Whether a depth counts toward grounding: D0 always does, a deeper one if it is not
empty. -/
def Depth.grounds (d : Depth) : Bool :=
  d.level = .existence || !d.isEmpty

def Primitive.groundingLevels (p : Primitive) : Finset DepthLevel :=
  ((p.depths.filter Depth.grounds).map Depth.level).toFinset

def Primitive.contiguousMaxDepth (p : Primitive) : Option DepthLevel :=
  contiguousMax p.groundingLevels

/-! ## Provenance checks -/

def Relatum.validateProvenance (r : Relatum) (context : String) : Except PyException Unit :=
  match r.provenance with
  | none => raise .provenanceError
      s!"{context}relatum {r.relationType.value} → {r.targetId} is missing provenance"
  | some _ => .ok ()

def Depth.validateProvenance (d : Depth) (context : String) : Except PyException Unit :=
  match d.provenance with
  | none => raise .provenanceError
      s!"{context}depth D{d.level.value} ({d.level.name}) is missing provenance"
  | some _ => d.relata.forM fun r => r.validateProvenance s!"{context}depth D{d.level.value} "

def Primitive.validateProvenance (p : Primitive) : Except PyException Unit :=
  match p.provenance with
  | none => raise .provenanceError s!"Primitive '{p.name}' is missing provenance"
  | some _ => p.depths.forM fun d => d.validateProvenance s!"Primitive '{p.name}' "

end Vre
