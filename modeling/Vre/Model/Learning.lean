import Mathlib.Data.Finset.Card
import Mathlib.Data.Finset.Lattice.Basic
import Mathlib.Data.List.Sort
import Vre.Model.Repository

/-! # Learning

Candidates (`vre.learning.models`), templates (`vre.learning.templates`) and the learning
engine (`vre.learning.engine`), which validates a candidate fill and persists it.
-/

namespace Vre

/-! ## Candidates -/

/-- A depth level proposed during learning. -/
structure ProposedDepth where
  level : DepthLevel
  properties : Properties
  deriving DecidableEq, Repr

structure ExistenceCandidate where
  name : String
  d1 : Option ProposedDepth
  deriving DecidableEq, Repr

structure DepthCandidate where
  newDepths : List ProposedDepth
  deriving DecidableEq, Repr

structure RelationalCandidate where
  newDepths : List ProposedDepth
  deriving DecidableEq, Repr

structure ReachabilityCandidate where
  sourceName : Option String
  targetName : Option String
  relationType : Option RelationType
  sourceDepthLevel : Option DepthLevel
  targetDepthLevel : Option DepthLevel
  deriving DecidableEq, Repr

inductive LearningCandidate where
  | existence (candidate : ExistenceCandidate)
  | depth (candidate : DepthCandidate)
  | relational (candidate : RelationalCandidate)
  | reachability (candidate : ReachabilityCandidate)
  deriving DecidableEq, Repr

def LearningCandidate.kind : LearningCandidate → GapKind
  | existence _ => .existence
  | depth _ => .depth
  | relational _ => .relational
  | reachability _ => .reachability

def ExistenceCandidate.validateForGap (c : ExistenceCandidate) (gap : KnowledgeGap) :
    Except PyException Unit :=
  if c.name ≠ gap.subject.name then
    raise .candidateValidationError
      (s!"ExistenceCandidate name '{c.name}' must match the gapped concept '{gap.subject.name}' — "
        ++ "a divergent name would create an unrelated primitive and leave the gap unclosed")
  else
    match c.d1 with
    | none => raise .candidateValidationError
        s!"ExistenceCandidate '{c.name}' is missing D1 (identity)"
    | some d1 =>
        if d1.level ≠ .identity then
          raise .candidateValidationError
            (s!"ExistenceCandidate '{c.name}' identity depth must be D1 (IDENTITY), got "
              ++ formatDepthLabel (some d1.level))
        else .ok ()

/-- The check shared by the two candidates that fill depths. -/
def validateNewDepths (label : String) (newDepths : List ProposedDepth) (gap : KnowledgeGap) :
    Except PyException Unit :=
  if newDepths.isEmpty then
    raise .candidateValidationError s!"{label} for '{gap.subject.name}' has no new depths"
  else .ok ()

def DepthCandidate.validateForGap (c : DepthCandidate) (gap : KnowledgeGap) :
    Except PyException Unit :=
  validateNewDepths "DepthCandidate" c.newDepths gap

def RelationalCandidate.validateForGap (c : RelationalCandidate) (gap : KnowledgeGap) :
    Except PyException Unit :=
  validateNewDepths "RelationalCandidate" c.newDepths gap

/-- An edge proposal with every field given. -/
structure EdgeProposal where
  sourceName : String
  targetName : String
  relationType : RelationType
  sourceDepthLevel : DepthLevel
  targetDepthLevel : DepthLevel
  deriving DecidableEq, Repr

def ReachabilityCandidate.validateForGap [NameFolding] (c : ReachabilityCandidate)
    (gap : KnowledgeGap) : Except PyException EdgeProposal :=
  match c.sourceName, c.targetName with
  | some sourceName, some targetName =>
      match c.relationType with
      | none => raise .candidateValidationError
          s!"ReachabilityCandidate for '{gap.subject.name}' is missing relation_type"
      | some relationType =>
          match c.sourceDepthLevel, c.targetDepthLevel with
          | some sourceDepth, some targetDepth =>
              if foldName sourceName ≠ gap.subject.nameLower ∧
                  foldName targetName ≠ gap.subject.nameLower then
                raise .candidateValidationError
                  (s!"ReachabilityCandidate must reference the gapped primitive "
                    ++ s!"'{gap.subject.name}' as either source or target, "
                    ++ s!"got source='{sourceName}', target='{targetName}'")
              else
                .ok ⟨sourceName, targetName, relationType, sourceDepth, targetDepth⟩
          | _, _ => raise .candidateValidationError
              (s!"ReachabilityCandidate for '{gap.subject.name}' is missing "
                ++ "source_depth_level or target_depth_level")
  | _, _ => raise .candidateValidationError
      s!"ReachabilityCandidate for '{gap.subject.name}' is missing source_name or target_name"

/-! ## Templates -/

/-- An empty slot for a level. -/
def ProposedDepth.slot (level : DepthLevel) : ProposedDepth :=
  ⟨level, []⟩

def templateForGap : KnowledgeGap → LearningCandidate
  | .existence gap => .existence ⟨gap.primitive.name, some (.slot .identity)⟩
  | .depth gap => .depth ⟨gap.missingLevels.map .slot⟩
  | .relational gap => .relational ⟨gap.missingLevels.map .slot⟩
  | .reachability _ => .reachability ⟨none, none, none, none, none⟩

namespace LearningEngine

/-! ## Validation -/

def makeProvenance (draw : Draw) (source : ProvenanceSource) : Provenance :=
  ⟨source, draw.now, draw.now, none⟩

def toDepth (proposed : ProposedDepth) (provenance : Provenance) : Depth :=
  ⟨proposed.level, proposed.properties, [], some provenance⟩

def raiseIfResolved (name : String) (liveCurrent : Option DepthLevel) (required : DepthLevel) :
    Except PyException Unit :=
  if Meets liveCurrent required then
    raise .gapResolvedError
      (s!"Gap for '{name}' is already resolved: live depth {formatDepthLabel liveCurrent} "
        ++ s!"satisfies required {formatDepthLabel (some required)} — nothing to learn")
  else .ok ()

/-- `repr` of a list of labels. -/
def reprLabels (levels : List DepthLevel) : String :=
  "[" ++ ", ".intercalate (levels.map fun level => s!"'{formatDepthLabel (some level)}'") ++ "]"

/-- `max(levels)`, where D0 is the least level. -/
def highestLevel (levels : List DepthLevel) : DepthLevel :=
  levels.foldl max .existence

/-- The scope and holes-only checks of one proposed level. -/
def validateLevel (current : Option DepthLevel) (required : DepthLevel)
    (presentLevels : Finset DepthLevel) (subject : String) (level : DepthLevel) :
    Except PyException Unit :=
  if required < level then
    raise .candidateValidationError
      (s!"{subject} proposes {formatDepthLabel (some level)} above the depth the gap requires "
        ++ s!"({formatDepthLabel (some required)}) — learning may not escalate scope")
  else if level ∈ presentLevels then
    raise .candidateValidationError
      (s!"{subject} proposes {formatDepthLabel (some level)} which is already grounded; fill only "
        ++ s!"the missing levels {reprLabels (missingDepthLevels presentLevels current required)}")
  else .ok ()

/-- `_validate_depth_fill`. -/
def validateDepthFill (newDepths : List ProposedDepth) (current : Option DepthLevel)
    (required : DepthLevel) (presentLevels : Finset DepthLevel) (subject : String) :
    Except PyException Unit := do
  if newDepths.isEmpty then
    raise .candidateValidationError s!"{subject} has no new depths"
  let proposedLevels := newDepths.map ProposedDepth.level
  let levels := proposedLevels.toFinset
  if proposedLevels.length ≠ levels.card then
    raise .candidateValidationError
      (s!"{subject} proposes duplicate depth levels "
        ++ s!"({reprLabels (proposedLevels.insertionSort (· ≤ ·))}); "
        ++ "each level may appear at most once")
  newDepths.forM fun proposed =>
    if proposed.properties.isEmpty then
      raise .candidateValidationError
        (s!"{subject} proposes an empty {formatDepthLabel (some proposed.level)} — "
          ++ "a fill must carry content")
    else .ok ()
  (DepthLevel.sorted.filter (· ∈ levels)).forM
    (validateLevel current required presentLevels subject)
  let highest := highestLevel proposedLevels
  if ¬ Meets (contiguousMax (presentLevels ∪ levels)) highest then
    raise .candidateValidationError
      (s!"{subject} must form a contiguous chain through {formatDepthLabel (some highest)}; "
        ++ s!"fill the holes: {reprLabels (missingDepthLevels presentLevels current required)}")

/-! ## Persistence -/

section Persist

variable {σ : Type} [Repository σ]

def resolveName (name : String) : Action σ Primitive := do
  match ← Action.read fun repo => Repository.findByName repo name with
  | none => Action.lift (raise .candidateValidationError
      s!"Cannot resolve '{name}' to a primitive ID")
  | some primitive => return primitive

/-- `_resolve_name_to_id`. -/
def resolveNameToId (name : String) : Action σ UUID := do
  let primitive ← resolveName name
  return primitive.id

/-- `_persist_existence`. `validate_for_gap` has ruled out an absent D1. -/
def persistExistence (draw : Draw) (candidate : ExistenceCandidate) (provenance : Provenance) :
    Action σ Unit := do
  match ← Action.read fun repo => Repository.findByName repo candidate.name with
  | some _ => Action.lift (raise .gapResolvedError
      (s!"Concept '{candidate.name}' already exists — the existence gap is already resolved; "
        ++ "nothing to learn"))
  | none =>
      Action.lift (validateDepthFill candidate.d1.toList (some .existence) .identity
        {.existence} s!"ExistenceCandidate for '{candidate.name}'")
      let d0 : Depth := ⟨.existence, [("exists", .json "true")], [], some provenance⟩
      let d1 := candidate.d1.toList.map fun proposed => toDepth proposed provenance
      Repository.savePrimitive
        ⟨draw.uuid4 0, candidate.name, d0 :: d1, some provenance, none⟩

/-- The depths `_append_depths` leaves: what stood at a proposed level is replaced. -/
def appendedDepths (depths : List Depth) (newDepths : List ProposedDepth)
    (provenance : Provenance) : List Depth :=
  let proposedLevels := newDepths.map ProposedDepth.level
  let kept := depths.filter fun d => d.level ∉ proposedLevels
  (kept ++ newDepths.map fun proposed => toDepth proposed provenance).insertionSort
    fun a b => a.level ≤ b.level

/-- `_append_depths`. -/
def appendDepths (primitive : Primitive) (newDepths : List ProposedDepth)
    (provenance : Provenance) : Action σ Unit :=
  Repository.savePrimitive
    { primitive with depths := appendedDepths primitive.depths newDepths provenance }

/-- `_persist_depth_fill`. -/
def persistDepthFill (primitiveId : UUID) (snapshotName : String) (requiredDepth : DepthLevel)
    (newDepths : List ProposedDepth) (provenance : Provenance) (label : String) :
    Action σ Unit := do
  match ← Action.read fun repo => Repository.findById repo primitiveId with
  | none => Action.lift (raise .candidateValidationError
      s!"Primitive '{snapshotName}' ({primitiveId}) not found")
  | some existing =>
      let liveCurrent := existing.contiguousMaxDepth
      Action.lift (raiseIfResolved existing.name liveCurrent requiredDepth)
      Action.lift (validateDepthFill newDepths liveCurrent requiredDepth
        existing.groundingLevels s!"{label} for '{existing.name}'")
      appendDepths existing newDepths provenance

def persistDepth (gap : DepthGap) (candidate : DepthCandidate) (provenance : Provenance) :
    Action σ Unit :=
  persistDepthFill gap.primitive.id gap.primitive.name gap.requiredDepth candidate.newDepths
    provenance "DepthCandidate"

def persistRelational (gap : RelationalGap) (candidate : RelationalCandidate)
    (provenance : Provenance) : Action σ Unit :=
  persistDepthFill gap.target.id gap.target.name gap.requiredDepth candidate.newDepths
    provenance "RelationalCandidate"

/-- The depth an endpoint of a proposed edge must be contiguously grounded to. -/
def requireDepth (role : String) (primitive : Primitive) (required : DepthLevel) :
    Except PyException Unit :=
  if ¬ Meets primitive.contiguousMaxDepth required then
    raise .candidateValidationError
      (s!"{role} '{primitive.name}' requires {formatDepthLabel (some required)} but is only "
        ++ s!"contiguously grounded to {formatDepthLabel primitive.contiguousMaxDepth}. "
        ++ "Fill the DepthGap first.")
  else .ok ()

/-- Append a relatum to the first depth at a level. -/
def attachRelatum (level : DepthLevel) (relatum : Relatum) : List Depth → List Depth
  | [] => []
  | d :: rest =>
      if d.level = level then { d with relata := d.relata ++ [relatum] } :: rest
      else d :: attachRelatum level relatum rest

def findEndpoint (role name : String) (id : UUID) : Action σ Primitive := do
  match ← Action.read fun repo => Repository.findById repo id with
  | none => Action.lift (raise .candidateValidationError s!"{role} '{name}' ({id}) not found")
  | some primitive => return primitive

/-- `_persist_reachability`: resolve names, check depths, and place an edge. -/
def persistReachability (edge : EdgeProposal) (provenance : Provenance) : Action σ Unit := do
  let sourceId ← resolveNameToId edge.sourceName
  let targetId ← resolveNameToId edge.targetName
  let source ← findEndpoint "Source" edge.sourceName sourceId
  let target ← findEndpoint "Target" edge.targetName targetId
  Action.lift (requireDepth "Source" source edge.sourceDepthLevel)
  Action.lift (requireDepth "Target" target edge.targetDepthLevel)
  let newRelatum : Relatum :=
    ⟨edge.relationType, targetId, edge.targetDepthLevel, [], some provenance⟩
  let depths := (attachRelatum edge.sourceDepthLevel newRelatum source.depths).insertionSort
    fun a b => a.level ≤ b.level
  Repository.savePrimitive { source with depths := depths }

/-! ## Entry points -/

variable [NameFolding]

/-- `learn_gap`: validate a filled candidate against its gap, then persist it. -/
def learnGap (draw : Draw) (gap : KnowledgeGap) (candidate : LearningCandidate) :
    Action σ Unit := do
  if gap.kind ≠ candidate.kind then
    Action.lift (raise .candidateValidationError
      (s!"Candidate kind '{candidate.kind.value}' does not match gap kind "
        ++ s!"'{gap.kind.value}'"))
  let provenance := makeProvenance draw .learned
  match gap, candidate with
  | .existence _, .existence c =>
      Action.lift (c.validateForGap gap)
      persistExistence draw c provenance
  | .depth g, .depth c =>
      Action.lift (c.validateForGap gap)
      persistDepth g c provenance
  | .relational g, .relational c =>
      Action.lift (c.validateForGap gap)
      persistRelational g c provenance
  | .reachability _, .reachability c =>
      let edge ← Action.lift (c.validateForGap gap)
      persistReachability edge provenance
  | _, _ =>
      Action.lift (raise .candidateValidationError
        (s!"No persistence path for gap '{gap.kind.value}' with candidate "
          ++ s!"'{candidate.kind.value}'"))

/-- The depth gap that one endpoint of a proposed edge still owes, if any. -/
def prerequisite (repo : σ) (name : String) (required : DepthLevel) :
    Except PyException (List DepthGap) := do
  match ← Repository.findByName repo name with
  | none => raise .candidateValidationError s!"Cannot resolve '{name}' to a primitive ID"
  | some primitive =>
      let contiguous := primitive.contiguousMaxDepth
      return if Meets contiguous required then [] else [⟨primitive, required, contiguous⟩]

/-- `reachability_prerequisites`. -/
def reachabilityPrerequisites (repo : σ) (gap : ReachabilityGap)
    (candidate : ReachabilityCandidate) : Except PyException (List DepthGap) := do
  let edge ← candidate.validateForGap (.reachability gap)
  let source ← prerequisite repo edge.sourceName edge.sourceDepthLevel
  let target ← prerequisite repo edge.targetName edge.targetDepthLevel
  return source ++ target

end Persist

end LearningEngine

end Vre
