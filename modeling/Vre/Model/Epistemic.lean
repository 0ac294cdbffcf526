import Vre.Model.Knowledge

/-! # Gaps and epistemic responses

The gap, step and response models of `vre.core.models`, and `GroundingResult` of
`vre.core.grounding.models`.
-/

namespace Vre

/-- A primitive lacks the depth required for execution. -/
structure DepthGap where
  primitive : Primitive
  requiredDepth : DepthLevel
  currentDepth : Option DepthLevel
  deriving DecidableEq, Repr

/-- A concept is not found in the graph at all. -/
structure ExistenceGap where
  primitive : Primitive
  deriving DecidableEq, Repr

/-- An edge's target is not grounded deeply enough for the edge. -/
structure RelationalGap where
  source : Primitive
  target : Primitive
  requiredDepth : DepthLevel
  currentDepth : Option DepthLevel
  deriving DecidableEq, Repr

/-- A concept is not connected to the other submitted concepts. -/
structure ReachabilityGap where
  primitive : Primitive
  deriving DecidableEq, Repr

def DepthGap.missingLevels (g : DepthGap) : List DepthLevel :=
  missingDepthLevels g.primitive.groundingLevels g.currentDepth g.requiredDepth

def RelationalGap.missingLevels (g : RelationalGap) : List DepthLevel :=
  missingDepthLevels g.target.groundingLevels g.currentDepth g.requiredDepth

inductive KnowledgeGap where
  | depth (gap : DepthGap)
  | existence (gap : ExistenceGap)
  | relational (gap : RelationalGap)
  | reachability (gap : ReachabilityGap)
  deriving DecidableEq, Repr

/-- The discriminator of gaps and of the candidates that answer them. -/
inductive GapKind where
  | depth
  | existence
  | relational
  | reachability
  deriving DecidableEq, Repr

def GapKind.value : GapKind → String
  | depth => "DEPTH"
  | existence => "EXISTENCE"
  | relational => "RELATIONAL"
  | reachability => "REACHABILITY"

def KnowledgeGap.kind : KnowledgeGap → GapKind
  | depth _ => .depth
  | existence _ => .existence
  | relational _ => .relational
  | reachability _ => .reachability

/-- The primitive a gap is about: the target of a relational gap, else its primitive. -/
def KnowledgeGap.subject : KnowledgeGap → Primitive
  | depth g => g.primitive
  | existence g => g.primitive
  | relational g => g.target
  | reachability g => g.primitive

/-- `gap_primitive_ids`. -/
def gapPrimitiveIds (gaps : List KnowledgeGap) : List UUID :=
  (gaps.map fun gap => gap.subject.id).dedup

structure EpistemicQuery where
  conceptIds : List UUID
  deriving DecidableEq, Repr

/-- A single traversal step in the epistemic pathway. -/
structure EpistemicStep where
  sourceId : UUID
  targetId : UUID
  relationType : RelationType
  sourceDepth : DepthLevel
  targetDepth : DepthLevel
  deriving DecidableEq, Repr

/-- Raw subgraph returned by repository traversal. -/
structure ResolvedSubgraph where
  roots : List Primitive
  nodes : List Primitive
  edges : List EpistemicStep
  deriving DecidableEq, Repr

structure EpistemicResult where
  primitives : List Primitive
  gaps : List KnowledgeGap
  pathway : List EpistemicStep
  deriving DecidableEq, Repr

structure EpistemicResponse where
  query : EpistemicQuery
  result : EpistemicResult
  deriving DecidableEq, Repr

/-- Result of a grounding check. -/
structure GroundingResult where
  grounded : Bool
  resolved : List String
  gaps : List KnowledgeGap
  trace : Option EpistemicResponse
  agentId : Option UUID
  deriving DecidableEq, Repr

def GroundingResult.getPrimitives (r : GroundingResult) : List Primitive :=
  match r.trace with
  | some trace => trace.result.primitives
  | none => []

def GroundingResult.getPathwaySteps (r : GroundingResult) : List EpistemicStep :=
  match r.trace with
  | some trace => trace.result.pathway
  | none => []

end Vre
