import Vre.Library.Loops
import Vre.Model.Interface
import Vre.Model.Learning
import Vre.Model.Rows

/-! # The loops of the documentation

The reference loop by which an integrator drives `check`, `template_for_gap` and `learn_gap`:
ground, fill the first gap, persist it, and ground again. Reachability gaps, whose templates
have no slots, are left open. An edge is placed by a loop of its own, which first fills what
`reachability_prerequisites` returns.
-/

namespace Vre

/-- What an integrator puts into one slot: a JSON object with at least one item. -/
structure SlotContent where
  text : List (String × Json)
  nonempty : text ≠ []

def SlotContent.properties (content : SlotContent) : Properties :=
  jsonLoads content.text

def ProposedDepth.fill (content : DepthLevel → SlotContent) (slot : ProposedDepth) :
    ProposedDepth :=
  { slot with properties := (content slot.level).properties }

/-- Fill every slot of a template. -/
def LearningCandidate.fill (content : DepthLevel → SlotContent) :
    LearningCandidate → LearningCandidate
  | existence c => .existence { c with d1 := c.d1.map (ProposedDepth.fill content) }
  | depth c => .depth ⟨c.newDepths.map (ProposedDepth.fill content)⟩
  | relational c => .relational ⟨c.newDepths.map (ProposedDepth.fill content)⟩
  | reachability c => .reachability c

/-- One iteration of the loop: what its two calls draw, and how its gap is filled. -/
structure Iteration where
  checking : Draw
  learning : Draw
  content : KnowledgeGap → DepthLevel → SlotContent

/-- The first gap that has slots to fill. -/
def firstOpenGap (gaps : List KnowledgeGap) : Option KnowledgeGap :=
  gaps.find? fun gap => gap.kind ≠ .reachability

/-- `except GapResolvedError: pass`. -/
def reground {ρ : Type} (learn : Action ρ Unit) : Action ρ Unit := do
  try
    learn
  catch exc =>
    match exc.cls with
    | .gapResolvedError => pure ()
    | _ => throw exc

namespace VRE

variable {ρ σ : Type} [NameFolding] [Repository ρ]

/-- One iteration, and whether its check left nothing to fill. -/
def iterate (vre : VRE σ) (concepts : List String) (minDepth : Option DepthLevel)
    (iteration : Iteration) : Action ρ Bool := do
  let grounding ← vre.check iteration.checking concepts minDepth
  match firstOpenGap grounding.gaps with
  | none => return true
  | some gap =>
      let candidate := (templateForGap gap).fill (iteration.content gap)
      reground (LearningEngine.learnGap iteration.learning gap candidate)
      return false

/-- The loop over the given iterations, and whether it has come to its end. -/
def referenceLoop (vre : VRE σ) (concepts : List String) (minDepth : Option DepthLevel)
    (iterations : List Iteration) : Action ρ Bool :=
  Loops.untilDone (vre.iterate concepts minDepth) iterations

end VRE

namespace LearningEngine

/-- One iteration over the prerequisites: what its call draws, and how its gap is filled. -/
structure PrerequisiteFill where
  draw : Draw
  content : DepthLevel → SlotContent

variable {ρ : Type} [NameFolding] [Repository ρ]

def PrerequisiteFill.learn (fill : PrerequisiteFill) (gap : DepthGap) : Action ρ Unit :=
  learnGap fill.draw (.depth gap) ((templateForGap (.depth gap)).fill fill.content)

/-- `for depth_gap in prereqs`: the gaps are those captured before the first fill. -/
def fillPrerequisites (fills : Nat → PrerequisiteFill) (prereqs : List DepthGap) :
    Action ρ Unit :=
  prereqs.zipIdx.forM fun entry => (fills entry.2).learn entry.1

end LearningEngine

end Vre
