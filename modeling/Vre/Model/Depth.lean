import Mathlib.Data.Finset.Basic
import Mathlib.Order.Basic
import Mathlib.Order.Lattice

/-! # Depth levels and contiguity

`DepthLevel`, the label shown for a level, `contiguous_max` and `missing_depth_levels` of
`vre.core.models`.
-/

namespace Vre

/-- Canonical depth levels for epistemic grounding. -/
inductive DepthLevel where
  | existence
  | identity
  | capabilities
  | constraints
  | implications
  deriving DecidableEq, Repr

namespace DepthLevel

def value : DepthLevel → ℕ
  | existence => 0
  | identity => 1
  | capabilities => 2
  | constraints => 3
  | implications => 4

def name : DepthLevel → String
  | existence => "EXISTENCE"
  | identity => "IDENTITY"
  | capabilities => "CAPABILITIES"
  | constraints => "CONSTRAINTS"
  | implications => "IMPLICATIONS"

theorem value_injective : Function.Injective value := by
  intro a b h
  cases a <;> cases b <;> first | rfl | cases h

/-- `DepthLevel` is an `IntEnum`: levels compare as their values. -/
instance : LinearOrder DepthLevel :=
  LinearOrder.lift' value value_injective

/-- `sorted(DepthLevel)`. -/
def sorted : List DepthLevel :=
  [existence, identity, capabilities, constraints, implications]

@[simp] theorem mem_sorted (level : DepthLevel) : level ∈ sorted := by
  cases level <;> simp [sorted]

theorem nodup_sorted : sorted.Nodup := by decide

theorem pairwise_sorted : sorted.Pairwise (· < ·) := by decide

end DepthLevel

/-- Render a level as "D{value} {NAME}", or "none" when it is absent. -/
def formatDepthLabel : Option DepthLevel → String
  | none => "none"
  | some level => s!"D{level.value} {level.name}"

/-- The loop of `contiguous_max` over the levels in ascending order. -/
def contiguousMaxFrom (levels : Finset DepthLevel) :
    List DepthLevel → Option DepthLevel → Option DepthLevel
  | [], result => result
  | level :: rest, result =>
      if level ∈ levels then contiguousMaxFrom levels rest (some level) else result

/-- Highest level forming a contiguous chain from D0 in `levels`, if any. -/
def contiguousMax (levels : Finset DepthLevel) : Option DepthLevel :=
  contiguousMaxFrom levels DepthLevel.sorted none

/-- `current is not None and current >= required`: the test by which a node is deep enough
for an edge, for an override and for a resolved gap. -/
def Meets (current : Option DepthLevel) (required : DepthLevel) : Prop :=
  match current with
  | none => False
  | some level => required ≤ level

instance (current : Option DepthLevel) (required : DepthLevel) :
    Decidable (Meets current required) :=
  match current with
  | none => isFalse id
  | some level => inferInstanceAs (Decidable (required ≤ level))

/-- The levels in `(current, required]` that are not already present. -/
def missingDepthLevels (present : Finset DepthLevel) (current : Option DepthLevel)
    (required : DepthLevel) : List DepthLevel :=
  let floor : ℤ := match current with
    | none => -1
    | some level => level.value
  DepthLevel.sorted.filter fun level =>
    floor < level.value ∧ level.value ≤ required.value ∧ level ∉ present

end Vre
