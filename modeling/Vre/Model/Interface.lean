import Vre.Model.Grounding
import Vre.Model.Policy

/-! # The public interface

`MetricsManager` of `vre.metrics` and the class `VRE` of `vre`: `check`, `check_policy` and
the validation of policy placements. Trace files and log lines are left out.
-/

namespace Vre

/-! ## Metrics -/

namespace MetricsManager

/-- Count one check of a primitive: a failure if some gap is about it, else a grounding. -/
def bump (now : Timestamp) (failed : Bool) (metrics : PrimitiveMetrics) : PrimitiveMetrics :=
  if failed then
    { metrics with failureCount := metrics.failureCount + 1, lastFailed := some now }
  else
    { metrics with groundingCount := metrics.groundingCount + 1, lastGrounded := some now }

/-- The updates of one check, from the metrics read at its start. -/
def metricUpdates (now : Timestamp) (gapIds : List UUID) (targets : List Primitive)
    (current : OrderedDict UUID (Option PrimitiveMetrics)) : OrderedDict UUID PrimitiveMetrics :=
  targets.foldl (fun updates prim =>
    match current.get? prim.id with
    | none => updates
    | some metrics => updates.set prim.id
        (bump now (prim.id ∈ gapIds) (metrics.getD .new))) .empty

/-- `update_grounding`: a backend failure is swallowed. -/
def updateGrounding {ρ : Type} [NameFolding] [Repository ρ] (draw : Draw)
    (result : GroundingResult) : Action ρ Unit := fun repo =>
  let resolvedLower := result.resolved.map foldName
  let targets := result.getPrimitives.filter fun p => p.nameLower ∈ resolvedLower
  if targets.isEmpty then
    .ok () repo
  else
    match Repository.batchReadMetrics repo (targets.map Primitive.id) with
    | .error _ => .ok () repo
    | .ok current =>
        let updates := metricUpdates draw.now (gapPrimitiveIds result.gaps) targets current
        if updates.entries.isEmpty then
          .ok () repo
        else
          match Repository.batchUpdateMetrics updates repo with
          | .ok _ repo => .ok () repo
          | .error _ repo => .ok () repo

end MetricsManager

/-! ## VRE -/

/-- A value an integrator's callable returned, as far as `bool(value)` tells. -/
structure PyObject where
  truth : Except PyException Bool

/-- The parts of a `VRE` instance that its calls read: its policy registry and the agent
identity it stamps. -/
structure VRE (σ : Type) where
  policyRegistry : PolicyRegistry σ
  agentId : Option UUID

namespace VRE

/-- `_stamp_identity`. -/
def stampIdentity {σ : Type} (vre : VRE σ) (result : GroundingResult) : GroundingResult :=
  match vre.agentId, result.agentId with
  | some agentId, none => { result with agentId := some agentId }
  | _, _ => result

/-- Ground concepts, then count the check in the metrics of the named primitives. -/
def check {ρ σ : Type} [NameFolding] [Repository ρ] (vre : VRE σ) (draw : Draw)
    (concepts : List String) (minDepth : Option DepthLevel) : Action ρ GroundingResult := do
  let result ← Action.read fun repo => GroundingEngine.ground draw repo concepts minDepth
  let result := vre.stampIdentity result
  MetricsManager.updateGrounding draw result
  return result

/-- The outcome of `check_policy` when `violations` were found. -/
def resolveViolations {σ : Type} (violations : List PolicyViolation)
    (onPolicy : Option (List PolicyViolation → Action σ PyObject)) : Action σ PolicyResult :=
  let hardBlocks := violations.filter fun v => !v.requiresConfirmation
  let pending := violations.filter fun v => v.requiresConfirmation
  if violations.isEmpty then
    return ⟨.pass, none, []⟩
  else if !hardBlocks.isEmpty then
    return ⟨.block, some ("\n\n".intercalate (hardBlocks.map PolicyViolation.message)), violations⟩
  else
    match onPolicy with
    | none => return ⟨.block, some "Confirmation required, no handler", pending⟩
    | some handler => fun world =>
        match handler pending world with
        | .error exc world =>
            .ok ⟨.block, some s!"confirmation handler raised {exc.repr}", pending⟩ world
        | .ok proceed world =>
            match proceed.truth with
            | .error exc => .error exc world
            | .ok true => .ok ⟨.pass, none, pending⟩ world
            | .ok false => .ok ⟨.block, some "User declined", pending⟩ world

/-- `check_policy` of a grounding result. -/
def checkPolicy {σ : Type} [NameFolding] (vre : VRE σ) (grounding : GroundingResult)
    (cardinality : Option String) (toolCall : Option ToolCallContext)
    (onPolicy : Option (List PolicyViolation → Action σ PyObject)) : Action σ PolicyResult :=
  let refused : PolicyResult :=
    ⟨.block, some "policy evaluation requires a grounded result", []⟩
  match grounding.trace with
  | none => return refused
  | some trace =>
      if !grounding.grounded then
        return refused
      else do
        let violations ← PolicyGate.evaluate vre.policyRegistry trace
          (cardinality.bind Cardinality.ofValue?) toolCall
          (GroundingContext.fromGrounding grounding)
        resolveViolations violations onPolicy

/-! ## Placement validation -/

/-- `_has_applies_to_edge`. -/
def hasAppliesToEdge (source : Primitive) (targetId : UUID) (sourceDepth : DepthLevel) : Bool :=
  (source.depths.filter fun d => d.level = sourceDepth).any fun d =>
    d.relata.any fun r => r.relationType = .appliesTo ∧ r.targetId = targetId

/-- Why a placement's edge is missing, or `none` if a matching edge exists. -/
def placementGap {ρ σ : Type} [Repository ρ] (repo : ρ) (placement : PolicyPlacement σ) :
    Except PyException (Option String) := do
  let source ← Repository.findByName repo placement.source
  let target ← Repository.findByName repo placement.target
  match source, target with
  | none, _ => return some "source primitive not found"
  | some _, none => return some "target primitive not found"
  | some source, some target =>
      if hasAppliesToEdge source target.id placement.sourceDepth then
        return none
      else
        return some "no APPLIES_TO edge at this source depth"

/-- `validate_policy_placements`. -/
def validatePolicyPlacements {ρ σ : Type} [Repository ρ] (vre : VRE σ) (repo : ρ) :
    Except PyException (List OrphanedPlacement) := do
  let orphans ← vre.policyRegistry.iterPlacements.mapM fun placement => do
    let reason ← placementGap repo placement
    return reason.map fun reason => (⟨placement.key, placement.policy.name, placement.source,
      placement.target, placement.sourceDepth, reason⟩ : OrphanedPlacement)
  return orphans.filterMap id

/-- One line of the error that refuses a construction. -/
def orphanLine (o : OrphanedPlacement) : String :=
  s!"  - {reprStr o.name} ({o.key}): {o.source}->{o.target} "
    ++ s!"@ {formatDepthLabel (some o.sourceDepth)} [{o.reason}]"

/-- `_configure_policies`: the registry as the construction leaves it. -/
def configurePolicies {ρ σ : Type} [Repository ρ] (vre : VRE σ) (repo : ρ)
    (validatePolicies : Bool) (expectPolicies : Option ℕ) : Except PyException (VRE σ) := do
  let keys := vre.policyRegistry.keys
  match expectPolicies with
  | none => pure ()
  | some expected =>
      if keys.length ≠ expected then
        raise .vreError
          (s!"expected {expected} registered policy/policies, found {keys.length}: "
            ++ "[" ++ ", ".intercalate (keys.map reprStr) ++ "]")
  if validatePolicies then
    let orphans ← validatePolicyPlacements vre repo
    if !orphans.isEmpty then
      raise .policyPlacementError
        (s!"{orphans.length} declared policy placement(s) reference edges absent from the graph:\n"
          ++ "\n".intercalate (orphans.map orphanLine))
  return { vre with policyRegistry := vre.policyRegistry.freeze }

end VRE

end Vre
