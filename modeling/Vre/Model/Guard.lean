import Vre.Model.Interface

/-! # The guard

`vre_guard` of `vre.guard`: grounding, policy and execution in a single pass. The state of a
call is the repository, the integrator's own state, and a log of the calls that reached the
wrapped body.
-/

namespace Vre

/-- What the guard returns when it intervened: it wraps exactly one result. -/
inductive GuardBlock where
  | grounding (result : GroundingResult)
  | policy (result : PolicyResult)
  deriving DecidableEq, Repr

/-- The outcome of a guarded call: a block, or the wrapped function's own value. -/
inductive GuardOutcome (R : Type) where
  | blocked (block : GuardBlock)
  | returned (value : R)

/-- A static value, or a callable that receives the call's arguments. -/
inductive GuardInput (σ α : Type) where
  | static (value : α)
  | callable (f : CallArgs → Action σ α)

def GuardInput.resolve {σ α : Type} (call : CallArgs) : GuardInput σ α → Action σ α
  | static value => pure value
  | callable f => f call

/-- The arguments of `vre_guard` and the function it wraps. -/
structure Guard (σ R : Type) where
  vre : VRE σ
  concepts : GuardInput σ (List String)
  cardinality : GuardInput σ (Option String)
  minDepth : Option DepthLevel
  onTrace : Option (GroundingResult → Action σ Unit)
  onPolicy : Option (List PolicyViolation → Action σ PyObject)
  toolName : String
  fn : CallArgs → Action σ R

structure World (ρ σ : Type) where
  repo : ρ
  integrator : σ
  bodyCalls : List CallArgs

/-- Run an action of the repository. -/
def World.onRepo {ρ σ α : Type} (act : Action ρ α) : Action (World ρ σ) α := fun w =>
  match act w.repo with
  | .ok a repo => .ok a { w with repo := repo }
  | .error e repo => .error e { w with repo := repo }

/-- Run integrator code. -/
def World.onIntegrator {ρ σ α : Type} (act : Action σ α) : Action (World ρ σ) α := fun w =>
  match act w.integrator with
  | .ok a s => .ok a { w with integrator := s }
  | .error e s => .error e { w with integrator := s }

namespace Guard

/-- `on_trace`: an exception it raises is swallowed. -/
def notifyTrace {σ R : Type} (guard : Guard σ R) (grounding : GroundingResult) :
    Action σ Unit := fun s =>
  match guard.onTrace with
  | none => .ok () s
  | some onTrace =>
      match onTrace grounding s with
      | .ok _ s => .ok () s
      | .error _ s => .ok () s

/-- Execute the wrapped function, on the record. -/
def runBody {ρ σ R : Type} (guard : Guard σ R) (call : CallArgs) : Action (World ρ σ) R := do
  modify fun w => { w with bodyCalls := w.bodyCalls ++ [call] }
  World.onIntegrator (guard.fn call)

/-- One call of the wrapped function. -/
def wrapped {ρ σ R : Type} [NameFolding] [Repository ρ] (guard : Guard σ R) (draw : Draw)
    (call : CallArgs) : Action (World ρ σ) (GuardOutcome R) := do
  let concepts ← World.onIntegrator (guard.concepts.resolve call)
  let grounding ← World.onRepo (guard.vre.check draw concepts guard.minDepth)
  World.onIntegrator (guard.notifyTrace grounding)
  if !grounding.grounded then
    return .blocked (.grounding grounding)
  else
    let cardinality ← World.onIntegrator (guard.cardinality.resolve call)
    let policy ← World.onIntegrator (guard.vre.checkPolicy grounding cardinality
      (some ⟨guard.toolName, call⟩) guard.onPolicy)
    if policy.action = .block then
      return .blocked (.policy policy)
    else
      let value ← guard.runBody call
      return .returned value

end Guard

end Vre
