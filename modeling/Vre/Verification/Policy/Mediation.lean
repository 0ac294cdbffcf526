import Vre.Model.Guard
import Vre.Verification.Policy.Gate

/-! # Complete mediation

A guarded call reaches the wrapped body exactly when its concepts are grounded and its policy
violations, if there are any, are all confirmable and were confirmed.
-/

namespace Vre

namespace VRE

/-! ## The verdict of a policy check -/

/-- The violations do not stand in the way: none of them blocks outright, and if there are
any, a handler was asked about exactly these and returned a truthy value. -/
def Consents {σ : Type} (onPolicy : Option (List PolicyViolation → Action σ PyObject))
    (violations : List PolicyViolation) (world : σ) : Prop :=
  (∀ v ∈ violations, v.policy.requiresConfirmation = true) ∧
    (violations = [] ∨ ∃ handler answer world', onPolicy = some handler ∧
      handler violations world = .ok answer world' ∧ answer.truth = .ok true)

theorem filter_confirmable {violations : List PolicyViolation}
    (h : ∀ v ∈ violations, v.policy.requiresConfirmation = true) :
    (violations.filter fun v => !v.requiresConfirmation) = [] ∧
      (violations.filter fun v => v.requiresConfirmation) = violations := by
  constructor
  · apply List.filter_eq_nil_iff.mpr
    intro v hv
    simp [PolicyViolation.requiresConfirmation, h v hv]
  · exact List.filter_eq_self.mpr h

/-- A violation that blocks outright settles the matter. -/
theorem resolveViolations_hard {σ : Type}
    (onPolicy : Option (List PolicyViolation → Action σ PyObject))
    {violations : List PolicyViolation} {v : PolicyViolation} (hv : v ∈ violations)
    (hhard : v.policy.requiresConfirmation = false) (world : σ) :
    ∃ result, resolveViolations violations onPolicy world = .ok result world ∧
      result.action = .block := by
  have hne : violations.isEmpty = false := List.isEmpty_eq_false_iff.mpr (List.ne_nil_of_mem hv)
  have hblock : (violations.filter fun v => !v.requiresConfirmation).isEmpty = false := by
    refine List.isEmpty_eq_false_iff.mpr (List.ne_nil_of_mem (List.mem_filter.mpr ⟨hv, ?_⟩))
    simp [PolicyViolation.requiresConfirmation, hhard]
  simp only [resolveViolations, hne, hblock, Bool.not_false, Bool.false_eq_true, if_true, if_false]
  exact ⟨_, rfl, rfl⟩

/-- What becomes of confirmable violations once their handler has run. -/
def settled {σ : Type} (violations : List PolicyViolation) :
    EStateM.Result PyException σ PyObject → EStateM.Result PyException σ PolicyResult
  | .error exc world =>
      .ok ⟨.block, some s!"confirmation handler raised {exc.repr}", violations⟩ world
  | .ok proceed world =>
      match proceed.truth with
      | .error exc => .error exc world
      | .ok true => .ok ⟨.pass, none, violations⟩ world
      | .ok false => .ok ⟨.block, some "User declined", violations⟩ world

theorem settled_pass_iff {σ : Type} (violations : List PolicyViolation)
    (answered : EStateM.Result PyException σ PyObject) :
    (∃ result world, settled violations answered = .ok result world ∧ result.action ≠ .block) ↔
      ∃ answer world, answered = .ok answer world ∧ answer.truth = .ok true := by
  cases answered with
  | error exc w =>
      constructor
      · rintro ⟨result, world, hresult, hpass⟩
        cases hresult
        exact absurd rfl hpass
      · rintro ⟨answer, world, hrun, -⟩
        cases hrun
  | ok answer w =>
      constructor
      · rintro ⟨result, world, hresult, hpass⟩
        refine ⟨answer, w, rfl, ?_⟩
        cases htruth : answer.truth with
        | error exc =>
            simp only [settled, htruth] at hresult
            cases hresult
        | ok proceed =>
            cases proceed with
            | true => rfl
            | false =>
                simp only [settled, htruth] at hresult
                cases hresult
                exact absurd rfl hpass
      · rintro ⟨answer', world, hrun, htruth⟩
        cases hrun
        simp only [settled, htruth]
        exact ⟨_, w, rfl, nofun⟩

theorem resolveViolations_of_soft {σ : Type}
    (onPolicy : Option (List PolicyViolation → Action σ PyObject))
    {violations : List PolicyViolation} (hne : violations ≠ [])
    (hsoft : ∀ v ∈ violations, v.policy.requiresConfirmation = true) (world : σ) :
    resolveViolations violations onPolicy world = match onPolicy with
      | none => .ok ⟨.block, some "Confirmation required, no handler", violations⟩ world
      | some handler => settled violations (handler violations world) := by
  obtain ⟨hhard, hpending⟩ := filter_confirmable hsoft
  have hsome : violations.isEmpty = false := List.isEmpty_eq_false_iff.mpr hne
  simp only [resolveViolations, hsome, hhard, hpending, List.isEmpty_nil, Bool.not_true,
    Bool.false_eq_true, if_false]
  cases onPolicy with
  | none => rfl
  | some handler =>
      dsimp only
      cases handler violations world with
      | error exc w => rfl
      | ok answer w => rfl

/-- Confirmable violations pass exactly when a handler returns a truthy value on them. -/
theorem resolveViolations_soft {σ : Type}
    (onPolicy : Option (List PolicyViolation → Action σ PyObject))
    {violations : List PolicyViolation} (hne : violations ≠ [])
    (hsoft : ∀ v ∈ violations, v.policy.requiresConfirmation = true) (world : σ) :
    (∃ result world', resolveViolations violations onPolicy world = .ok result world' ∧
      result.action ≠ .block) ↔
    ∃ handler answer world', onPolicy = some handler ∧
      handler violations world = .ok answer world' ∧ answer.truth = .ok true := by
  rw [resolveViolations_of_soft onPolicy hne hsoft]
  cases onPolicy with
  | none =>
      constructor
      · rintro ⟨result, world', hresult, hpass⟩
        cases hresult
        exact absurd rfl hpass
      · rintro ⟨handler, answer, world', hnone, -⟩
        cases hnone
  | some handler =>
      simp only [settled_pass_iff, Option.some.injEq, exists_and_left, exists_eq_left']

theorem resolveViolations_pass_iff {σ : Type}
    (onPolicy : Option (List PolicyViolation → Action σ PyObject))
    (violations : List PolicyViolation) (world : σ) :
    (∃ result world', resolveViolations violations onPolicy world = .ok result world' ∧
      result.action ≠ .block) ↔ Consents onPolicy violations world := by
  by_cases hsoft : ∀ v ∈ violations, v.policy.requiresConfirmation = true
  · by_cases hne : violations = []
    · subst hne
      exact ⟨fun _ => ⟨hsoft, Or.inl rfl⟩, fun _ => ⟨_, world, rfl, nofun⟩⟩
    · rw [resolveViolations_soft onPolicy hne hsoft]
      exact ⟨fun h => ⟨hsoft, Or.inr h⟩, fun h => h.2.resolve_left hne⟩
  · refine ⟨fun h => ?_, fun h => absurd h.1 hsoft⟩
    push Not at hsoft
    obtain ⟨v, hv, hhard⟩ := hsoft
    obtain ⟨blocked, hrun, hblock⟩ :=
      resolveViolations_hard onPolicy hv (Bool.eq_false_iff.mpr hhard) world
    obtain ⟨result, world', hresult, hpass⟩ := h
    cases hrun.symm.trans hresult
    exact absurd hblock hpass

/-- The policy check of a grounded result passes exactly when the violations of its trace do
not stand in the way. -/
theorem checkPolicy_pass_iff {σ : Type} [NameFolding] {vre : VRE σ}
    (hreg : vre.policyRegistry.Indexed) {grounding : GroundingResult} {trace : EpistemicResponse}
    (htrace : grounding.trace = some trace) (hclosed : trace.Closed)
    (hgrounded : grounding.grounded = true) (cardinality : Option String)
    (toolCall : Option ToolCallContext)
    (onPolicy : Option (List PolicyViolation → Action σ PyObject)) (world : σ) :
    (∃ result world', vre.checkPolicy grounding cardinality toolCall onPolicy world =
      .ok result world' ∧ result.action ≠ .block) ↔
    ∃ violations world', PolicyGate.Sweep (cardinality.bind Cardinality.ofValue?) toolCall
      (GroundingContext.fromGrounding grounding)
      (PolicyGate.traceChecks vre.policyRegistry trace) world violations world' ∧
      Consents onPolicy violations world' := by
  obtain ⟨violations, w, hrun, hsweep⟩ := PolicyGate.evaluate_sweep hreg hclosed
    (cardinality.bind Cardinality.ofValue?) toolCall (GroundingContext.fromGrounding grounding)
    world
  have hcheck : vre.checkPolicy grounding cardinality toolCall onPolicy world =
      resolveViolations violations onPolicy w := by
    simp only [checkPolicy, htrace, hgrounded, Bool.not_true, Bool.false_eq_true, if_false]
    exact Loops.bind_of_ok hrun
  rw [hcheck, resolveViolations_pass_iff]
  constructor
  · exact fun hconsents => ⟨violations, w, hsweep, hconsents⟩
  · rintro ⟨violations', w', hsweep', hconsents⟩
    obtain ⟨rfl, rfl⟩ := hsweep.unique _ _ _ hsweep'
    exact hconsents

end VRE

/-! ## The guarded call -/

theorem World.onRepo_of_ok {ρ σ α : Type} {act : Action ρ α} {repo repo' : ρ} {a : α}
    (h : act repo = .ok a repo') {s : σ} {calls : List CallArgs} :
    World.onRepo act ⟨repo, s, calls⟩ = .ok a ⟨repo', s, calls⟩ := by
  simp only [World.onRepo, h]

theorem World.onIntegrator_of_ok {ρ σ α : Type} {act : Action σ α} {s s' : σ} {a : α}
    (h : act s = .ok a s') {repo : ρ} {calls : List CallArgs} :
    World.onIntegrator act ⟨repo, s, calls⟩ = .ok a ⟨repo, s', calls⟩ := by
  simp only [World.onIntegrator, h]

theorem World.onRepo_of_error {ρ σ α : Type} {act : Action ρ α} {repo repo' : ρ}
    {exc : PyException} (h : act repo = .error exc repo') {s : σ} {calls : List CallArgs} :
    World.onRepo act ⟨repo, s, calls⟩ = .error exc ⟨repo', s, calls⟩ := by
  simp only [World.onRepo, h]

theorem World.onIntegrator_of_error {ρ σ α : Type} {act : Action σ α} {s s' : σ}
    {exc : PyException} (h : act s = .error exc s') {repo : ρ} {calls : List CallArgs} :
    World.onIntegrator act ⟨repo, s, calls⟩ = .error exc ⟨repo, s', calls⟩ := by
  simp only [World.onIntegrator, h]

namespace Guard

variable {ρ σ R : Type}

/-- The grounding check of the call is grounded: `result` is what it returned, and with this
cardinality and in this state the policy is asked. -/
def Grounds [NameFolding] [Repository ρ] (guard : Guard σ R) (draw : Draw) (call : CallArgs)
    (w : World ρ σ) (result : GroundingResult) (cardinality : Option String) (s : σ) : Prop :=
  ∃ concepts s₁ repo s₂, guard.concepts.resolve call w.integrator = .ok concepts s₁ ∧
    guard.vre.check draw concepts guard.minDepth w.repo = .ok result repo ∧
    result.grounded = true ∧ guard.notifyTrace result s₁ = .ok () s₂ ∧
    guard.cardinality.resolve call s₂ = .ok cardinality s

/-- The call may run: its concepts are grounded, and the violations that the placements on
its trace give rise to do not stand in the way. -/
def Permits [NameFolding] [Repository ρ] (guard : Guard σ R) (draw : Draw) (call : CallArgs)
    (w : World ρ σ) : Prop :=
  ∃ result cardinality s trace violations s', guard.Grounds draw call w result cardinality s ∧
    result.trace = some trace ∧
    PolicyGate.Sweep (cardinality.bind Cardinality.ofValue?) (some ⟨guard.toolName, call⟩)
      (GroundingContext.fromGrounding result)
      (PolicyGate.traceChecks guard.vre.policyRegistry trace) s violations s' ∧
    VRE.Consents guard.onPolicy violations s'

theorem notifyTrace_ok (guard : Guard σ R) (grounding : GroundingResult) (s : σ) :
    ∃ s', guard.notifyTrace grounding s = .ok () s' := by
  unfold notifyTrace
  cases guard.onTrace with
  | none => exact ⟨s, rfl⟩
  | some onTrace =>
      dsimp only
      cases onTrace grounding s <;> exact ⟨_, rfl⟩

/-- Once the body is entered, the call is on the record, whatever the body does. -/
theorem bodyCalls_runBody (guard : Guard σ R) (call : CallArgs) (w : World ρ σ) :
    (Action.after (guard.runBody call w)).bodyCalls = w.bodyCalls ++ [call] := by
  have hlog : (modify fun w => { w with bodyCalls := w.bodyCalls ++ [call] } :
      Action (World ρ σ) Unit) w = .ok () { w with bodyCalls := w.bodyCalls ++ [call] } := rfl
  unfold runBody
  rw [Loops.bind_of_ok hlog]
  unfold World.onIntegrator
  dsimp only
  split <;> rfl

theorem bodyCalls_of_permits [NameFolding] [Repository ρ] {guard : Guard σ R}
    (hreg : guard.vre.policyRegistry.Indexed) {draw : Draw} {call : CallArgs} {w : World ρ σ}
    (h : guard.Permits draw call w) :
    (Action.after (guard.wrapped draw call w)).bodyCalls = w.bodyCalls ++ [call] := by
  obtain ⟨repo, s₀, calls⟩ := w
  obtain ⟨result, cardinality, s, trace, violations, s', hgrounds, htrace, hsweep, hconsents⟩ := h
  obtain ⟨concepts, s₁, repo', s₂, hconcepts, hcheck, hgrounded, hnotify, hcardinality⟩ := hgrounds
  obtain ⟨trace', htrace', hclosed⟩ := VRE.closed_of_check hcheck
  cases htrace.symm.trans htrace'
  obtain ⟨policy, s₃, hpolicy, hpass⟩ := (VRE.checkPolicy_pass_iff hreg htrace hclosed hgrounded
    cardinality (some ⟨guard.toolName, call⟩) guard.onPolicy s).mpr
      ⟨violations, s', hsweep, hconsents⟩
  unfold wrapped
  rw [Loops.bind_of_ok (World.onIntegrator_of_ok hconcepts),
    Loops.bind_of_ok (World.onRepo_of_ok hcheck),
    Loops.bind_of_ok (World.onIntegrator_of_ok hnotify)]
  simp only [hgrounded, Bool.not_true, Bool.false_eq_true, if_false]
  rw [Loops.bind_of_ok (World.onIntegrator_of_ok hcardinality),
    Loops.bind_of_ok (World.onIntegrator_of_ok hpolicy)]
  simp only [hpass, if_false]
  rw [Action.after_bind_pure, bodyCalls_runBody]

/-- The call was refused, or failed, before it reached the body. -/
def Stopped (w : World ρ σ) (outcome : EStateM.Result PyException (World ρ σ) (GuardOutcome R)) :
    Prop :=
  (Action.after outcome).bodyCalls = w.bodyCalls ∧ ∀ value w', outcome ≠ .ok (.returned value) w'

/-- Without permission every way through the guard ends before the body. -/
theorem stopped_of_not_permits [NameFolding] [Repository ρ] {guard : Guard σ R}
    (hreg : guard.vre.policyRegistry.Indexed) {draw : Draw} {call : CallArgs} {w : World ρ σ}
    (h : ¬ guard.Permits draw call w) : Stopped w (guard.wrapped draw call w) := by
  obtain ⟨repo, s₀, calls⟩ := w
  unfold wrapped
  cases hconcepts : guard.concepts.resolve call s₀ with
  | error exc s₁ =>
      rw [Loops.bind_of_error (World.onIntegrator_of_error hconcepts)]
      exact ⟨rfl, nofun⟩
  | ok concepts s₁ =>
      rw [Loops.bind_of_ok (World.onIntegrator_of_ok hconcepts)]
      cases hcheck : guard.vre.check draw concepts guard.minDepth repo with
      | error exc repo' =>
          rw [Loops.bind_of_error (World.onRepo_of_error hcheck)]
          exact ⟨rfl, nofun⟩
      | ok result repo' =>
          obtain ⟨s₂, hnotify⟩ := guard.notifyTrace_ok result s₁
          rw [Loops.bind_of_ok (World.onRepo_of_ok hcheck),
            Loops.bind_of_ok (World.onIntegrator_of_ok hnotify)]
          cases hgrounded : result.grounded with
          | false => exact ⟨rfl, nofun⟩
          | true =>
              simp only [Bool.not_true, Bool.false_eq_true, if_false]
              cases hcardinality : guard.cardinality.resolve call s₂ with
              | error exc s =>
                  rw [Loops.bind_of_error (World.onIntegrator_of_error hcardinality)]
                  exact ⟨rfl, nofun⟩
              | ok cardinality s =>
                  rw [Loops.bind_of_ok (World.onIntegrator_of_ok hcardinality)]
                  cases hpolicy : guard.vre.checkPolicy result cardinality
                      (some ⟨guard.toolName, call⟩) guard.onPolicy s with
                  | error exc s₃ =>
                      rw [Loops.bind_of_error (World.onIntegrator_of_error hpolicy)]
                      exact ⟨rfl, nofun⟩
                  | ok policy s₃ =>
                      rw [Loops.bind_of_ok (World.onIntegrator_of_ok hpolicy)]
                      by_cases hblock : policy.action = .block
                      · simp only [hblock, if_true]
                        exact ⟨rfl, nofun⟩
                      · obtain ⟨trace, htrace, hclosed⟩ := VRE.closed_of_check hcheck
                        obtain ⟨violations, s', hsweep, hconsents⟩ :=
                          (VRE.checkPolicy_pass_iff hreg htrace hclosed hgrounded _ _ _ s).mp
                            ⟨policy, s₃, hpolicy, hblock⟩
                        exact absurd ⟨result, cardinality, s, trace, violations, s',
                          ⟨concepts, s₁, repo', s₂, hconcepts, hcheck, hgrounded, hnotify,
                            hcardinality⟩, htrace, hsweep, hconsents⟩ h

/-- A guarded call runs the wrapped body, once, exactly if it is permitted. Otherwise the
body does not run, and no value of it is returned. -/
theorem wrapped_mediates [NameFolding] [Repository ρ] (guard : Guard σ R)
    (hreg : guard.vre.policyRegistry.Built) (draw : Draw) (call : CallArgs) (w : World ρ σ) :
    ((Action.after (guard.wrapped draw call w)).bodyCalls = w.bodyCalls ++ [call] ↔
      guard.Permits draw call w) ∧
    (¬ guard.Permits draw call w → Stopped w (guard.wrapped draw call w)) := by
  refine ⟨⟨fun hrun => ?_, bodyCalls_of_permits hreg.indexed⟩, stopped_of_not_permits hreg.indexed⟩
  by_contra hnot
  have hstopped := (stopped_of_not_permits hreg.indexed hnot).1
  rw [hrun] at hstopped
  simp at hstopped

/-- A guard on `Delete` and `File` with the given handler. -/
def deleteGuard [NameFolding] (onPolicy : Option (List PolicyViolation → Action Unit PyObject)) :
    Guard Unit Unit where
  vre := ⟨confirmDelete, none⟩
  concepts := .static ["delete", "file"]
  cardinality := .static (some "single")
  minDepth := none
  onTrace := none
  onPolicy := onPolicy
  toolName := "rm"
  fn := fun _ => pure ()

/-- The violations for which a call was blocked. -/
def violations (outcome : EStateM.Result PyException (World ρ σ) (GuardOutcome R)) :
    List PolicyViolation :=
  match outcome with
  | .ok (.blocked (.policy result)) _ => result.violations
  | _ => []

/-- The policy fires. It stops the call for which there is no handler, and the consent of a
handler lets the call through. -/
theorem wrapped_mediates_confirmed : letI := asciiFolding
    let w : World SqliteRepository Unit := ⟨deleteFile, (), []⟩
    (violations ((deleteGuard none).wrapped ⟨fun i => i, 0⟩ ⟨[], []⟩ w)).length = 1 ∧
      Stopped w ((deleteGuard none).wrapped ⟨fun i => i, 0⟩ ⟨[], []⟩ w) ∧
      (deleteGuard (some fun _ => pure ⟨.ok true⟩)).Permits ⟨fun i => i, 0⟩ ⟨[], []⟩ w := by
  let _ := asciiFolding
  intro w
  have hrun : (Action.after ((deleteGuard (some fun _ => pure ⟨.ok true⟩)).wrapped ⟨fun i => i, 0⟩
      ⟨[], []⟩ w)).bodyCalls = [⟨[], []⟩] := by
    decide +kernel
  have hstopped : (Action.after ((deleteGuard none).wrapped ⟨fun i => i, 0⟩ ⟨[], []⟩
      w)).bodyCalls ≠ [⟨[], []⟩] := by
    decide +kernel
  refine ⟨by decide +kernel, ?_, (wrapped_mediates _ built_confirmDelete _ _ _).1.mp hrun⟩
  apply (wrapped_mediates _ built_confirmDelete _ _ _).2
  intro hpermits
  exact hstopped ((wrapped_mediates _ built_confirmDelete _ _ _).1.mpr hpermits)

end Guard

end Vre
