import Vre.Library.Subperm
import Vre.Verification.Policy.Mediation

/-! # More policies

A registry with more placements lets no call through that one with fewer stops, as long as the
callbacks keep no state and a handler that consents to violations consents to fewer of them.
-/

namespace Vre

namespace PolicyRegistry

variable {σ : Type}

/-- Everything registered here is registered there. -/
def Within (reg wider : PolicyRegistry σ) : Prop :=
  ∀ placement ∈ reg.iterPlacements, placement ∈ wider.iterPlacements

/-- What a callback does depends on its context alone. -/
def Stateless (reg : PolicyRegistry σ) : Prop :=
  ∀ placement ∈ reg.iterPlacements, ∀ context, ∃ answer,
    placement.callback.call context = Action.lift answer

end PolicyRegistry

namespace PolicyGate

variable {σ : Type}

section Pass

variable (cardinality : Option Cardinality) (toolCall : Option ToolCallContext)
  (grounding : GroundingContext)

/-- Without state the evaluation of a callback is a value. -/
theorem evaluateCallback_stateless {check : Check σ}
    (h : ∀ context, ∃ answer, check.2.callback.call context = Action.lift answer) :
    ∃ r, ∀ world, evaluateCallback check.2.callback check.2.policy check.1 toolCall grounding
      world = .ok r world := by
  cases toolCall with
  | none => exact ⟨_, fun _ => rfl⟩
  | some call =>
      obtain ⟨answer, hanswer⟩ := h ⟨call, grounding, check.1, check.2.policy⟩
      simp only [evaluateCallback, hanswer]
      cases answer with
      | error exc => exact ⟨_, fun _ => rfl⟩
      | ok value =>
          cases value with
          | result r => exact ⟨r, fun _ => rfl⟩
          | other typeName => exact ⟨_, fun _ => rfl⟩

/-- Without state a check comes to the same in every world, and leaves it as it is. -/
theorem verdict_stateless {check : Check σ}
    (h : ∀ context, ∃ answer, check.2.callback.call context = Action.lift answer) :
    ∃ violation, ∀ world, Verdict cardinality toolCall grounding check world violation world := by
  obtain ⟨r, hrun⟩ := evaluateCallback_stateless toolCall grounding h
  cases hexcluded : cardinalityExcludes check.2.policy cardinality with
  | true => exact ⟨none, fun _ => .excluded hexcluded⟩
  | false =>
      cases hpassed : r.passed with
      | true =>
          refine ⟨none, fun world => .passed hexcluded ?_⟩
          exact (passed_iff toolCall grounding (hrun world)).1 hpassed
      | false =>
          refine ⟨some ⟨check.2.policy, some r⟩, fun world => .fired hexcluded ?_ (hrun world)⟩
          exact (passed_iff toolCall grounding (hrun world)).2 hpassed

/-- What each check comes to on its own. -/
def Alone (checks : List (Check σ)) (alone : Check σ → Option PolicyViolation) : Prop :=
  ∀ check ∈ checks, ∀ world,
    Verdict cardinality toolCall grounding check world (alone check) world

theorem exists_alone {checks : List (Check σ)} (h : ∀ check ∈ checks, ∀ context, ∃ answer,
    check.2.callback.call context = Action.lift answer) :
    ∃ alone, Alone cardinality toolCall grounding checks alone := by
  have heach : ∀ check, ∃ violation, check ∈ checks → ∀ world,
      Verdict cardinality toolCall grounding check world violation world := by
    intro check
    by_cases hcheck : check ∈ checks
    · obtain ⟨violation, hverdict⟩ :=
        verdict_stateless cardinality toolCall grounding (h check hcheck)
      exact ⟨violation, fun _ => hverdict⟩
    · exact ⟨none, fun hmem => absurd hmem hcheck⟩
  choose alone halone using heach
  exact ⟨alone, halone⟩

/-- Without state a sweep finds what each check comes to on its own. -/
theorem Sweep.stateless {checks : List (Check σ)} {alone : Check σ → Option PolicyViolation}
    (halone : Alone cardinality toolCall grounding checks alone) {world world' : σ}
    {violations : List PolicyViolation}
    (h : Sweep cardinality toolCall grounding checks world violations world') :
    world' = world ∧ violations = checks.filterMap alone := by
  induction h with
  | nil => exact ⟨rfl, rfl⟩
  | @cons check rest world world' world'' violation violations hcheck _ ih =>
      obtain ⟨hfirst, hrest⟩ := List.forall_mem_cons.mp halone
      obtain ⟨rfl, rfl⟩ := hcheck.unique _ _ _ (hfirst world)
      obtain ⟨rfl, rfl⟩ := ih hrest
      refine ⟨rfl, ?_⟩
      rw [List.filterMap_cons]
      cases alone check <;> rfl

end Pass

/-! ## The checks of a trace -/

variable [NameFolding]

theorem subperm_traceChecks_of_within {reg wider : PolicyRegistry σ} (hreg : reg.Built)
    (hwider : wider.Built) (hwithin : reg.Within wider) (trace : EpistemicResponse) :
    (traceChecks reg trace).Subperm (traceChecks wider trace) := by
  apply Subperm.flatMap_right
  intro p _
  apply Subperm.flatMap_right
  intro d _
  apply Subperm.flatMap_right
  intro r _
  unfold edgeChecks
  split
  · apply Subperm.flatMap_right
    intro target _
    apply Subperm.map
    apply (hreg.nodup_placementsFor p.name target d.level).subperm
    intro placement hplacement
    obtain ⟨hregistered, hedge⟩ := hreg.indexed.mem_placementsFor.mp hplacement
    exact hwider.indexed.mem_placementsFor.mpr ⟨hwithin placement hregistered, hedge⟩
  · exact List.Subperm.refl []

theorem registered_of_mem_traceChecks {reg : PolicyRegistry σ} (hreg : reg.Indexed)
    {trace : EpistemicResponse} {check : Check σ} (h : check ∈ traceChecks reg trace) :
    check.2 ∈ reg.iterPlacements := by
  simp only [traceChecks, List.mem_flatMap] at h
  obtain ⟨p, -, d, -, r, -, hcheck⟩ := h
  unfold edgeChecks at hcheck
  split at hcheck
  · obtain ⟨target, -, hplacement⟩ := List.mem_flatMap.mp hcheck
    obtain ⟨placement, hmem, rfl⟩ := List.mem_map.mp hplacement
    exact (hreg.mem_placementsFor.mp hmem).1
  · cases hcheck

end PolicyGate

theorem stateless_confirmDelete [NameFolding] : confirmDelete.Stateless := by
  intro placement hplacement context
  have honly : confirmDelete.iterPlacements = [PolicyRegistry.placementOf
      ⟨fun _ => pure (.result ⟨false, none⟩), some "confirm_delete", "function"⟩
      ⟨none, "DELETE", "file", .identity, "confirm delete", defaultConfirmationMessage, none,
        true, none, true⟩] := rfl
  rw [honly] at hplacement
  cases List.mem_singleton.mp hplacement
  exact ⟨.ok (.result ⟨false, none⟩), rfl⟩

/-! ## Guards -/

namespace Guard

section

variable {ρ σ R : Type}

/-- A handler that consents to violations consents to fewer of them. -/
def Indulgent (onPolicy : Option (List PolicyViolation → Action σ PyObject)) : Prop :=
  ∀ handler, onPolicy = some handler → ∀ fewer violations world, fewer.Subperm violations →
    (∃ answer world', handler violations world = .ok answer world' ∧ answer.truth = .ok true) →
    ∃ answer world', handler fewer world = .ok answer world' ∧ answer.truth = .ok true

theorem Indulgent.consents {onPolicy : Option (List PolicyViolation → Action σ PyObject)}
    (h : Indulgent onPolicy) {fewer violations : List PolicyViolation} {world : σ}
    (hsub : fewer.Subperm violations) (hconsents : VRE.Consents onPolicy violations world) :
    VRE.Consents onPolicy fewer world := by
  obtain ⟨hsoft, hsettled⟩ := hconsents
  refine ⟨fun v hv => hsoft v (hsub.subset hv), ?_⟩
  rcases hsettled with rfl | ⟨handler, answer, world', hhandler, hanswer, htruth⟩
  · exact Or.inl (List.subperm_nil.mp hsub)
  · obtain ⟨answer', world'', hanswer', htruth'⟩ :=
      h handler hhandler fewer violations world hsub ⟨answer, world', hanswer, htruth⟩
    exact Or.inr ⟨handler, answer', world'', hhandler, hanswer', htruth'⟩

/-- A handler that consents to what some checks find consents to what fewer of them find. -/
theorem Indulgent.consents_of_fewer {onPolicy : Option (List PolicyViolation → Action σ PyObject)}
    (h : Indulgent onPolicy) {cardinality : Option Cardinality}
    {toolCall : Option ToolCallContext} {grounding : GroundingContext}
    {fewer checks : List (PolicyGate.Check σ)} (hsub : fewer.Subperm checks)
    (hstateless : ∀ check ∈ checks, ∀ context, ∃ answer,
      check.2.callback.call context = Action.lift answer) {s s' : σ}
    {violations : List PolicyViolation}
    (hsweep : PolicyGate.Sweep cardinality toolCall grounding checks s violations s')
    (hconsents : VRE.Consents onPolicy violations s') :
    ∃ found, PolicyGate.Sweep cardinality toolCall grounding fewer s found s ∧
      VRE.Consents onPolicy found s := by
  obtain ⟨alone, halone⟩ := PolicyGate.exists_alone cardinality toolCall grounding hstateless
  have halone' : PolicyGate.Alone cardinality toolCall grounding fewer alone :=
    fun check hcheck => halone check (hsub.subset hcheck)
  obtain ⟨found, s'', -, hsweep'⟩ := PolicyGate.mapM_sweep cardinality toolCall grounding fewer s
  obtain ⟨rfl, rfl⟩ := hsweep.stateless _ _ _ halone
  obtain ⟨rfl, hfound⟩ := hsweep'.stateless _ _ _ halone'
  rw [hfound] at hsweep'
  exact ⟨_, hsweep', h.consents (Subperm.filterMap alone hsub) hconsents⟩

/-- The guard over another registry. -/
def withRegistry (guard : Guard σ R) (registry : PolicyRegistry σ) : Guard σ R :=
  { guard with vre := { guard.vre with policyRegistry := registry } }

variable [NameFolding] [Repository ρ]

theorem permits_of_wider {guard : Guard σ R} (hreg : guard.vre.policyRegistry.Built)
    {wider : PolicyRegistry σ} (hwider : wider.Built)
    (hwithin : guard.vre.policyRegistry.Within wider) (hstateless : wider.Stateless)
    (hindulgent : Indulgent guard.onPolicy) {draw : Draw} {call : CallArgs} {w : World ρ σ}
    (h : (guard.withRegistry wider).Permits draw call w) : guard.Permits draw call w := by
  obtain ⟨result, cardinality, s, trace, violations, s', hgrounds, htrace, hsweep, hconsents⟩ := h
  obtain ⟨found, hsweep', hconsents'⟩ := hindulgent.consents_of_fewer
    (PolicyGate.subperm_traceChecks_of_within hreg hwider hwithin trace)
    (fun check hcheck =>
      hstateless check.2 (PolicyGate.registered_of_mem_traceChecks hwider.indexed hcheck))
    hsweep hconsents
  exact ⟨result, cardinality, s, trace, _, s, hgrounds, htrace, hsweep', hconsents'⟩

theorem permits_of_ran {guard : Guard σ R} (hreg : guard.vre.policyRegistry.Indexed) {draw : Draw}
    {call : CallArgs} {w : World ρ σ}
    (h : (Action.after (guard.wrapped draw call w)).bodyCalls = w.bodyCalls ++ [call]) :
    guard.Permits draw call w := by
  by_contra hnot
  have hsame := (stopped_of_not_permits hreg hnot).1
  rw [h] at hsame
  simp at hsame

/-- A call whose body runs under a registry runs it under every registry with fewer
placements. -/
theorem runs_with_fewer_policies (guard : Guard σ R) (hreg : guard.vre.policyRegistry.Built)
    {wider : PolicyRegistry σ} (hwider : wider.Built)
    (hwithin : guard.vre.policyRegistry.Within wider) (hstateless : wider.Stateless)
    (hindulgent : Indulgent guard.onPolicy) (draw : Draw) (call : CallArgs) (w : World ρ σ)
    (h : (Action.after ((guard.withRegistry wider).wrapped draw call w)).bodyCalls =
      w.bodyCalls ++ [call]) :
    (Action.after (guard.wrapped draw call w)).bodyCalls = w.bodyCalls ++ [call] := by
  have hindexed : (guard.withRegistry wider).vre.policyRegistry.Indexed := hwider.indexed
  have hpermits := permits_of_ran hindexed h
  apply bodyCalls_of_permits hreg.indexed
  exact permits_of_wider hreg hwider hwithin hstateless hindulgent hpermits

end

/-- Confirmed under the one policy, the call runs under none. -/
theorem runs_with_fewer_policies_confirmed : letI := asciiFolding
    (Action.after (((deleteGuard (some fun _ => pure ⟨.ok true⟩)).withRegistry .new).wrapped
      ⟨fun i => i, 0⟩ ⟨[], []⟩ (⟨deleteFile, (), []⟩ : World SqliteRepository Unit))).bodyCalls =
        [⟨[], []⟩] := by
  let _ := asciiFolding
  have hrun : (Action.after ((deleteGuard (some fun _ => pure ⟨.ok true⟩)).wrapped ⟨fun i => i, 0⟩
      ⟨[], []⟩ (⟨deleteFile, (), []⟩ : World SqliteRepository Unit))).bodyCalls = [⟨[], []⟩] := by
    decide +kernel
  have hnew : (PolicyRegistry.new : PolicyRegistry Unit).Built := ⟨[], .nil⟩
  apply runs_with_fewer_policies
    ((deleteGuard (some fun _ => pure ⟨.ok true⟩)).withRegistry .new) hnew built_confirmDelete
    nofun stateless_confirmDelete
  · intro handler hhandler fewer violations world _ _
    cases hhandler
    exact ⟨_, world, rfl, rfl⟩
  · exact hrun

end Guard

end Vre
