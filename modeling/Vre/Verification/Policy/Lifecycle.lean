import Vre.Verification.Policy.Placements

/-! # The life of a policy registry

Whatever the sequence of registrations, freezes and clears, and whichever of them failed,
the two indexes hold the placements registered since the last clear. A frozen registry stays
as it is until it is cleared, so what is enforced is what was validated.
-/

namespace Vre

namespace PolicyRegistry

/-! ## Lookups -/

/-- Every lookup reads the placements registered since the last clear, in order. -/
structure Ledger.Consistent {σ : Type} [NameFolding] (s : Ledger σ) : Prop where
  placements_for : ∀ source target depth, s.registry.placementsFor source target depth =
    s.log.filter fun placement => foldName placement.source = foldName source ∧
      foldName placement.target = foldName target ∧ placement.sourceDepth = depth
  iter_placements : s.registry.iterPlacements = s.log
  keys : s.registry.keys = s.log.map PolicyPlacement.key
  nodup_keys : (s.log.map PolicyPlacement.key).Nodup
  length : s.registry.length = s.log.length

theorem Ledger.Agrees.consistent {σ : Type} [NameFolding] {s : Ledger σ} (h : s.Agrees) :
    s.Consistent := by
  have hkeys : s.registry.keys = s.log.map PolicyPlacement.key := by
    rw [PolicyRegistry.keys, OrderedDict.keys, h.byKey, List.map_map]
    rfl
  refine ⟨fun source target depth => ?_, h.iterPlacements_eq, hkeys, ?_, ?_⟩
  · rw [placementsFor, h.byEdge]
    apply List.filter_congr
    intro placement _
    simp [placementKey, edgeKey]
  · exact hkeys ▸ s.registry.byKey.nodup_keys
  · rw [PolicyRegistry.length, h.byKey, List.length_map]

/-! ## Registrations -/

/-- A registration on an open registry, of a new key and a declaration that the models accept,
adds its placement to those of its edge. Any other raises, and the registry is as it was. -/
structure Registers {σ : Type} [NameFolding] (reg : PolicyRegistry σ) : Prop where
  returns : ∀ callback decl, (∃ reg', register callback decl reg = .ok callback reg') ↔
    reg.frozen = false ∧ keyFor callback decl.key ∉ reg.keys ∧ decl.wellTyped = true
  found : ∀ callback decl reg', register callback decl reg = .ok callback reg' →
    ∀ source target depth, reg'.placementsFor source target depth =
      reg.placementsFor source target depth ++
        if foldName source = foldName decl.sourcePrimitive ∧
          foldName target = foldName decl.targetPrimitive ∧ depth = decl.sourceDepth then
            [placementOf callback decl] else []
  raises : ∀ callback decl, (∀ reg', register callback decl reg ≠ .ok callback reg') →
    ∃ exc, register callback decl reg = .error exc reg

theorem registers {σ : Type} [NameFolding] (reg : PolicyRegistry σ) : reg.Registers where
  returns := by
    intro callback decl
    have hkey : keyFor callback decl.key ∉ reg.keys ↔
        reg.byKey.get? (keyFor callback decl.key) = none := by
      rw [PolicyRegistry.keys, OrderedDict.mem_keys_iff, Option.eq_none_iff_forall_ne_some,
        not_exists]
    rw [hkey]
    rcases register_cases callback decl reg with ⟨hopen, hnew, htyped, hok⟩ | ⟨hwhy, exc, herror⟩
    · exact ⟨fun _ => ⟨hopen, hnew, htyped⟩, fun _ => ⟨_, hok⟩⟩
    · constructor
      · intro hreturns
        obtain ⟨reg', hok⟩ := hreturns
        cases herror.symm.trans hok
      · intro haccepts
        obtain ⟨hopen, hnew, htyped⟩ := haccepts
        rcases hwhy with hfrozen | ⟨placement, hheld⟩ | huntyped
        · cases hopen.symm.trans hfrozen
        · cases hnew.symm.trans hheld
        · cases htyped.symm.trans huntyped
  found := by
    intro callback decl reg' hok source target depth
    rcases register_cases callback decl reg with ⟨-, -, -, hok'⟩ | ⟨-, exc, herror⟩
    · cases hok'.symm.trans hok
      rw [placementsFor, placementsFor, OrderedDict.getD_append]
      simp only [edgeKey, placementKey, placementOf, Prod.mk.injEq]
    · cases herror.symm.trans hok
  raises := by
    intro callback decl hnever
    rcases register_cases callback decl reg with ⟨-, -, -, hok⟩ | ⟨-, hraises⟩
    · exact absurd hok (hnever _)
    · exact hraises

/-! ## Frozen registries -/

theorem next_of_frozen {σ : Type} [NameFolding] {reg : PolicyRegistry σ}
    (hfrozen : reg.frozen = true) {op : Operation σ} (hop : op ≠ .clear) : op.next reg = reg := by
  cases op with
  | register callback decl =>
      rcases register_cases callback decl reg with ⟨hopen, -⟩ | ⟨-, exc, herror⟩
      · cases hopen.symm.trans hfrozen
      · simp only [Operation.next, herror, Action.after]
  | freeze =>
      obtain ⟨byKey, byEdge, frozen⟩ := reg
      obtain rfl : frozen = true := hfrozen
      rfl
  | clear => exact absurd rfl hop

/-- Between a freeze and the next clear nothing changes. -/
theorem foldl_of_frozen {σ : Type} [NameFolding] {reg : PolicyRegistry σ}
    (hfrozen : reg.frozen = true) {later : List (Operation σ)} (hlater : .clear ∉ later) :
    later.foldl Operation.next reg = reg := by
  induction later with
  | nil => rfl
  | cons op rest ih =>
      obtain ⟨hop, hrest⟩ := not_or.mp (mt List.mem_cons.mpr hlater)
      rw [List.foldl_cons, next_of_frozen hfrozen fun heq => hop heq.symm]
      exact ih hrest

theorem registry_foldl_next {σ : Type} [NameFolding] (ops : List (Operation σ)) (s : Ledger σ) :
    (ops.foldl Ledger.next s).registry = ops.foldl Operation.next s.registry := by
  induction ops generalizing s with
  | nil => rfl
  | cons op rest ih => exact ih (s.next op)

end PolicyRegistry

namespace VRE

open PolicyRegistry

/-! ## Construction -/

/-- A construction that validates returns with the registry frozen and no placement without
its edge. -/
theorem validated_of_configurePolicies {ρ σ : Type} [Repository ρ] {vre vre' : VRE σ} {repo : ρ}
    {expectPolicies : Option ℕ}
    (h : vre.configurePolicies repo true expectPolicies = .ok vre') :
    vre.validatePolicyPlacements repo = .ok [] ∧
      vre'.policyRegistry = vre.policyRegistry.freeze := by
  unfold configurePolicies at h
  have htail : ∃ message : List OrphanedPlacement → String, (do
      let orphans ← validatePolicyPlacements vre repo
      if !orphans.isEmpty then
        raise .policyPlacementError (message orphans)
      return { vre with policyRegistry := vre.policyRegistry.freeze }) = .ok vre' := by
    cases expectPolicies with
    | none => exact ⟨_, h⟩
    | some expected =>
        dsimp only at h
        split at h
        · cases h
        · exact ⟨_, h⟩
  obtain ⟨message, htail⟩ := htail
  obtain ⟨orphans, hvalid, hreturn⟩ := Loops.except_bind_ok.mp htail
  cases orphans with
  | nil =>
      cases hreturn
      exact ⟨hvalid, rfl⟩
  | cons orphan rest => cases hreturn

/-- Whatever is looked up after a validating construction and before a clear was among the
placements validated, and had its edge in the repository. -/
def EnforcesValidated {σ : Type} [NameFolding] (reg : PolicyRegistry σ) : Prop :=
  ∀ {ρ : Type} [Repository ρ] (repo : ρ) (vre vre' : VRE σ) (expectPolicies : Option ℕ),
    vre.policyRegistry = reg → vre.configurePolicies repo true expectPolicies = .ok vre' →
    ∀ later : List (PolicyRegistry.Operation σ), .clear ∉ later →
      let current := later.foldl PolicyRegistry.Operation.next vre'.policyRegistry
      ∀ source target depth, ∀ placement ∈ current.placementsFor source target depth,
        placement ∈ vre.policyRegistry.iterPlacements ∧ placementGap repo placement = .ok none

theorem enforcesValidated {σ : Type} [NameFolding] {s : PolicyRegistry.Ledger σ} (h : s.Agrees) :
    EnforcesValidated s.registry := by
  intro ρ _ repo vre vre' expectPolicies hreg hdone later hlater current source target depth
  obtain ⟨hvalid, hfrozen⟩ := validated_of_configurePolicies hdone
  have hcurrent : current = vre.policyRegistry.freeze :=
    (foldl_of_frozen (hfrozen ▸ rfl) hlater).trans hfrozen
  rw [hcurrent]
  intro placement hplacement
  have hin : placement ∈ vre.policyRegistry.iterPlacements := by
    rw [hreg] at hplacement ⊢
    exact (h.indexed.mem_placementsFor.mp hplacement).1
  exact ⟨hin, placementGap_of_validated hvalid hin⟩

end VRE

namespace PolicyRegistry

/-- After every sequence of calls the two indexes agree on what was registered since the last
clear. A call fails for three reasons only, and leaves them. A freeze makes them final until the
next clear, and what is enforced after a validating construction was validated. -/
theorem registry_lifecycle {σ : Type} [NameFolding] (ops : List (Operation σ)) :
    let s := ops.foldl Ledger.next ⟨new, []⟩
    s.registry = ops.foldl Operation.next new ∧ s.Consistent ∧ s.registry.Registers ∧
    (∀ callback decl exc reg', register callback decl s.registry = .error exc reg' →
      reg' = s.registry) ∧
    (s.registry.freeze.byKey = s.registry.byKey ∧ s.registry.freeze.byEdge = s.registry.byEdge ∧
      ∀ later : List (Operation σ), .clear ∉ later →
        later.foldl Operation.next s.registry.freeze = s.registry.freeze) ∧
    VRE.EnforcesValidated s.registry := by
  intro s
  have hagrees : s.Agrees := Ledger.agrees_foldl ops
  refine ⟨registry_foldl_next ops _, hagrees.consistent, registers _, ?_,
    ⟨rfl, rfl, fun later hlater => foldl_of_frozen rfl hlater⟩, VRE.enforcesValidated hagrees⟩
  intro callback decl exc reg' hfailed
  rcases register_cases callback decl s.registry with ⟨-, -, -, hok⟩ | ⟨-, exc', herror⟩
  · cases hok.symm.trans hfailed
  · cases herror.symm.trans hfailed
    rfl

/-- The one registration is found under its edge, in whatever case this is asked for. -/
example : letI := asciiFolding
    (confirmDelete.placementsFor "delete" "FILE" .identity).map PolicyPlacement.key =
      ["confirm_delete"] := by
  decide

end PolicyRegistry

end Vre
