import Vre.Verification.Interface.SplitReads
import Vre.Verification.Policy.Placements
import Vre.Verification.Policy.Tightening

/-! # Policies over a growing store

The checks on a grounded trace are the placements on the `APPLIES_TO` relata of the closure.
What agents learn takes none of them away, so it gets no call through that policies stopped.
-/

namespace Vre

/-! ## The checks on a grounded trace -/

namespace PolicyGate

open Tables

variable {σ : Type} [NameFolding]

/-- The placements registered on a step between two primitives of these names. -/
def stepChecks (reg : PolicyRegistry σ) (name : UUID → Option String) (step : EpistemicStep) :
    List (Check σ) :=
  if step.relationType = .appliesTo then
    (name step.sourceId).toList.flatMap fun sourceName =>
      (name step.targetId).toList.flatMap fun targetName =>
        (reg.placementsFor sourceName targetName step.sourceDepth).map fun placement =>
          (⟨sourceName, targetName, step.sourceDepth, step.targetDepth⟩, placement)
  else []

theorem stepChecks_congr (reg : PolicyRegistry σ) {name name' : UUID → Option String}
    {step : EpistemicStep} (hsource : name step.sourceId = name' step.sourceId)
    (htarget : name step.targetId = name' step.targetId) :
    stepChecks reg name step = stepChecks reg name' step := by
  rw [stepChecks, stepChecks, hsource, htarget]

/-- The gate reads a trace by its steps, when the names are those that the trace shows. -/
theorem traceChecks_eq_steps (reg : PolicyRegistry σ) {name : UUID → Option String}
    {trace : EpistemicResponse} (hsources : ∀ p ∈ trace.result.primitives, name p.id = some p.name)
    (htargets : ∀ p ∈ trace.result.primitives, ∀ d ∈ p.depths, ∀ r ∈ d.relata,
      (idToName trace).get? r.targetId = name r.targetId) :
    traceChecks reg trace =
      (trace.result.primitives.flatMap Primitive.steps).flatMap (stepChecks reg name) := by
  rw [traceChecks, List.flatMap_assoc]
  apply List.flatMap_congr
  intro p hp
  rw [Primitive.steps, List.flatMap_assoc]
  apply List.flatMap_congr
  intro d hd
  rw [List.flatMap_map]
  apply List.flatMap_congr
  intro r hr
  by_cases htype : r.relationType = .appliesTo
  · simp [edgeChecks, stepChecks, Relatum.toStep, htype, hsources p hp, htargets p hp d hd r hr]
  · simp [edgeChecks, stepChecks, Relatum.toStep, htype]

/-- A grounded trace shows the stored names, at both ends of each relatum. -/
theorem traceChecks_of_satisfied (reg : PolicyRegistry σ) {t : Tables} (h : t.Schema) {draw : Draw}
    {concepts : List String} {minDepth : Option DepthLevel}
    (hsat : (t.inquiry draw concepts minDepth).Satisfied) :
    traceChecks reg (t.inquiry draw concepts minDepth).response =
      ((t.inquiry draw concepts minDepth).response.result.primitives.flatMap
        Primitive.steps).flatMap (stepChecks reg fun id => (t.live id).map Primitive.name) := by
  have hlive : ∀ row ∈ t.primitives, (t.live row.id).map Primitive.name = some row.name := by
    intro row hrow
    rw [(live_eq_some h).mpr ⟨row, hrow, rfl, rfl⟩]
    rfl
  have hshown := GroundingEngine.primitives_of_satisfied h hsat
  apply traceChecks_eq_steps
  · intro p hp
    rw [hshown] at hp
    obtain ⟨n, hn, rfl⟩ := List.mem_map.mp hp
    obtain ⟨row, hrow, -, rfl⟩ := mem_closureNodes.mp hn
    exact hlive row hrow
  · intro p hp d hd r hr
    rw [hshown] at hp
    obtain ⟨n, -, rfl⟩ := List.mem_map.mp hp
    obtain ⟨d, -, -, rfl⟩ := GroundingEngine.mem_depths_filterNode.mp hd
    have htarget := (mem_ids_closureNodes h).mp (of_decide_eq_true (List.mem_filter.mp hr).2)
    obtain ⟨row, hrow, hid⟩ := htarget.stored h
    rw [← hid] at htarget ⊢
    rw [(GroundingEngine.name_in_trace h hsat hrow htarget).1, hlive row hrow]

/-- The gate comes to the placements on the relata of the closure. -/
theorem perm_traceChecks (reg : PolicyRegistry σ) {t : Tables} (h : t.Schema) {draw : Draw}
    {concepts : List String} {minDepth : Option DepthLevel}
    (hsat : (t.inquiry draw concepts minDepth).Satisfied) :
    (traceChecks reg (t.inquiry draw concepts minDepth).response).Perm
      (((t.closureRelata concepts).map RelatumRow.toStep).flatMap
        (stepChecks reg fun id => (t.live id).map Primitive.name)) := by
  have hapart : (t.inquiry draw concepts minDepth).Apart := by
    have hknown : (t.inquiry draw concepts minDepth).transientIds = [] := by
      rw [GroundingEngine.Inquiry.transientIds, hsat.known, List.map_nil]
    refine ⟨h.coherent concepts, ?_, ?_⟩
    · intro n _
      rw [hknown]
      exact List.not_mem_nil
    · rw [hknown]
      exact List.nodup_nil
  have hsteps := hapart.perm_steps (t.hydrated_subgraph concepts)
  rw [GroundingEngine.frontierVisible_of_satisfied h hsat] at hsteps
  rw [traceChecks_of_satisfied reg h hsat]
  exact hsteps.flatMap_right _

/-- What agents learn takes no check from a trace that stays grounded. -/
theorem subperm_traceChecks_of_grows (reg : PolicyRegistry σ) {t t' : Tables}
    (hgrows : t.Grows t') (h : t.Schema) (h' : t'.Schema) {draw draw' : Draw}
    {concepts : List String} {minDepth : Option DepthLevel}
    (hsat : (t.inquiry draw concepts minDepth).Satisfied)
    (hsat' : (t'.inquiry draw' concepts minDepth).Satisfied) :
    (traceChecks reg (t.inquiry draw concepts minDepth).response).Subperm
      (traceChecks reg (t'.inquiry draw' concepts minDepth).response) := by
  -- both ends of a relatum of the closure are stored, and keep their names
  have hnames : ((t.closureRelata concepts).map RelatumRow.toStep).flatMap
      (stepChecks reg fun id => (t.live id).map Primitive.name) =
        ((t.closureRelata concepts).map RelatumRow.toStep).flatMap
          (stepChecks reg fun id => (t'.live id).map Primitive.name) := by
    rw [List.flatMap_map, List.flatMap_map]
    apply List.flatMap_congr
    intro rel hrel
    obtain ⟨-, hsource, htarget⟩ := mem_closureRelata.mp hrel
    obtain ⟨source, hsource⟩ := exists_live (hsource.stored h)
    obtain ⟨target, htarget⟩ := exists_live (htarget.stored h)
    exact stepChecks_congr reg (hgrows.name_live hsource).symm (hgrows.name_live htarget).symm
  refine (perm_traceChecks reg h hsat).subperm.trans ?_
  rw [hnames]
  refine List.Subperm.trans ?_ (perm_traceChecks reg h' hsat').symm.subperm
  exact Subperm.flatMap _ (Subperm.map _ (hgrows.subperm_closureRelata h h' concepts))

end PolicyGate

/-! ## The context of the checks -/

namespace GroundingEngine

open Tables

variable [NameFolding]

/-- A grounded query resolves a concept to the name of its record. -/
theorem canonical_of_satisfied {t : Tables} (h : t.Schema) {draw : Draw} {concepts : List String}
    {minDepth : Option DepthLevel} (hsat : (t.inquiry draw concepts minDepth).Satisfied)
    {row : PrimitiveRow} (hrow : row ∈ t.primitives) (hnamed : row.nameLower ∈
      concepts.map foldName) :
    (OrderedDict.ofItems ((t.inquiry draw concepts minDepth).response.result.primitives.map
      fun p => (p.nameLower, p.name))).get? row.nameLower = some row.name := by
  have hinside : t.InClosure concepts row.id := Named.inClosure ⟨row, hrow, rfl, hnamed⟩
  rw [primitives_of_satisfied h hsat]
  apply OrderedDict.get?_ofItems_of_nodup
  · have hkeys : ((filterDepths (t.closureNodes concepts)).map fun p => (p.nameLower, p.name)).map
        Prod.fst = (t.closureNodes concepts).map Primitive.nameLower := by
      rw [filterDepths, List.map_map, List.map_map]
      exact List.map_congr_left fun _ _ => rfl
    exact hkeys ▸ (h.coherent concepts).nodup_names
  · apply List.mem_map.mpr
    refine ⟨_, List.mem_map_of_mem (mem_closureNodes.mpr ⟨row, hrow, hinside, rfl⟩), ?_⟩
    exact Prod.ext (h.nameLower_nodeRow concepts hrow) rfl

/-- Grounded before and after the store grew, the concepts resolve to the same names. -/
theorem resolved_of_grows {db db' : SqliteRepository} (h : db.Sound) (h' : db'.Sound)
    (hgrows : db.tables.Grows db'.tables) {draw draw' : Draw} {concepts : List String}
    {minDepth : Option DepthLevel} {r r' : GroundingResult}
    (hground : ground draw db concepts minDepth = .ok r) (hgrounded : r.grounded = true)
    (hground' : ground draw' db' concepts minDepth = .ok r') (hgrounded' : r'.grounded = true) :
    r'.resolved = r.resolved := by
  have hstrict := closureStrict_of_grounded h.2.toSchema hground hgrounded
  obtain ⟨-, rfl, hsat⟩ := satisfied_of_grounded h.2.toSchema hground hgrounded
  obtain ⟨-, rfl, hsat'⟩ := satisfied_of_grounded h'.2.toSchema hground' hgrounded'
  apply List.map_congr_left
  intro c hc
  obtain ⟨row, hrow, hname⟩ := hstrict.stored c hc
  obtain ⟨row', hrow', -, hsame⟩ :=
    hgrows.exists_named_row h.2.toSchema h'.2.toSchema hrow
  have hname' : row'.nameLower = foldName c := by
    rw [h'.2.toSchema.folded row' hrow', hsame, ← h.2.toSchema.folded row hrow, hname]
  have hget := canonical_of_satisfied h.2.toSchema hsat hrow
    (hname ▸ List.mem_map_of_mem hc)
  have hget' := canonical_of_satisfied h'.2.toSchema hsat' hrow'
    (hname' ▸ List.mem_map_of_mem hc)
  rw [hname] at hget
  rw [hname', hsame] at hget'
  simp only [hget, hget']

end GroundingEngine

/-- The context that callbacks see depends on the result by its resolved names alone. -/
theorem VRE.fromGrounding_stampIdentity {σ : Type} (vre : VRE σ) {r r' : GroundingResult}
    (hagent : r'.agentId = r.agentId) (hresolved : r'.resolved = r.resolved) :
    GroundingContext.fromGrounding (vre.stampIdentity r') =
      GroundingContext.fromGrounding (vre.stampIdentity r) := by
  unfold stampIdentity
  rw [hagent]
  cases vre.agentId <;> cases hnone : r.agentId <;>
    simp [GroundingContext.fromGrounding, hagent, hresolved, hnone]

/-! ## Guards -/

namespace Guard

section

variable {σ R : Type}

/-- `on_trace` leaves the integrator's state. -/
def Observes (guard : Guard σ R) : Prop :=
  ∀ result s, guard.notifyTrace result s = .ok () s

variable [NameFolding]

/-- What may run over a store that has grown may run over the store from before. -/
theorem permits_of_grows {guard : Guard σ R} (hreg : guard.vre.policyRegistry.Indexed)
    (hstateless : guard.vre.policyRegistry.Stateless) (hindulgent : Indulgent guard.onPolicy)
    (hobserves : guard.Observes) {db db' : SqliteRepository} (h : db.Sound) (h' : db'.Sound)
    (hgrows : db.tables.Grows db'.tables) {call : CallArgs} {s s₁ : σ} {concepts : List String}
    (hconcepts : guard.concepts.resolve call s = .ok concepts s₁) {earlier later : Draw}
    {r : GroundingResult}
    (hground : GroundingEngine.ground earlier db concepts guard.minDepth = .ok r)
    (hgrounded : r.grounded = true) {calls : List CallArgs}
    (hpermits : guard.Permits later call ⟨db', s, calls⟩) :
    guard.Permits earlier call ⟨db, s, calls⟩ := by
  obtain ⟨result, cardinality, s₂, trace, violations, s', hgrounds, htrace, hsweep, hconsents⟩ :=
    hpermits
  obtain ⟨concepts', _, repo, _, hconcepts', hcheck, hgrounded', hnotify, hcardinality⟩ := hgrounds
  cases hconcepts.symm.trans hconcepts'
  cases (hobserves result s₁).symm.trans hnotify
  obtain ⟨r', hground', rfl⟩ := VRE.check_ok hcheck
  rw [VRE.grounded_stampIdentity] at hgrounded'
  have hcontext : GroundingContext.fromGrounding (guard.vre.stampIdentity r') =
      GroundingContext.fromGrounding (guard.vre.stampIdentity r) := by
    apply VRE.fromGrounding_stampIdentity
    · obtain ⟨-, rfl, -⟩ := GroundingEngine.satisfied_of_grounded h.2.toSchema hground hgrounded
      obtain ⟨-, rfl, -⟩ :=
        GroundingEngine.satisfied_of_grounded h'.2.toSchema hground' hgrounded'
      rfl
    · exact GroundingEngine.resolved_of_grows h h' hgrows hground hgrounded hground' hgrounded'
  rw [h.eq_idle] at hground ⊢
  obtain ⟨t, hcheck', -⟩ := guard.vre.check_eq earlier hground
  rw [← h.eq_idle] at hground hcheck' ⊢
  obtain ⟨-, rfl, hsat⟩ := GroundingEngine.satisfied_of_grounded h.2.toSchema hground hgrounded
  obtain ⟨-, rfl, hsat'⟩ :=
    GroundingEngine.satisfied_of_grounded h'.2.toSchema hground' hgrounded'
  rw [VRE.trace_stampIdentity] at htrace
  cases htrace
  have hfewer := PolicyGate.subperm_traceChecks_of_grows guard.vre.policyRegistry hgrows
    h.2.toSchema h'.2.toSchema hsat hsat'
  obtain ⟨found, hsweep', hconsents'⟩ := hindulgent.consents_of_fewer hfewer
    (fun check hcheck =>
      hstateless check.2 (PolicyGate.registered_of_mem_traceChecks hreg hcheck))
    hsweep hconsents
  rw [hcontext] at hsweep'
  refine ⟨_, cardinality, s₂, _, found, s₂, ⟨concepts, s₁, _, s₁, hconcepts, hcheck', ?_,
    hobserves _ s₁, hcardinality⟩, VRE.trace_stampIdentity _ _, hsweep', hconsents'⟩
  exact (VRE.grounded_stampIdentity _ _).trans hgrounded

/-- Learning gets no call through: when the concepts of a call were grounded, and its body runs
after agents have checked and learned, it would have run before. -/
theorem ran_before_learning {τ : Type} (guard : Guard σ R)
    (hreg : guard.vre.policyRegistry.Built) (hstateless : guard.vre.policyRegistry.Stateless)
    (hindulgent : Indulgent guard.onPolicy) (hobserves : guard.Observes)
    {db : SqliteRepository} (h : db.Sound) (agents : VRE τ) {requests : List Request}
    (hadds : Runs.EveryStep (Request.step agents) Request.Additive db requests)
    {call : CallArgs} {s s₁ : σ} {concepts : List String}
    (hconcepts : guard.concepts.resolve call s = .ok concepts s₁) {earlier later : Draw}
    {r : GroundingResult}
    (hground : GroundingEngine.ground earlier db concepts guard.minDepth = .ok r)
    (hgrounded : r.grounded = true) (calls : List CallArgs)
    (hruns : (Action.after (guard.wrapped later call
      (⟨Request.serve agents db requests, s, calls⟩ : World SqliteRepository σ))).bodyCalls =
        calls ++ [call]) :
    (Action.after (guard.wrapped earlier call
      (⟨db, s, calls⟩ : World SqliteRepository σ))).bodyCalls = calls ++ [call] := by
  obtain ⟨hsound, hgrows⟩ := Request.serve_additive agents h hadds
  apply bodyCalls_of_permits hreg.indexed
  apply permits_of_grows hreg.indexed hstateless hindulgent hobserves h hsound hgrows hconcepts
    hground hgrounded
  exact permits_of_ran hreg.indexed hruns

end

/-- No handler confirms the deletion, whatever has been learned. -/
theorem ran_before_learning_unconfirmed : letI := asciiFolding
    (Action.after ((deleteGuard none).wrapped ⟨fun i => i + 20, 0⟩ ⟨[], []⟩
      (⟨Request.serve (⟨.new, none⟩ : VRE Unit) deleteFile
        [.learn (LearningEngine.fillAndCreate false), .check ⟨fun i => i + 20, 0⟩ ["notes"] none],
        (), []⟩ : World SqliteRepository Unit))).bodyCalls ≠ [] ++ [⟨[], []⟩] := by
  let _ := asciiFolding
  have hsound : deleteFile.Sound := Operation.sound_foldl _
  have hground := GroundingEngine.ground_eq hsound.2.toSchema ⟨fun i => i + 5, 0⟩
    (List.cons_ne_nil "delete" ["file"]) none
  have hgrounded : (deleteFile.tables.inquiry ⟨fun i => i + 5, 0⟩ ["delete", "file"]
      none).result.grounded = true := by decide +kernel
  have hstopped : (Action.after ((deleteGuard none).wrapped ⟨fun i => i + 5, 0⟩ ⟨[], []⟩
      (⟨deleteFile, (), []⟩ : World SqliteRepository Unit))).bodyCalls ≠ [] ++ [⟨[], []⟩] := by
    decide +kernel
  have hadds : Runs.EveryStep (Request.step (⟨.new, none⟩ : VRE Unit)) Request.Additive deleteFile
      [.learn (LearningEngine.fillAndCreate false),
        .check ⟨fun i => i + 20, 0⟩ ["notes"] none] := by
    simp only [Runs.EveryStep, Request.Additive, Tables.stored_iff_mem]
    decide +kernel
  have hindulgent : Indulgent (deleteGuard none).onPolicy := by
    intro handler hhandler
    cases hhandler
  intro hruns
  apply hstopped
  exact ran_before_learning (deleteGuard none) built_confirmDelete stateless_confirmDelete
    hindulgent (fun _ _ => rfl) hsound (⟨.new, none⟩ : VRE Unit) hadds rfl hground hgrounded []
    hruns

end Guard

end Vre
