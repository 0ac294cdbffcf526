import Vre.Verification.Policy.Gate

/-! # Validated placements are enforced

A placement is validated against the stored graph and enforced on the trace of a check. The
trace of a grounded check is the whole closure, so nothing that was validated is lost on the
way.
-/

namespace Vre

namespace GroundingEngine

open Tables

/-! ## The trace of a satisfied query -/

/-- The trace shows a primitive of the closure under its stored name. -/
theorem name_in_trace [NameFolding] {t : Tables} (h : t.Schema) {draw : Draw}
    {concepts : List String} {minDepth : Option DepthLevel}
    (hsat : (t.inquiry draw concepts minDepth).Satisfied) {row : PrimitiveRow}
    (hrow : row ∈ t.primitives) (hinside : t.InClosure concepts row.id) :
    (PolicyGate.idToName (t.inquiry draw concepts minDepth).response).get? row.id =
        some row.name ∧
      ∀ p ∈ (t.inquiry draw concepts minDepth).response.result.primitives, p.id = row.id →
        p.name = row.name := by
  rw [PolicyGate.idToName, primitives_of_satisfied h hsat]
  constructor
  · refine OrderedDict.get?_ofItems_of_nodup ?_ (List.mem_map.mpr ⟨_, List.mem_map_of_mem
      (mem_closureNodes.mpr ⟨row, hrow, hinside, rfl⟩), rfl⟩)
    have hids : ((filterDepths (t.closureNodes concepts)).map fun p => (p.id, p.name)).map
        Prod.fst = (t.closureNodes concepts).map Primitive.id := by
      simp [filterDepths, Function.comp_def]
    exact hids ▸ (h.coherent concepts).nodup_ids
  · intro p hp hid
    obtain ⟨n, hn, rfl⟩ := List.mem_map.mp hp
    obtain ⟨row', hrow', -, rfl⟩ := mem_closureNodes.mp hn
    cases h.row_unique hrow' hrow hid
    rfl

/-- Inside the closure of a satisfied query, every stored relatum is in the trace. -/
theorem relatum_in_trace [NameFolding] {t : Tables} (h : t.Schema) {draw : Draw}
    {concepts : List String} {minDepth : Option DepthLevel}
    (hsat : (t.inquiry draw concepts minDepth).Satisfied) {rel : RelatumRow}
    (hrel : rel ∈ t.relata) (hsource : t.InClosure concepts rel.sourceId)
    (htarget : t.InClosure concepts rel.targetId) :
    ∃ p ∈ (t.inquiry draw concepts minDepth).response.result.primitives, p.id = rel.sourceId ∧
      ∃ d ∈ p.depths, d.level = rel.sourceDepth ∧ rel.toRelatum ∈ d.relata := by
  rw [primitives_of_satisfied h hsat]
  obtain ⟨row, hrow, hid⟩ := hsource.stored h
  have hnode := mem_closureNodes.mpr ⟨row, hrow, hid ▸ hsource, rfl⟩
  have hmeets : Meets (t.nodeRow concepts row).contiguousMaxDepth rel.sourceDepth := by
    have hmet := (((satisfied_iff h).mp hsat).2.1 rel hrel hsource htarget).1
    rw [← hid] at hmet
    rwa [← (h.coherent concepts).depthAt_eq hnode]
  obtain ⟨d, hd, -, hlevel⟩ := mem_groundingLevels.mp
    (meets_contiguousMaxDepth.mp hmeets rel.sourceDepth le_rfl)
  have hshown : rel.toRelatum ∈ d.relata := by
    rw [relata_of_mem_load hd, mem_relataAt]
    exact ⟨rel, mem_inner.mpr ⟨hrel, hid.symm, htarget⟩, hlevel.symm, rfl⟩
  have hkept : rel.targetId ∈ (t.closureNodes concepts).map Primitive.id := by
    obtain ⟨target, hstored, hid'⟩ := htarget.stored h
    exact List.mem_map.mpr ⟨_, mem_closureNodes.mpr ⟨target, hstored, hid' ▸ htarget, rfl⟩, hid'⟩
  refine ⟨_, List.mem_map_of_mem hnode, hid, _, mem_depths_filterNode.mpr
    ⟨d, hd, hlevel ▸ hmeets, rfl⟩, hlevel, List.mem_filter.mpr ⟨hshown, ?_⟩⟩
  exact decide_eq_true hkept

end GroundingEngine

/-! ## Validation -/

namespace VRE

/-- The stored edge that a placement was validated against. -/
def GuardsEdge [NameFolding] {σ : Type} (t : Tables) (placement : PolicyPlacement σ)
    (rel : RelatumRow) : Prop :=
  rel ∈ t.relata ∧ rel.relType = .appliesTo ∧ rel.sourceDepth = placement.sourceDepth ∧
    (∃ row ∈ t.primitives, row.id = rel.sourceId ∧ row.nameLower = foldName placement.source) ∧
    ∃ row ∈ t.primitives, row.id = rel.targetId ∧ row.nameLower = foldName placement.target

theorem mem_of_hasAppliesToEdge {source : Primitive} {targetId : UUID} {depth : DepthLevel}
    (h : hasAppliesToEdge source targetId depth = true) :
    ∃ d ∈ source.depths, d.level = depth ∧ ∃ r ∈ d.relata, r.relationType = .appliesTo ∧
      r.targetId = targetId := by
  simpa [hasAppliesToEdge, and_assoc] using h

/-- A placement without a gap has its edge in the store. -/
theorem guardsEdge_of_placementGap [NameFolding] {σ : Type} {db : SqliteRepository}
    (h : db.tables.Schema) {placement : PolicyPlacement σ}
    (hgap : placementGap db placement = .ok none) :
    ∃ rel, GuardsEdge db.tables placement rel := by
  unfold placementGap at hgap
  obtain ⟨source, hsource, hgap⟩ := Loops.except_bind_ok.mp hgap
  obtain ⟨target, htarget, hgap⟩ := Loops.except_bind_ok.mp hgap
  cases Except.ok.inj ((findByName_eq h placement.source).symm.trans hsource)
  cases Except.ok.inj ((findByName_eq h placement.target).symm.trans htarget)
  cases hs : db.tables.named placement.source with
  | none =>
      rw [hs] at hgap
      cases hgap
  | some source =>
      cases ht : db.tables.named placement.target with
      | none =>
          rw [hs, ht] at hgap
          cases hgap
      | some target =>
          rw [hs, ht] at hgap
          dsimp only at hgap
          split at hgap
          · rename_i hedge
            obtain ⟨srow, hsrow, hsname, rfl⟩ := (Tables.named_eq_some h).mp hs
            obtain ⟨trow, htrow, htname, rfl⟩ := (Tables.named_eq_some h).mp ht
            obtain ⟨d, hd, hlevel, r, hr, htype, hid⟩ := mem_of_hasAppliesToEdge hedge
            rw [relata_of_mem_load hd, mem_relataAt] at hr
            obtain ⟨rel, hrel, hdepth, rfl⟩ := hr
            obtain ⟨hmem, hsid⟩ := Tables.mem_outgoing.mp hrel
            exact ⟨rel, hmem, htype, hdepth.trans hlevel, ⟨srow, hsrow, hsid.symm, hsname⟩,
              trow, htrow, hid.symm, htname⟩
          · cases hgap

/-- When validation finds no orphan, no placement has a gap. -/
theorem placementGap_of_validated {ρ σ : Type} [Repository ρ] {vre : VRE σ} {repo : ρ}
    (hvalid : vre.validatePolicyPlacements repo = .ok []) {placement : PolicyPlacement σ}
    (hplacement : placement ∈ vre.policyRegistry.iterPlacements) :
    placementGap repo placement = .ok none := by
  unfold validatePolicyPlacements at hvalid
  obtain ⟨orphans, hloop, hnone⟩ := Loops.except_bind_ok.mp hvalid
  have hall := List.filterMap_eq_nil_iff.mp (Except.ok.inj hnone)
  obtain ⟨orphan, hmem, hbody⟩ := Loops.except_mapM_ok hloop placement hplacement
  obtain ⟨reason, hgap, horphan⟩ := Loops.except_bind_ok.mp hbody
  cases reason with
  | none => exact hgap
  | some reason =>
      cases horphan
      cases hall _ hmem

end VRE

/-! ## Enforcement -/

namespace PolicyGate

/-- The gate comes to the placement, on an edge that carries its names at its depth: the
cardinality excludes it, or its callback, run in the state that the checks before it left,
passes the call, or a violation carries its policy. -/
def Considered {σ : Type} [NameFolding] (reg : PolicyRegistry σ) (trace : EpistemicResponse)
    (cardinality : Option Cardinality) (toolCall : Option ToolCallContext)
    (grounding : GroundingContext) (world : σ) (violations : List PolicyViolation)
    (placement : PolicyPlacement σ) : Prop :=
  ∃ edge before after found w,
    traceChecks reg trace = before ++ (edge, placement) :: after ∧
    foldName edge.sourceName = foldName placement.source ∧
    foldName edge.targetName = foldName placement.target ∧
    edge.sourceDepth = placement.sourceDepth ∧
    Sweep cardinality toolCall grounding before world found w ∧
    ((∃ given trigger, cardinality = some given ∧
        placement.policy.triggerCardinality = some trigger ∧ trigger ≠ given) ∨
      (∃ w', Passes toolCall grounding (edge, placement) w w') ∨
      ∃ v ∈ violations, v.policy = placement.policy)

/-- A sweep over a list comes to each check of the list. -/
theorem Sweep.split {σ : Type} {cardinality : Option Cardinality}
    {toolCall : Option ToolCallContext} {grounding : GroundingContext}
    {before after : List (Check σ)} {check : Check σ} {world world' : σ}
    {violations : List PolicyViolation}
    (h : Sweep cardinality toolCall grounding (before ++ check :: after) world violations world') :
    ∃ found w, Sweep cardinality toolCall grounding before world found w ∧
      (cardinalityExcludes check.2.policy cardinality = true ∨
        (∃ w', Passes toolCall grounding check w w') ∨
        ∃ v ∈ violations, v.policy = check.2.policy) := by
  induction before generalizing world violations with
  | nil =>
      cases h with
      | cons hcheck _ =>
          refine ⟨[], world, .nil, ?_⟩
          cases hcheck with
          | excluded hexcluded => exact Or.inl hexcluded
          | passed _ hpass => exact Or.inr (Or.inl ⟨_, hpass⟩)
          | fired =>
              exact Or.inr (Or.inr ⟨_, List.mem_append_left _ (List.mem_singleton.mpr rfl), rfl⟩)
  | cons first rest ih =>
      cases h with
      | cons hcheck hrest =>
          obtain ⟨found, w, hsweep, hwhy⟩ := ih hrest
          refine ⟨_, w, .cons hcheck hsweep, hwhy.imp_right (Or.imp_right ?_)⟩
          rintro ⟨v, hv, hpolicy⟩
          exact ⟨v, List.mem_append_right _ hv, hpolicy⟩

/-- A relatum of the trace is checked against every placement on its edge. -/
theorem mem_traceChecks {σ : Type} [NameFolding] {reg : PolicyRegistry σ} (hreg : reg.Indexed)
    {trace : EpistemicResponse} {p : Primitive} (hp : p ∈ trace.result.primitives) {d : Depth}
    (hd : d ∈ p.depths) {r : Relatum} (hr : r ∈ d.relata) (htype : r.relationType = .appliesTo)
    {targetName : String} (htarget : (idToName trace).get? r.targetId = some targetName)
    {placement : PolicyPlacement σ} (hplacement : placement ∈ reg.iterPlacements)
    (hsourceName : foldName placement.source = foldName p.name)
    (htargetName : foldName placement.target = foldName targetName)
    (hdepth : placement.sourceDepth = d.level) :
    (⟨p.name, targetName, d.level, r.targetDepth⟩, placement) ∈ traceChecks reg trace := by
  refine List.mem_flatMap.mpr ⟨p, hp, List.mem_flatMap.mpr ⟨d, hd, ?_⟩⟩
  refine List.mem_flatMap.mpr ⟨r, hr, ?_⟩
  rw [edgeChecks, if_pos htype, htarget]
  refine List.mem_flatMap.mpr ⟨targetName, by simp, List.mem_map_of_mem ?_⟩
  exact hreg.mem_placementsFor.mpr ⟨hplacement, hsourceName, htargetName, hdepth⟩

end PolicyGate

namespace VRE

/-- On the trace of a grounded check the edge of a placement is met. -/
theorem exists_check [NameFolding] {σ : Type} {reg : PolicyRegistry σ} (hreg : reg.Indexed)
    {t : Tables} (h : t.Schema) {draw : Draw} {concepts : List String}
    {minDepth : Option DepthLevel} (hsat : (t.inquiry draw concepts minDepth).Satisfied)
    {placement : PolicyPlacement σ} (hplacement : placement ∈ reg.iterPlacements)
    {rel : RelatumRow} (hedge : GuardsEdge t placement rel)
    (hsource : foldName placement.source ∈ concepts.map foldName)
    (htarget : foldName placement.target ∈ concepts.map foldName) :
    ∃ edge, (edge, placement) ∈
        PolicyGate.traceChecks reg (t.inquiry draw concepts minDepth).response ∧
      foldName edge.sourceName = foldName placement.source ∧
      foldName edge.targetName = foldName placement.target ∧
      edge.sourceDepth = placement.sourceDepth := by
  obtain ⟨hrel, htype, hdepth, ⟨srow, hsrow, hsid, hsname⟩, trow, htrow, htid, htname⟩ := hedge
  have hsourceIn : t.InClosure concepts rel.sourceId :=
    Tables.Named.inClosure ⟨srow, hsrow, hsid, hsname ▸ hsource⟩
  have htargetIn : t.InClosure concepts rel.targetId :=
    Tables.Named.inClosure ⟨trow, htrow, htid, htname ▸ htarget⟩
  obtain ⟨p, hp, hpid, d, hd, hlevel, hr⟩ :=
    GroundingEngine.relatum_in_trace h hsat hrel hsourceIn htargetIn
  have hpname := (GroundingEngine.name_in_trace h hsat hsrow (hsid ▸ hsourceIn)).2 p hp
    (hpid.trans hsid.symm)
  have htname' := (GroundingEngine.name_in_trace h hsat htrow (htid ▸ htargetIn)).1
  have hsfold : foldName p.name = foldName placement.source :=
    (congrArg foldName hpname).trans ((h.folded srow hsrow).symm.trans hsname)
  have htfold : foldName trow.name = foldName placement.target :=
    (h.folded trow htrow).symm.trans htname
  rw [htid] at htname'
  have hcheck := PolicyGate.mem_traceChecks hreg hp hd hr htype htname' hplacement hsfold.symm
    htfold.symm (hdepth.symm.trans hlevel.symm)
  exact ⟨_, hcheck, hsfold, htfold, hlevel.trans hdepth⟩

/-- On the trace of any check the gate returns; on the trace of a grounded check it comes to
every validated placement whose source and target were named. The trace of a grounded check
shows every stored `APPLIES_TO` relatum of the closure. -/
theorem check_enforces_placements [NameFolding] {σ : Type} {vre : VRE σ}
    (hreg : vre.policyRegistry.Built) {db db' : SqliteRepository} (h : db.tables.Schema)
    {draw : Draw} {concepts : List String} {minDepth : Option DepthLevel}
    {result : GroundingResult}
    (hcheck : vre.check draw concepts minDepth db = .ok result db') :
    ∃ trace, result.trace = some trace ∧
      (∀ cardinality toolCall grounding world, ∃ violations world',
        PolicyGate.evaluate vre.policyRegistry trace cardinality toolCall grounding world =
          .ok violations world' ∧
        (result.grounded = true → vre.validatePolicyPlacements db = .ok [] →
          ∀ placement ∈ vre.policyRegistry.iterPlacements,
            foldName placement.source ∈ concepts.map foldName →
            foldName placement.target ∈ concepts.map foldName →
            PolicyGate.Considered vre.policyRegistry trace cardinality toolCall grounding world
              violations placement)) ∧
      (result.grounded = true → ∀ rel ∈ db.tables.relata, rel.relType = .appliesTo →
        db.tables.InClosure concepts rel.sourceId → db.tables.InClosure concepts rel.targetId →
        ∃ p ∈ trace.result.primitives, p.id = rel.sourceId ∧
          ∃ d ∈ p.depths, d.level = rel.sourceDepth ∧ rel.toRelatum ∈ d.relata) := by
  obtain ⟨trace, htrace, hclosed⟩ := closed_of_check hcheck
  obtain ⟨verdict, hground, rfl⟩ := check_ok hcheck
  rw [trace_stampIdentity] at htrace
  simp only [trace_stampIdentity, grounded_stampIdentity]
  refine ⟨trace, htrace, fun cardinality toolCall grounding world => ?_, ?_⟩
  · obtain ⟨violations, world', hrun, hsweep⟩ :=
      PolicyGate.evaluate_sweep hreg.indexed hclosed cardinality toolCall grounding world
    refine ⟨violations, world', hrun, ?_⟩
    intro hgrounded hvalid placement hplacement hsource htarget
    obtain ⟨-, rfl, hsat⟩ := GroundingEngine.satisfied_of_grounded h hground hgrounded
    cases htrace
    obtain ⟨rel, hedge⟩ := guardsEdge_of_placementGap h
      (placementGap_of_validated hvalid hplacement)
    obtain ⟨edge, hmem, hsourceName, htargetName, hdepth⟩ :=
      exists_check hreg.indexed h hsat hplacement hedge hsource htarget
    obtain ⟨before, after, hsplit⟩ := List.append_of_mem hmem
    obtain ⟨found, w, hbefore, hwhy⟩ := PolicyGate.Sweep.split (hsplit ▸ hsweep)
    rw [PolicyGate.cardinalityExcludes_iff] at hwhy
    exact ⟨edge, before, after, found, w, hsplit, hsourceName, htargetName, hdepth, hbefore, hwhy⟩
  · intro hgrounded rel hrel _ hsource htarget
    obtain ⟨-, rfl, hsat⟩ := GroundingEngine.satisfied_of_grounded h hground hgrounded
    cases htrace
    exact GroundingEngine.relatum_in_trace h hsat hrel hsource htarget

/-- The policy on `Delete` and `File` is validated, so a grounded check of both comes to it. -/
theorem check_enforces_placements_deleteFile : letI := asciiFolding
    ∃ result trace violations world', result.trace = some trace ∧
      (⟨confirmDelete, none⟩ : VRE Unit).check ⟨fun i => i, 0⟩ ["delete", "file"] none deleteFile =
        .ok result world' ∧
      PolicyGate.evaluate confirmDelete trace none none ⟨none, []⟩ () = .ok violations () ∧
      ∀ placement ∈ confirmDelete.iterPlacements, PolicyGate.Considered confirmDelete trace none
        none ⟨none, []⟩ () violations placement := by
  let _ := asciiFolding
  have hsound : deleteFile.Sound := Operation.sound_foldl _
  let vre : VRE Unit := ⟨confirmDelete, none⟩
  have hchecked : ∃ result world', vre.check ⟨fun i => i, 0⟩ ["delete", "file"] none deleteFile =
      .ok result world' ∧ result.grounded = true := by
    have hne : ["delete", "file"] ≠ [] := by decide
    have hground := GroundingEngine.ground_eq hsound.2.toSchema ⟨fun i => i, 0⟩ hne none
    rw [hsound.eq_idle] at hground ⊢
    obtain ⟨t', hcheck, -⟩ := vre.check_eq _ hground
    refine ⟨_, _, hcheck, ?_⟩
    rw [grounded_stampIdentity]
    decide +kernel
  obtain ⟨result, world', hcheck, hgrounded⟩ := hchecked
  have hbuilt : vre.policyRegistry.Built := built_confirmDelete
  obtain ⟨trace, htrace, hgate, -⟩ := check_enforces_placements hbuilt hsound.2.toSchema hcheck
  obtain ⟨violations, w, hrun, hall⟩ := hgate none none ⟨none, []⟩ ()
  have hvalid : vre.validatePolicyPlacements deleteFile = .ok [] := by decide +kernel
  have hnamed : ∀ placement ∈ confirmDelete.iterPlacements,
      foldName placement.source ∈ ["delete", "file"].map foldName ∧
        foldName placement.target ∈ ["delete", "file"].map foldName := by decide +kernel
  refine ⟨result, trace, violations, world', htrace, hcheck, hrun, fun placement hp => ?_⟩
  exact hall hgrounded hvalid placement hp (hnamed placement hp).1 (hnamed placement hp).2

end VRE

end Vre
