import Vre.Library.Loops
import Vre.Verification.Grounding.Envelope
import Vre.Verification.Policy.Registry

/-! # The policy gate

The gate as one pass over a flat list of checks: each `APPLIES_TO` relatum of the trace with
each placement registered on it, in the order of the trace. The pass is specified by what
each callback does in the state that the callbacks before it left.
-/

namespace Vre

namespace PolicyGate

/-! ## The checks of a trace -/

/-- A placement on an edge of the trace. -/
abbrev Check (σ : Type) := TriggeringEdge × PolicyPlacement σ

/-- `id_to_name`. -/
def idToName (trace : EpistemicResponse) : OrderedDict UUID String :=
  OrderedDict.ofItems (trace.result.primitives.map fun p => (p.id, p.name))

/-- The placements registered on one relatum of the trace. -/
def edgeChecks {σ : Type} [NameFolding] (reg : PolicyRegistry σ) (trace : EpistemicResponse)
    (p : Primitive) (d : Depth) (r : Relatum) : List (Check σ) :=
  if r.relationType = .appliesTo then
    ((idToName trace).get? r.targetId).toList.flatMap fun targetName =>
      (reg.placementsFor p.name targetName d.level).map fun placement =>
        (⟨p.name, targetName, d.level, r.targetDepth⟩, placement)
  else []

/-- Every check of a trace, in order. -/
def traceChecks {σ : Type} [NameFolding] (reg : PolicyRegistry σ) (trace : EpistemicResponse) :
    List (Check σ) :=
  trace.result.primitives.flatMap fun p => p.depths.flatMap fun d =>
    d.relata.flatMap (edgeChecks reg trace p d)

/-! ## One pass -/

/-- A policy is left out when its cardinality and that of the call are known and differ. -/
theorem cardinalityExcludes_iff {policy : Policy} {cardinality : Option Cardinality} :
    cardinalityExcludes policy cardinality = true ↔ ∃ given trigger, cardinality = some given ∧
      policy.triggerCardinality = some trigger ∧ trigger ≠ given := by
  unfold cardinalityExcludes
  cases cardinality <;> cases policy.triggerCardinality <;> simp

section Pass

variable {σ : Type} (cardinality : Option Cardinality) (toolCall : Option ToolCallContext)
  (grounding : GroundingContext)

/-- The callback of the check was run on the tool call, and it returned a
`PolicyCallbackResult` with `passed=True`. -/
def Passes (check : Check σ) (world world' : σ) : Prop :=
  ∃ call r, toolCall = some call ∧ r.passed = true ∧
    check.2.callback.call ⟨call, grounding, check.1, check.2.policy⟩ world = .ok (.result r) world'

/-- What one check comes to. -/
inductive Verdict (check : Check σ) : σ → Option PolicyViolation → σ → Prop where
  | excluded {world} (h : cardinalityExcludes check.2.policy cardinality = true) :
      Verdict check world none world
  | passed {world world'} (h : cardinalityExcludes check.2.policy cardinality = false)
      (hpass : Passes toolCall grounding check world world') : Verdict check world none world'
  | fired {world world' r} (h : cardinalityExcludes check.2.policy cardinality = false)
      (hfail : ∀ world', ¬ Passes toolCall grounding check world world')
      (hrun : evaluateCallback check.2.callback check.2.policy check.1 toolCall grounding world =
        .ok r world') : Verdict check world (some ⟨check.2.policy, some r⟩) world'

/-- The violations of a list of checks, each callback run in the state the last one left. -/
inductive Sweep : List (Check σ) → σ → List PolicyViolation → σ → Prop where
  | nil {world} : Sweep [] world [] world
  | cons {check rest world world' world'' violation violations}
      (hcheck : Verdict cardinality toolCall grounding check world violation world')
      (hrest : Sweep rest world' violations world'') :
      Sweep (check :: rest) world (violation.toList ++ violations) world''

/-- A callback never makes its evaluation fail: it is its result that counts, or what stands
in for a result when there is none. -/
theorem evaluateCallback_cases (check : Check σ) (world : σ) :
    (∃ call r world', toolCall = some call ∧
      check.2.callback.call ⟨call, grounding, check.1, check.2.policy⟩ world =
        .ok (.result r) world' ∧
      evaluateCallback check.2.callback check.2.policy check.1 toolCall grounding world =
        .ok r world') ∨
    ((∀ world', ¬ Passes toolCall grounding check world world') ∧ ∃ message world',
      evaluateCallback check.2.callback check.2.policy check.1 toolCall grounding world =
        .ok (.unevaluable message) world') := by
  unfold evaluateCallback
  dsimp only
  cases toolCall with
  | none => exact Or.inr ⟨fun _ ⟨_, _, hcall, _⟩ => (nomatch hcall), _, _, rfl⟩
  | some call =>
      dsimp only
      split
      · rename_i r world' hrun
        exact Or.inl ⟨call, r, world', rfl, hrun, rfl⟩
      · rename_i typeName world' hrun
        refine Or.inr ⟨fun w ⟨call', r, hcall, _, hrun'⟩ => ?_, _, _, rfl⟩
        cases hcall
        cases hrun.symm.trans hrun'
      · rename_i exc world' hrun
        refine Or.inr ⟨fun w ⟨call', r, hcall, _, hrun'⟩ => ?_, _, _, rfl⟩
        cases hcall
        cases hrun.symm.trans hrun'

/-- The result of an evaluation passes exactly when the callback passed the call. -/
theorem passed_iff {check : Check σ} {world world' : σ} {r : PolicyCallbackResult}
    (h : evaluateCallback check.2.callback check.2.policy check.1 toolCall grounding world =
      .ok r world') :
    (r.passed = true → Passes toolCall grounding check world world') ∧
      (r.passed = false → ∀ world', ¬ Passes toolCall grounding check world world') := by
  rcases evaluateCallback_cases toolCall grounding check world with
    ⟨call, r', w, hcall, hrun, heq⟩ | ⟨hnever, message, w, heq⟩
  · cases h.symm.trans heq
    refine ⟨fun hpass => ⟨call, r, hcall, hpass, hrun⟩, ?_⟩
    rintro hfail w' ⟨call', r', hcall', hpass, hrun'⟩
    cases hcall.symm.trans hcall'
    cases hrun.symm.trans hrun'
    rw [hfail] at hpass
    cases hpass
  · cases h.symm.trans heq
    exact ⟨fun hpass => (nomatch hpass), fun _ => hnever⟩

/-- The innermost loop body returns a verdict. -/
theorem placementViolation_verdict (check : Check σ) (world : σ) : ∃ violation world',
    placementViolation cardinality toolCall grounding check world = .ok violation world' ∧
      Verdict cardinality toolCall grounding check world violation world' := by
  unfold placementViolation
  cases hexcluded : cardinalityExcludes check.2.policy cardinality with
  | true => exact ⟨none, world, rfl, .excluded hexcluded⟩
  | false =>
      have hok : ∃ r world', evaluateCallback check.2.callback check.2.policy check.1 toolCall
          grounding world = .ok r world' := by
        rcases evaluateCallback_cases toolCall grounding check world with
          ⟨_, r, world', _, _, heq⟩ | ⟨_, _, world', heq⟩
        · exact ⟨r, world', heq⟩
        · exact ⟨_, world', heq⟩
      obtain ⟨r, world', hrun⟩ := hok
      obtain ⟨hpass, hfail⟩ := passed_iff toolCall grounding hrun
      simp only [Bool.false_eq_true, if_false]
      rw [Loops.bind_of_ok hrun]
      cases hpassed : r.passed with
      | true => exact ⟨none, world', rfl, .passed hexcluded (hpass hpassed)⟩
      | false => exact ⟨_, world', rfl, .fired hexcluded (hfail hpassed) hrun⟩

/-- A check has one verdict. -/
theorem Verdict.unique {check : Check σ} {world w w' : σ} {v v' : Option PolicyViolation}
    (h : Verdict cardinality toolCall grounding check world v w)
    (h' : Verdict cardinality toolCall grounding check world v' w') : v = v' ∧ w = w' := by
  cases h with
  | excluded hexcluded =>
      cases h' with
      | excluded => exact ⟨rfl, rfl⟩
      | passed hnot => rw [hexcluded] at hnot; cases hnot
      | fired hnot => rw [hexcluded] at hnot; cases hnot
  | passed hnot hpass =>
      cases h' with
      | excluded hexcluded => rw [hexcluded] at hnot; cases hnot
      | passed _ hpass' =>
          obtain ⟨call, r, hcall, -, hrun⟩ := hpass
          obtain ⟨call', r', hcall', -, hrun'⟩ := hpass'
          cases hcall.symm.trans hcall'
          cases hrun.symm.trans hrun'
          exact ⟨rfl, rfl⟩
      | fired _ hfail => exact absurd hpass (hfail _)
  | fired hnot hfail hrun =>
      cases h' with
      | excluded hexcluded => rw [hexcluded] at hnot; cases hnot
      | passed _ hpass => exact absurd hpass (hfail _)
      | fired _ _ hrun' =>
          cases hrun.symm.trans hrun'
          exact ⟨rfl, rfl⟩

/-- A list of checks has one sweep. -/
theorem Sweep.unique {checks : List (Check σ)} {world w w' : σ} {vs vs' : List PolicyViolation}
    (h : Sweep cardinality toolCall grounding checks world vs w)
    (h' : Sweep cardinality toolCall grounding checks world vs' w') : vs = vs' ∧ w = w' := by
  induction h generalizing vs' w' with
  | nil =>
      cases h'
      exact ⟨rfl, rfl⟩
  | cons hcheck _ ih =>
      cases h' with
      | cons hcheck' hrest' =>
          obtain ⟨rfl, rfl⟩ := hcheck.unique _ _ _ hcheck'
          obtain ⟨rfl, rfl⟩ := ih hrest'
          exact ⟨rfl, rfl⟩

/-- A loop over checks sweeps them. -/
theorem mapM_sweep (checks : List (Check σ)) (world : σ) : ∃ found world',
    checks.mapM (placementViolation cardinality toolCall grounding) world = .ok found world' ∧
      Sweep cardinality toolCall grounding checks world (found.filterMap id) world' := by
  induction checks generalizing world with
  | nil => exact ⟨[], world, rfl, .nil⟩
  | cons check rest ih =>
      obtain ⟨violation, w, hrun, hverdict⟩ :=
        placementViolation_verdict cardinality toolCall grounding check world
      obtain ⟨found, world', hrest, hsweep⟩ := ih w
      refine ⟨violation :: found, world', ?_, ?_⟩
      · rw [List.mapM_cons, Loops.bind_of_ok hrun, Loops.bind_of_ok hrest]
        rfl
      · have hlist : (violation :: found).filterMap id =
            violation.toList ++ found.filterMap id := by
          cases violation <;> simp
        rw [hlist]
        exact .cons hverdict hsweep

end Pass

/-! ## `evaluate` -/

/-- On a closed trace every target has a name, so no relatum is a fault. -/
theorem relatumChecks_eq {σ : Type} [NameFolding] (reg : PolicyRegistry σ)
    {trace : EpistemicResponse} {p : Primitive} {d : Depth} {r : Relatum}
    (h : r.targetId ∈ trace.result.primitives.map Primitive.id) :
    relatumChecks reg (idToName trace) p d r = .ok (edgeChecks reg trace p d r) := by
  unfold relatumChecks edgeChecks
  by_cases htype : r.relationType = .appliesTo
  · have hname : ∃ name, (idToName trace).get? r.targetId = some name := by
      obtain ⟨target, htarget, hid⟩ := List.mem_map.mp h
      cases hget : (idToName trace).get? r.targetId with
      | some name => exact ⟨name, rfl⟩
      | none =>
          refine absurd ?_ (OrderedDict.get?_ofItems_eq_none.mp hget target.name)
          exact List.mem_map.mpr ⟨target, htarget, by rw [hid]⟩
    obtain ⟨name, hname⟩ := hname
    simp [htype, hname]
  · simp [htype]

/-- The loops of `_collect_violations` are one loop over the checks of the trace. -/
theorem collectViolations_eq {σ : Type} [NameFolding] (reg : PolicyRegistry σ)
    {trace : EpistemicResponse} (h : trace.Closed) (cardinality : Option Cardinality)
    (toolCall : Option ToolCallContext) (grounding : GroundingContext) :
    collectViolations reg trace cardinality toolCall grounding = (do
      let found ← (traceChecks reg trace).mapM (placementViolation cardinality toolCall grounding)
      return found.filterMap id) := by
  have hrelatum : ∀ p ∈ trace.result.primitives, ∀ d ∈ p.depths, ∀ r ∈ d.relata,
      (do let checks ← Action.lift (relatumChecks reg (idToName trace) p d r)
          checks.mapM (placementViolation cardinality toolCall grounding)) =
        (edgeChecks reg trace p d r).mapM (placementViolation cardinality toolCall grounding) := by
    intro p hp d hd r hr
    funext world
    rw [relatumChecks_eq reg (h p hp d hd r hr)]
    exact Loops.bind_of_ok (Action.lift_of_ok rfl world)
  have hall := Loops.mapM_flatMap (l := trace.result.primitives) fun p hp =>
    Loops.mapM_flatMap (l := p.depths) fun d hd => Loops.mapM_flatMap (hrelatum p hp d hd)
  rw [traceChecks, ← hall, bind_assoc]
  rfl

theorem traceChecks_eq_nil {σ : Type} [NameFolding] {reg : PolicyRegistry σ} (hreg : reg.Indexed)
    (hlength : reg.length = 0) (trace : EpistemicResponse) : traceChecks reg trace = [] := by
  simp [traceChecks, edgeChecks, hreg.placementsFor_eq_nil hlength]

/-- On a closed trace the gate never raises: it sweeps the checks of the trace. -/
theorem evaluate_sweep {σ : Type} [NameFolding] {reg : PolicyRegistry σ} (hreg : reg.Indexed)
    {trace : EpistemicResponse} (h : trace.Closed) (cardinality : Option Cardinality)
    (toolCall : Option ToolCallContext) (grounding : GroundingContext) (world : σ) :
    ∃ violations world',
      evaluate reg trace cardinality toolCall grounding world = .ok violations world' ∧
      Sweep cardinality toolCall grounding (traceChecks reg trace) world violations world' := by
  unfold evaluate
  by_cases hlength : reg.length = 0
  · rw [if_pos hlength, traceChecks_eq_nil hreg hlength]
    exact ⟨[], world, rfl, .nil⟩
  · obtain ⟨found, world', hrun, hsweep⟩ :=
      mapM_sweep cardinality toolCall grounding (traceChecks reg trace) world
    rw [if_neg hlength, collectViolations_eq reg h, Loops.bind_of_ok hrun]
    exact ⟨_, world', rfl, hsweep⟩

end PolicyGate

/-! ## A guarded edge -/

/-- `Delete` applies to `File` at D1. -/
def deleteFile [NameFolding] : SqliteRepository :=
  List.foldl Operation.next .fresh
    [.save (sample 0 "File" [.existence] []),
      .save (sample 1 "Delete" [.existence, .identity]
        [⟨.appliesTo, 0, .existence, [], some authored⟩])]

/-- A registry whose one policy, on that edge, always asks for confirmation. -/
def confirmDelete [NameFolding] : PolicyRegistry Unit :=
  List.foldl PolicyRegistry.Operation.next .new
    [.register ⟨fun _ => pure (.result ⟨false, none⟩), some "confirm_delete", "function"⟩
      ⟨none, "DELETE", "file", .identity, "confirm delete", defaultConfirmationMessage, none, true,
        none, true⟩]

theorem built_confirmDelete [NameFolding] : confirmDelete.Built :=
  ⟨_, Runs.run_foldl PolicyRegistry.Operation.next .new _⟩

end Vre
