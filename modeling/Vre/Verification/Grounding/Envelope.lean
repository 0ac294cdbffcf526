import Vre.Verification.Grounding.Check

/-! # The trace of a check

Whatever a backend returns, the trace that the engine builds is closed: each relatum it shows
leads to a primitive it shows. The trace of a grounded check is the whole closure, with every
relatum that stays inside.
-/

namespace Vre

/-- Every relatum of the trace leads to a primitive of the trace. -/
def EpistemicResponse.Closed (trace : EpistemicResponse) : Prop :=
  ∀ p ∈ trace.result.primitives, ∀ d ∈ p.depths, ∀ r ∈ d.relata,
    r.targetId ∈ trace.result.primitives.map Primitive.id

namespace GroundingEngine

/-! ## The envelope of a node -/

@[simp] theorem filterNode_id (ids : List UUID) (p : Primitive) : (filterNode ids p).id = p.id :=
  rfl

@[simp] theorem map_id_filterDepths (nodes : List Primitive) :
    (filterDepths nodes).map Primitive.id = nodes.map Primitive.id := by
  simp [filterDepths, Function.comp_def]

/-- A node keeps the depths it is grounded to, with the relata that lead to `ids`. -/
theorem mem_depths_filterNode {ids : List UUID} {p : Primitive} {d : Depth} :
    d ∈ (filterNode ids p).depths ↔ ∃ d' ∈ p.depths, Meets p.contiguousMaxDepth d'.level ∧
      { d' with relata := d'.relata.filter fun r => r.targetId ∈ ids } = d := by
  unfold filterNode
  cases p.contiguousMaxDepth with
  | none => simp
  | some cmax => simp [and_assoc]

theorem closed_of_filterDepths {trace : EpistemicResponse} {nodes : List Primitive}
    (h : trace.result.primitives = filterDepths nodes) : trace.Closed := by
  rw [EpistemicResponse.Closed, h, map_id_filterDepths]
  intro p hp d hd r hr
  obtain ⟨n, -, rfl⟩ := List.mem_map.mp hp
  obtain ⟨d', -, -, rfl⟩ := mem_depths_filterNode.mp hd
  simpa using (List.mem_filter.mp hr).2

theorem closed_emptyResponse : emptyResponse.Closed :=
  fun _ hp => (nomatch hp)

/-! ## Every trace is closed -/

theorem closed_of_query {ρ : Type} [NameFolding] [Repository ρ] {draw : Draw} {repo : ρ}
    {concepts : List String} {minDepth : Option DepthLevel} {trace : EpistemicResponse}
    (h : query draw repo concepts minDepth = .ok trace) : trace.Closed := by
  unfold query at h
  split at h
  · cases h
    exact closed_emptyResponse
  · obtain ⟨subgraph, -, hrespond⟩ := Loops.except_bind_ok.mp h
    obtain ⟨-, hresponse⟩ := Loops.except_seq_ok.mp hrespond
    cases hresponse
    exact closed_of_filterDepths rfl

/-- A result of the engine always has a trace, and it is closed. -/
theorem closed_of_ground {ρ : Type} [NameFolding] [Repository ρ] {draw : Draw} {repo : ρ}
    {concepts : List String} {minDepth : Option DepthLevel} {result : GroundingResult}
    (h : ground draw repo concepts minDepth = .ok result) :
    ∃ trace, result.trace = some trace ∧ trace.Closed := by
  unfold ground at h
  split at h
  · cases h
    exact ⟨_, rfl, closed_emptyResponse⟩
  · obtain ⟨trace, hquery, hresult⟩ := Loops.except_bind_ok.mp h
    cases hresult
    exact ⟨trace, rfl, closed_of_query hquery⟩

end GroundingEngine

/-- A check that returns has the engine's result, stamped. -/
theorem VRE.check_ok {ρ σ : Type} [NameFolding] [Repository ρ] {vre : VRE σ} {draw : Draw}
    {repo repo' : ρ} {concepts : List String} {minDepth : Option DepthLevel}
    {result : GroundingResult}
    (h : vre.check draw concepts minDepth repo = .ok result repo') :
    ∃ verdict, GroundingEngine.ground draw repo concepts minDepth = .ok verdict ∧
      vre.stampIdentity verdict = result := by
  obtain ⟨verdict, repo₁, hread, hrest⟩ := Loops.bind_ok.mp h
  obtain ⟨u, repo₂, -, hresult⟩ := Loops.bind_ok.mp hrest
  have hground : GroundingEngine.ground draw repo concepts minDepth = .ok verdict := by
    unfold Action.read at hread
    split at hread
    · rename_i heq
      cases hread
      exact heq
    · cases hread
  cases hresult
  exact ⟨verdict, hground, rfl⟩

theorem VRE.closed_of_check {ρ σ : Type} [NameFolding] [Repository ρ] {vre : VRE σ} {draw : Draw}
    {repo repo' : ρ} {concepts : List String} {minDepth : Option DepthLevel}
    {result : GroundingResult}
    (h : vre.check draw concepts minDepth repo = .ok result repo') :
    ∃ trace, result.trace = some trace ∧ trace.Closed := by
  obtain ⟨verdict, hground, rfl⟩ := check_ok h
  rw [trace_stampIdentity]
  exact GroundingEngine.closed_of_ground hground

end Vre
