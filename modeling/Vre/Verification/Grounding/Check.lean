import Vre.Model.Interface
import Vre.Verification.Grounding.Strict

/-! # Checks

`check` returns the verdict of the engine under the agent's identity. All that it writes is
metrics, so a check never changes what the next one sees.
-/

namespace Vre

/-! ## Metrics -/

/-- Counting a check changes nothing but metrics, whatever was checked. -/
theorem updateGrounding_eq [NameFolding] (draw : Draw) (result : GroundingResult) (t : Tables) :
    ∃ t', MetricsManager.updateGrounding draw result (⟨t, none⟩ : SqliteRepository) =
      .ok () ⟨t', none⟩ ∧ t.SameKnowledge t' := by
  have hbatch : ∀ updates : OrderedDict UUID PrimitiveMetrics,
      Repository.batchUpdateMetrics updates (⟨t, none⟩ : SqliteRepository) =
        .ok () ⟨updates.entries.foldl (fun t e => t.setMetrics e.1 e.2) t, none⟩ :=
    fun updates => Sqlite.batchUpdateMetrics_eq updates t
  unfold MetricsManager.updateGrounding
  dsimp only
  split
  · exact ⟨t, rfl, .refl t⟩
  · split
    · exact ⟨t, rfl, .refl t⟩
    · split
      · exact ⟨t, rfl, .refl t⟩
      · rw [hbatch]
        exact ⟨_, rfl, Sqlite.sameKnowledge_foldl_setMetrics _ t⟩

/-! ## `check` -/

namespace VRE

@[simp] theorem grounded_stampIdentity {σ : Type} (vre : VRE σ) (result : GroundingResult) :
    (vre.stampIdentity result).grounded = result.grounded := by
  unfold stampIdentity
  split <;> rfl

@[simp] theorem gaps_stampIdentity {σ : Type} (vre : VRE σ) (result : GroundingResult) :
    (vre.stampIdentity result).gaps = result.gaps := by
  unfold stampIdentity
  split <;> rfl

@[simp] theorem trace_stampIdentity {σ : Type} (vre : VRE σ) (result : GroundingResult) :
    (vre.stampIdentity result).trace = result.trace := by
  unfold stampIdentity
  split <;> rfl

/-- A check of a stored graph returns the stamped verdict, over the same knowledge. -/
theorem check_eq [NameFolding] {σ : Type} (vre : VRE σ) (draw : Draw) {t : Tables}
    {concepts : List String} {minDepth : Option DepthLevel} {result : GroundingResult}
    (h : GroundingEngine.ground draw (⟨t, none⟩ : SqliteRepository) concepts minDepth =
      .ok result) :
    ∃ t', vre.check draw concepts minDepth (⟨t, none⟩ : SqliteRepository) =
      .ok (vre.stampIdentity result) ⟨t', none⟩ ∧ t.SameKnowledge t' := by
  obtain ⟨t', hmetrics, hsame⟩ := updateGrounding_eq draw (vre.stampIdentity result) t
  refine ⟨t', ?_, hsame⟩
  have hread : Action.read (fun repo : SqliteRepository =>
      GroundingEngine.ground draw repo concepts minDepth) ⟨t, none⟩ = .ok result ⟨t, none⟩ :=
    Action.read_of_ok h
  unfold check
  rw [Loops.bind_of_ok hread, Loops.bind_of_ok hmetrics]
  rfl

end VRE

end Vre
