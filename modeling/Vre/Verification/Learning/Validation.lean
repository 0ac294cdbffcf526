import Vre.Library.Loops
import Vre.Model.Learning
import Vre.Verification.Knowledge.Serialization

/-! # Validation of a depth fill

`_validate_depth_fill` accepts exactly the fills that carry content, stay in scope, fill
holes only and leave no hole below what they propose.
-/

namespace Vre

namespace LearningEngine

/-- What the gate asks of a fill, given the levels that already ground. -/
structure ValidFill (newDepths : List ProposedDepth) (required : DepthLevel)
    (present : Finset DepthLevel) : Prop where
  nonempty : newDepths ≠ []
  distinct : (newDepths.map ProposedDepth.level).Nodup
  content : ∀ d ∈ newDepths, d.properties ≠ []
  scope : ∀ d ∈ newDepths, d.level ≤ required
  holes : ∀ d ∈ newDepths, d.level ∉ present
  contiguous : ∀ d ∈ newDepths, ∀ l ≤ d.level, l ∈ present ∨ l ∈ newDepths.map ProposedDepth.level

/-! ## The highest proposed level -/

theorem le_foldl_max (levels : List DepthLevel) (start : DepthLevel) :
    start ≤ levels.foldl max start ∧ ∀ l ∈ levels, l ≤ levels.foldl max start := by
  induction levels generalizing start with
  | nil => simp
  | cons level rest ih =>
      obtain ⟨hstart, hrest⟩ := ih (max start level)
      refine ⟨(le_max_left _ _).trans hstart, List.forall_mem_cons.mpr ⟨?_, hrest⟩⟩
      exact (le_max_right _ _).trans hstart

theorem foldl_max_mem (levels : List DepthLevel) (start : DepthLevel) :
    levels.foldl max start = start ∨ levels.foldl max start ∈ levels := by
  induction levels generalizing start with
  | nil => exact Or.inl rfl
  | cons level rest ih =>
      rcases ih (max start level) with h | h
      · rcases max_choice start level with hmax | hmax
        · exact Or.inl (h.trans hmax)
        · exact Or.inr (by rw [List.foldl_cons, h, hmax]; simp)
      · exact Or.inr (List.mem_cons_of_mem level h)

theorem le_highestLevel {levels : List DepthLevel} {l : DepthLevel} (hl : l ∈ levels) :
    l ≤ highestLevel levels :=
  (le_foldl_max levels .existence).2 l hl

theorem highestLevel_mem {levels : List DepthLevel} (h : levels ≠ []) :
    highestLevel levels ∈ levels := by
  rcases foldl_max_mem levels .existence with hlow | hmem
  · obtain ⟨l, hl⟩ := List.exists_mem_of_ne_nil levels h
    have hle : l ≤ .existence := hlow ▸ le_highestLevel hl
    have heq : l = .existence := le_antisymm hle (DepthLevel.existence_le l)
    have hhighest : highestLevel levels = l := hlow.trans heq.symm
    rwa [hhighest]
  · exact hmem

/-! ## The gate -/

theorem raise_bind_ne_ok {α β : Type} {cls : ErrorClass} {message : String}
    {f : α → Except PyException β} {b : β} : (raise cls message >>= f) ≠ .ok b := nofun

theorem guard_ok {c : Prop} [Decidable c] {cls : ErrorClass} {message : String} :
    (if c then raise cls message else Except.ok ()) = .ok () ↔ ¬ c := by
  by_cases h : c <;> simp [h, raise]

theorem validateLevel_ok {current : Option DepthLevel} {required level : DepthLevel}
    {present : Finset DepthLevel} {subject : String} :
    validateLevel current required present subject level = .ok () ↔
      level ≤ required ∧ level ∉ present := by
  unfold validateLevel
  by_cases hscope : required < level
  · simp [hscope, raise]
  · rw [if_neg hscope, guard_ok]
    exact ⟨fun h => ⟨not_lt.mp hscope, h⟩, fun h => h.2⟩

theorem length_eq_card_iff {levels : List DepthLevel} :
    levels.length = levels.toFinset.card ↔ levels.Nodup := by
  rw [List.card_toFinset]
  constructor
  · intro h
    exact List.dedup_eq_self.mp ((List.dedup_sublist levels).eq_of_length h.symm)
  · exact fun h => by rw [h.dedup]

/-- The chain test at the highest level is the chain test at every level. -/
theorem meets_highestLevel_iff {present : Finset DepthLevel} {levels : List DepthLevel}
    (h : levels ≠ []) : Meets (contiguousMax (present ∪ levels.toFinset)) (highestLevel levels) ↔
      ∀ level ∈ levels, ∀ l ≤ level, l ∈ present ∨ l ∈ levels := by
  simp only [meets_contiguousMax, Finset.mem_union, List.mem_toFinset]
  constructor
  · exact fun hall level hlevel l hl => hall l (hl.trans (le_highestLevel hlevel))
  · exact fun hall l hl => hall _ (highestLevel_mem h) l hl

/-- `_validate_depth_fill` succeeds on the valid fills and on no others. -/
theorem validateDepthFill_ok {newDepths : List ProposedDepth} {current : Option DepthLevel}
    {required : DepthLevel} {present : Finset DepthLevel} {subject : String} :
    validateDepthFill newDepths current required present subject = .ok () ↔
      ValidFill newDepths required present := by
  unfold validateDepthFill
  by_cases hempty : newDepths = []
  · subst hempty
    exact ⟨fun h => absurd h raise_bind_ne_ok, fun h => absurd rfl h.nonempty⟩
  have hlevels : newDepths.map ProposedDepth.level ≠ [] := by simpa using hempty
  by_cases hdistinct : (newDepths.map ProposedDepth.level).Nodup
  · have hcard := length_eq_card_iff.mpr hdistinct
    simp only [List.isEmpty_iff, hempty, hcard, ne_eq, not_true_eq_false, if_false,
      Loops.except_seq_ok, Loops.except_forM_ok, Loops.pure_eq_ok, guard_ok, validateLevel_ok,
      List.mem_filter, DepthLevel.mem_sorted, true_and, decide_eq_true_eq,
      List.mem_toFinset, not_not, meets_highestLevel_iff hlevels, List.forall_mem_map]
    constructor
    · rintro ⟨hcontent, hfit, hchain⟩
      exact ⟨hempty, hdistinct, hcontent, fun d hd => (hfit d hd).1, fun d hd => (hfit d hd).2,
        hchain⟩
    · intro h
      exact ⟨h.content, fun d hd => ⟨h.scope d hd, h.holes d hd⟩, h.contiguous⟩
  · have hcard := mt length_eq_card_iff.mp hdistinct
    simp only [List.isEmpty_iff, hempty, hcard, ne_eq, not_false_eq_true, if_true, if_false]
    exact ⟨fun h => absurd h raise_bind_ne_ok, fun h => absurd h.distinct hdistinct⟩

/-! ## Refusals -/

theorem raise_bind_error {α β : Type} {cls : ErrorClass} {message : String}
    {f : α → Except PyException β} {exc : PyException}
    (h : (raise cls message >>= f) = .error exc) : exc.cls = cls := by
  cases h
  rfl

theorem guard_error {c : Prop} [Decidable c] {cls : ErrorClass} {message : String}
    {exc : PyException} (h : (if c then raise cls message else Except.ok ()) = .error exc) :
    exc.cls = cls := by
  by_cases hc : c
  · rw [if_pos hc] at h
    cases h
    rfl
  · rw [if_neg hc] at h
    cases h

theorem validateLevel_error {current : Option DepthLevel} {required level : DepthLevel}
    {present : Finset DepthLevel} {subject : String} {exc : PyException}
    (h : validateLevel current required present subject level = .error exc) :
    exc.cls = .candidateValidationError := by
  unfold validateLevel at h
  split at h
  · cases h
    rfl
  · exact guard_error h

/-- Whatever `_validate_depth_fill` raises is a `CandidateValidationError`. -/
theorem validateDepthFill_error {newDepths : List ProposedDepth} {current : Option DepthLevel}
    {required : DepthLevel} {present : Finset DepthLevel} {subject : String} {exc : PyException}
    (h : validateDepthFill newDepths current required present subject = .error exc) :
    exc.cls = .candidateValidationError := by
  unfold validateDepthFill at h
  dsimp only at h
  split at h
  · exact raise_bind_error h
  rw [Loops.pure_eq_ok] at h
  split at h
  · exact raise_bind_error h
  rcases Loops.except_bind_error h with hcontent | ⟨-, -, hrest⟩
  · obtain ⟨proposed, -, herror⟩ := Loops.except_forM_error hcontent
    exact guard_error herror
  rcases Loops.except_bind_error hrest with hlevels | ⟨-, -, hchain⟩
  · obtain ⟨level, -, herror⟩ := Loops.except_forM_error hlevels
    exact validateLevel_error herror
  · exact guard_error hchain

end LearningEngine

end Vre
