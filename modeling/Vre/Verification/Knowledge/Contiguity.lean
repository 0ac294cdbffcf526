import Mathlib.Data.Finset.Lattice.Basic
import Vre.Model.Depth

/-! # Contiguity of depth levels

`contiguous_max` is met by a level exactly when every level up to it is present. The other
facts about depths and missing levels follow from this one.
-/

namespace Vre

@[simp] theorem DepthLevel.existence_le (level : DepthLevel) : .existence ≤ level := by
  cases level <;> decide

/-! ## Depths that meet a level -/

@[simp] theorem meets_none (required : DepthLevel) : ¬ Meets none required := id

@[simp] theorem meets_some {level required : DepthLevel} :
    Meets (some level) required ↔ required ≤ level := Iff.rfl

theorem Meets.of_le {current : Option DepthLevel} {lower required : DepthLevel}
    (h : Meets current required) (hle : lower ≤ required) : Meets current lower := by
  cases current with
  | none => exact h.elim
  | some level => exact hle.trans h

/-- A depth is known by the levels that it meets. -/
theorem eq_of_meets {a b : Option DepthLevel} (h : ∀ d, Meets a d ↔ Meets b d) : a = b := by
  cases a with
  | none =>
      cases b with
      | none => rfl
      | some level => exact ((h level).mpr le_rfl).elim
  | some level =>
      cases b with
      | none => exact ((h level).mp le_rfl).elim
      | some level' =>
          exact congrArg some (le_antisymm ((h level).mp le_rfl) ((h level').mpr le_rfl))

/-! ## `contiguous_max` -/

/-- The loop invariant: what the accumulated depth meets is what the loop has passed. -/
theorem meets_contiguousMaxFrom {levels : Finset DepthLevel} {run : List DepthLevel}
    (hrun : run.Pairwise (· < ·)) {result : Option DepthLevel}
    (hresult : ∀ d, Meets result d ↔ d ∉ run) (d : DepthLevel) :
    Meets (contiguousMaxFrom levels run result) d ↔ ∀ l ∈ run, l ≤ d → l ∈ levels := by
  induction run generalizing result with
  | nil => simpa [contiguousMaxFrom] using hresult d
  | cons level rest ih =>
      obtain ⟨hfirst, hrest⟩ := List.pairwise_cons.mp hrun
      by_cases hmem : level ∈ levels
      · have hpassed : ∀ d, Meets (some level) d ↔ d ∉ rest := by
          intro d
          refine ⟨fun hle hd => (hfirst d hd).not_ge hle, fun hd => ?_⟩
          by_contra hlt
          rcases eq_or_ne d level with rfl | hne
          · exact hlt le_rfl
          · have hmet := (hresult d).mpr (by simp [hne, hd])
            exact (hresult level).mp (hmet.of_le (not_le.mp hlt).le) (by simp)
        simp only [contiguousMaxFrom, if_pos hmem, ih hrest hpassed, List.forall_mem_cons]
        exact ⟨fun h => ⟨fun _ => hmem, h⟩, fun h => h.2⟩
      · simp only [contiguousMaxFrom, if_neg hmem]
        constructor
        · intro hd l hl hle
          exact absurd hl ((hresult l).mp (hd.of_le hle))
        · intro hall
          refine (hresult d).mpr fun hd => hmem (hall level (by simp) ?_)
          rcases List.mem_cons.mp hd with rfl | hd
          · exact le_rfl
          · exact (hfirst d hd).le

theorem meets_contiguousMax {levels : Finset DepthLevel} {d : DepthLevel} :
    Meets (contiguousMax levels) d ↔ ∀ l ≤ d, l ∈ levels := by
  have hnone : ∀ d, Meets none d ↔ d ∉ DepthLevel.sorted := by simp
  simpa [contiguousMax] using meets_contiguousMaxFrom DepthLevel.pairwise_sorted hnone d

theorem Meets.of_subset {levels levels' : Finset DepthLevel} {d : DepthLevel}
    (h : Meets (contiguousMax levels) d) (hsub : levels ⊆ levels') :
    Meets (contiguousMax levels') d :=
  meets_contiguousMax.mpr fun l hl => hsub (meets_contiguousMax.mp h l hl)

theorem meets_of_contiguousMax_eq_some {levels : Finset DepthLevel} {top : DepthLevel}
    (h : contiguousMax levels = some top) {l : DepthLevel} (hl : l ≤ top) : l ∈ levels :=
  meets_contiguousMax.mp (h ▸ (le_refl top : Meets (some top) top)) l hl

/-! ## Unbroken levels -/

/-- D0 to some level, with nothing left out on the way, and D1 among them. -/
structure Unbroken (levels : Finset DepthLevel) : Prop where
  identity : .identity ∈ levels
  below : ∀ l ∈ levels, ∀ l' ≤ l, l' ∈ levels

theorem Unbroken.meets_iff {levels : Finset DepthLevel} (h : Unbroken levels) {d : DepthLevel} :
    Meets (contiguousMax levels) d ↔ d ∈ levels :=
  meets_contiguousMax.trans ⟨fun hall => hall d le_rfl, h.below d⟩

/-- The contiguous max of unbroken levels is the highest of them. -/
theorem Unbroken.exists_top {levels : Finset DepthLevel} (h : Unbroken levels) :
    ∃ top, contiguousMax levels = some top ∧ .identity ≤ top ∧ ∀ l, l ∈ levels ↔ l ≤ top := by
  have hmet : Meets (contiguousMax levels) .identity := h.meets_iff.mpr h.identity
  cases hmax : contiguousMax levels with
  | none =>
      rw [hmax] at hmet
      exact (meets_none _ hmet).elim
  | some top =>
      rw [hmax] at hmet
      refine ⟨top, rfl, hmet, fun l => ?_⟩
      rw [← h.meets_iff, hmax, meets_some]

/-- More unbroken levels reach at least as high. -/
theorem Unbroken.le_of_subset {levels levels' : Finset DepthLevel} (h : Unbroken levels)
    (h' : Unbroken levels') (hsub : levels ⊆ levels') {top top' : DepthLevel}
    (htop : contiguousMax levels = some top) (htop' : contiguousMax levels' = some top') :
    top ≤ top' := by
  have hmem : top ∈ levels := h.meets_iff.mp (htop ▸ le_refl top)
  have hmeets := h'.meets_iff.mpr (hsub hmem)
  rwa [htop'] at hmeets

/-! ## Missing levels -/

theorem mem_missingDepthLevels {present : Finset DepthLevel} {required l : DepthLevel} :
    l ∈ missingDepthLevels present (contiguousMax present) required ↔
      l ≤ required ∧ l ∉ present := by
  simp only [missingDepthLevels, List.mem_filter, DepthLevel.mem_sorted, true_and,
    decide_eq_true_eq]
  constructor
  · rintro ⟨-, hle, hl⟩
    exact ⟨hle, hl⟩
  · rintro ⟨hle, hl⟩
    refine ⟨?_, hle, hl⟩
    cases hmax : contiguousMax present with
    | none =>
        show (-1 : ℤ) < l.value
        omega
    | some top =>
        have hlt : top < l := by
          by_contra hge
          exact hl (meets_of_contiguousMax_eq_some hmax (not_lt.mp hge))
        exact Int.ofNat_lt.mpr hlt

theorem nodup_missingDepthLevels (present : Finset DepthLevel) (current : Option DepthLevel)
    (required : DepthLevel) : (missingDepthLevels present current required).Nodup :=
  List.Nodup.filter _ DepthLevel.nodup_sorted

/-- A level is missing exactly when the requirement is not met. -/
theorem missingDepthLevels_ne_nil {present : Finset DepthLevel} {required : DepthLevel} :
    missingDepthLevels present (contiguousMax present) required ≠ [] ↔
      ¬ Meets (contiguousMax present) required := by
  rw [Ne, List.eq_nil_iff_forall_not_mem, meets_contiguousMax, not_iff_not]
  simp only [mem_missingDepthLevels, not_and, not_not]

end Vre
