import Mathlib.Data.List.Basic

/-! # Line logs

A file that is only appended to, and is read back as lines, each ended by a separator. What
the appends leave is read back as one line each exactly when none of them stopped halfway.
-/

namespace LineLog

variable {α : Type*} [DecidableEq α] (sep : α)

/-- The complete lines of a text, and what follows the last of them. -/
def lines : List α → List (List α) × List α
  | [] => ([], [])
  | c :: text =>
      if c = sep then
        ([] :: (lines text).1, (lines text).2)
      else
        match (lines text).1 with
        | [] => ([], c :: (lines text).2)
        | line :: rest => ((c :: line) :: rest, (lines text).2)

/-- The text of complete lines. -/
def unlines (ls : List (List α)) : List α :=
  ls.flatMap fun line => line ++ [sep]

theorem unlines_lines (text : List α) :
    unlines sep (lines sep text).1 ++ (lines sep text).2 = text := by
  induction text with
  | nil => rfl
  | cons c text ih =>
      simp only [lines]
      by_cases hc : c = sep
      · subst hc
        simpa [unlines] using ih
      · rw [if_neg hc]
        cases hlines : (lines sep text).1 with
        | nil =>
            rw [hlines] at ih
            simpa [unlines] using ih
        | cons line rest =>
            rw [hlines] at ih
            simpa [unlines] using ih

theorem lines_line {line : List α} (h : sep ∉ line) (text : List α) :
    lines sep (line ++ sep :: text) = (line :: (lines sep text).1, (lines sep text).2) := by
  induction line with
  | nil => simp [lines]
  | cons c line ih =>
      obtain ⟨hc, hline⟩ := not_or.mp (mt List.mem_cons.mpr h)
      have hne : ¬ c = sep := fun heq => hc heq.symm
      simp [lines, hne, ih hline]

/-- Complete lines are read back. -/
theorem lines_unlines {ls : List (List α)} (h : ∀ line ∈ ls, sep ∉ line) (text : List α) :
    lines sep (unlines sep ls ++ text) = (ls ++ (lines sep text).1, (lines sep text).2) := by
  induction ls with
  | nil => simp [unlines]
  | cons line rest ih =>
      obtain ⟨hline, hrest⟩ := List.forall_mem_cons.mp h
      have hsplit : unlines sep (line :: rest) ++ text =
          line ++ sep :: (unlines sep rest ++ text) := by simp [unlines]
      rw [hsplit, lines_line sep hline, ih hrest]
      rfl

theorem sep_notMem_lines (text : List α) : ∀ line ∈ (lines sep text).1, sep ∉ line := by
  induction text with
  | nil => simp [lines]
  | cons c text ih =>
      simp only [lines]
      by_cases hc : c = sep
      · simpa [hc] using ih
      · rw [if_neg hc]
        cases hlines : (lines sep text).1 with
        | nil => simp
        | cons line rest =>
            rw [hlines] at ih
            obtain ⟨hline, hrest⟩ := List.forall_mem_cons.mp ih
            have hne : ¬ sep = c := fun heq => hc heq.symm
            simpa [hne, hline] using hrest

/-! ## Appends -/

/-- An append of a line that has left all of it. -/
def Whole (line text : List α) : Prop :=
  text = line ++ [sep]

instance (line text : List α) : Decidable (Whole sep line text) :=
  inferInstanceAs (Decidable (text = line ++ [sep]))

/-- An append that stopped halfway. -/
def Torn (line text : List α) : Prop :=
  text ≠ [] ∧ ¬ Whole sep line text

/-- The lines that are all there, each append being a line and the text it has left. -/
def wholeLines (appends : List (List α × List α)) : List (List α) :=
  (appends.filter fun e => Whole sep e.1 e.2).map Prod.fst

theorem wholeLines_cons (e : List α × List α) (rest : List (List α × List α)) :
    wholeLines sep (e :: rest) =
      if Whole sep e.1 e.2 then e.1 :: wholeLines sep rest else wholeLines sep rest := by
  by_cases hwhole : Whole sep e.1 e.2 <;> simp [wholeLines, hwhole]

omit [DecidableEq α] in
theorem length_unlines_cons (line : List α) (rest : List (List α)) :
    (unlines sep (line :: rest)).length = line.length + 1 + (unlines sep rest).length := by
  rw [unlines, List.flatMap_cons, List.length_append, List.length_append, List.length_singleton]
  rfl

theorem length_wholeLines_le (appends : List (List α × List α)) :
    (unlines sep (wholeLines sep appends)).length ≤ (appends.flatMap Prod.snd).length := by
  induction appends with
  | nil => simp [wholeLines, unlines]
  | cons e rest ih =>
      rw [wholeLines_cons, List.flatMap_cons, List.length_append]
      by_cases hwhole : Whole sep e.1 e.2
      · have hlength : e.2.length = e.1.length + 1 := by
          rw [hwhole, List.length_append, List.length_singleton]
        rw [if_pos hwhole, length_unlines_cons]
        omega
      · rw [if_neg hwhole]
        omega

/-- What is torn is more text than the lines that are all there. -/
theorem length_wholeLines_lt {appends : List (List α × List α)} {e : List α × List α}
    (he : e ∈ appends) (htorn : Torn sep e.1 e.2) :
    (unlines sep (wholeLines sep appends)).length < (appends.flatMap Prod.snd).length := by
  induction appends with
  | nil => cases he
  | cons first rest ih =>
      rw [wholeLines_cons, List.flatMap_cons, List.length_append]
      rcases List.mem_cons.mp he with rfl | he
      · have hlength := List.length_pos_iff.mpr htorn.1
        have hrest := length_wholeLines_le sep rest
        rw [if_neg htorn.2]
        omega
      · have hrest := ih he
        by_cases hwhole : Whole sep first.1 first.2
        · have hlength : first.2.length = first.1.length + 1 := by
            rw [hwhole, List.length_append, List.length_singleton]
          rw [if_pos hwhole, length_unlines_cons]
          omega
        · rw [if_neg hwhole]
          omega

theorem flatMap_eq_unlines {appends : List (List α × List α)}
    (h : ∀ e ∈ appends, ¬ Torn sep e.1 e.2) :
    appends.flatMap Prod.snd = unlines sep (wholeLines sep appends) := by
  induction appends with
  | nil => rfl
  | cons e rest ih =>
      obtain ⟨hfirst, hrest⟩ := List.forall_mem_cons.mp h
      rw [List.flatMap_cons, ih hrest, wholeLines_cons]
      by_cases hwhole : Whole sep e.1 e.2
      · rw [if_pos hwhole, hwhole]
        simp [unlines]
      · have hnone : e.2 = [] := by
          by_contra hsome
          exact hfirst ⟨hsome, hwhole⟩
        rw [if_neg hwhole, hnone, List.nil_append]

/-- A file of complete lines, after appends of lines, reads back as those lines and the
appended ones exactly when no append is torn. -/
theorem lines_append_iff {before : List α} (hbefore : (lines sep before).2 = [])
    {appends : List (List α × List α)} (hline : ∀ e ∈ appends, sep ∉ e.1) :
    lines sep (before ++ appends.flatMap Prod.snd) =
        ((lines sep before).1 ++ wholeLines sep appends, []) ↔
      ∀ e ∈ appends, ¬ Torn sep e.1 e.2 := by
  have hstart : unlines sep (lines sep before).1 = before := by
    have h := unlines_lines sep before
    rwa [hbefore, List.append_nil] at h
  constructor
  · intro hread e he htorn
    have htext := unlines_lines sep (before ++ appends.flatMap Prod.snd)
    rw [hread, List.append_nil, unlines, List.flatMap_append] at htext
    change unlines sep (lines sep before).1 ++ unlines sep (wholeLines sep appends) = _ at htext
    rw [hstart] at htext
    have hshorter := length_wholeLines_lt sep he htorn
    rw [List.append_cancel_left htext] at hshorter
    exact Nat.lt_irrefl _ hshorter
  · intro hwhole
    have hwholeLine : ∀ line ∈ wholeLines sep appends, sep ∉ line := by
      intro line hmem
      obtain ⟨e, he, rfl⟩ := List.mem_map.mp hmem
      exact hline e (List.mem_of_mem_filter he)
    have hafter := lines_unlines sep hwholeLine []
    have hboth := lines_unlines sep (sep_notMem_lines sep before)
      (unlines sep (wholeLines sep appends))
    rw [List.append_nil] at hafter
    rw [flatMap_eq_unlines sep hwhole]
    rw [hstart, hafter] at hboth
    simpa [lines] using hboth

end LineLog
