import Mathlib.Data.List.Induction

/-! # Runs of a labelled transition system

A run is a finite sequence of labelled steps. An invariant of every step is an invariant of
every run, and two systems that keep a simulation through each step agree along a whole run.
-/

namespace Runs

/-- `Run step s ops s'`: the labels `ops`, in order, lead from `s` to `s'`. -/
inductive Run {σ ι : Type*} (step : σ → ι → σ → Prop) (s : σ) : List ι → σ → Prop where
  | nil : Run step s [] s
  | snoc {ops s' op s''} : Run step s ops s' → step s' op s'' → Run step s (ops ++ [op]) s''

theorem Run.invariant {σ ι : Type*} {step : σ → ι → σ → Prop} {P : σ → Prop}
    (hstep : ∀ s op s', P s → step s op s' → P s') {s s' : σ} {ops : List ι} (hs : P s)
    (h : Run step s ops s') : P s' := by
  induction h with
  | nil => exact hs
  | snoc _ hop ih => exact hstep _ _ _ ih hop

/-- Every list of labels has its run when each step has one outcome. -/
theorem run_foldl {σ ι : Type*} (next : σ → ι → σ) (s : σ) (ops : List ι) :
    Run (fun s op s' => next s op = s') s ops (ops.foldl next s) := by
  induction ops using List.reverseRecOn with
  | nil => exact .nil
  | append_singleton ops op ih =>
      rw [List.foldl_append]
      exact ih.snoc rfl

/-! ## Two systems under the same labels -/

/-- Two systems driven by the same labels: at each step the outcomes are `same`, and the
states after it are alike in `view`. -/
def Lockstep {α β ι ρ τ : Type*} (stepA : α → ι → ρ × α) (stepB : β → ι → τ × β)
    (same : ρ → τ → Prop) (view : α → β → Prop) : α → β → List ι → Prop
  | _, _, [] => True
  | a, b, op :: ops =>
      same (stepA a op).1 (stepB b op).1 ∧ view (stepA a op).2 (stepB b op).2 ∧
        Lockstep stepA stepB same view (stepA a op).2 (stepB b op).2 ops

/-- Every step of the first system's run meets `cond` in the state it starts from. -/
def EveryStep {α ι ρ : Type*} (stepA : α → ι → ρ × α) (cond : α → ι → Prop) :
    α → List ι → Prop
  | _, [] => True
  | a, op :: ops => cond a op ∧ EveryStep stepA cond (stepA a op).2 ops

/-- If a simulation is kept by the steps that meet `cond` and every other step shows a
difference, the systems agree along exactly the runs whose steps all meet `cond`. -/
theorem lockstep_iff {α β ι ρ τ : Type*} {stepA : α → ι → ρ × α} {stepB : β → ι → τ × β}
    {same : ρ → τ → Prop} {view sim : α → β → Prop} {cond : α → ι → Prop}
    (hgood : ∀ a b op, sim a b → cond a op →
      same (stepA a op).1 (stepB b op).1 ∧ sim (stepA a op).2 (stepB b op).2)
    (hbad : ∀ a b op, sim a b → ¬ cond a op → ¬ same (stepA a op).1 (stepB b op).1)
    (hview : ∀ a b, sim a b → view a b) {a : α} {b : β} (hab : sim a b) (ops : List ι) :
    Lockstep stepA stepB same view a b ops ↔ EveryStep stepA cond a ops := by
  induction ops generalizing a b with
  | nil => simp [Lockstep, EveryStep]
  | cons op ops ih =>
      simp only [Lockstep, EveryStep]
      by_cases hcond : cond a op
      · obtain ⟨hsame, hsim⟩ := hgood a b op hab hcond
        have hnext := hview _ _ hsim
        simp [hcond, hsame, hnext, ih hsim]
      · have hdiff := hbad a b op hab hcond
        simp [hcond, hdiff]

/-- Systems that a simulation relates, and keeps relating at every step, agree along every
run. -/
theorem lockstep_of_simulation {α β ι ρ τ : Type*} {stepA : α → ι → ρ × α} {stepB : β → ι → τ × β}
    {same : ρ → τ → Prop} {view sim : α → β → Prop}
    (hstep : ∀ a b op, sim a b →
      same (stepA a op).1 (stepB b op).1 ∧ sim (stepA a op).2 (stepB b op).2)
    (hview : ∀ a b, sim a b → view a b) {a : α} {b : β} (hab : sim a b) (ops : List ι) :
    Lockstep stepA stepB same view a b ops := by
  induction ops generalizing a b with
  | nil => trivial
  | cons op ops ih =>
      obtain ⟨hsame, hsim⟩ := hstep a b op hab
      exact ⟨hsame, hview _ _ hsim, ih hsim⟩

/-- Systems that a simulation relates, and keeps relating at every step that meets `cond`, agree
along every run of such steps. -/
theorem lockstep_of_everyStep {α β ι ρ τ : Type*} {stepA : α → ι → ρ × α} {stepB : β → ι → τ × β}
    {same : ρ → τ → Prop} {view sim : α → β → Prop} {cond : α → ι → Prop}
    (hstep : ∀ a b op, sim a b → cond a op →
      same (stepA a op).1 (stepB b op).1 ∧ sim (stepA a op).2 (stepB b op).2)
    (hview : ∀ a b, sim a b → view a b) {a : α} {b : β} (hab : sim a b) {ops : List ι}
    (h : EveryStep stepA cond a ops) : Lockstep stepA stepB same view a b ops := by
  induction ops generalizing a b with
  | nil => trivial
  | cons op ops ih =>
      obtain ⟨hsame, hsim⟩ := hstep a b op hab h.1
      exact ⟨hsame, hview _ _ hsim, ih hsim h.2⟩

/-! ## Every state of a run -/

/-- `P` holds in every state of the system's run. -/
def EveryState {α ι ρ : Type*} (stepA : α → ι → ρ × α) (P : α → Prop) : α → List ι → Prop
  | a, [] => P a
  | a, op :: ops => P a ∧ EveryState stepA P (stepA a op).2 ops

/-- What the steps that meet `cond` preserve holds in every state of a run of such steps. -/
theorem everyState_of_everyStep {α ι ρ : Type*} {stepA : α → ι → ρ × α} {P : α → Prop}
    {cond : α → ι → Prop} (hgood : ∀ a op, P a → cond a op → P (stepA a op).2) {a : α}
    (ha : P a) {ops : List ι} (h : EveryStep stepA cond a ops) : EveryState stepA P a ops := by
  induction ops generalizing a with
  | nil => exact ha
  | cons op ops ih => exact ⟨ha, ih (hgood a op ha h.1) h.2⟩

theorem everyState_of_preserved {α ι ρ : Type*} {stepA : α → ι → ρ × α} {P : α → Prop}
    (hstep : ∀ a op, P a → P (stepA a op).2) {a : α} (ha : P a) (ops : List ι) :
    EveryState stepA P a ops := by
  induction ops generalizing a with
  | nil => exact ha
  | cons op ops ih => exact ⟨ha, ih (hstep a op ha)⟩

theorem EveryState.mono {α ι ρ : Type*} {stepA : α → ι → ρ × α} {P Q : α → Prop}
    (hPQ : ∀ a, P a → Q a) {a : α} {ops : List ι} (h : EveryState stepA P a ops) :
    EveryState stepA Q a ops := by
  induction ops generalizing a with
  | nil => exact hPQ a h
  | cons op ops ih => exact ⟨hPQ a h.1, ih h.2⟩

theorem EveryState.head {α ι ρ : Type*} {stepA : α → ι → ρ × α} {P : α → Prop} {a : α}
    {ops : List ι} (h : EveryState stepA P a ops) : P a := by
  cases ops with
  | nil => exact h
  | cons op ops => exact h.1

theorem EveryState.last {α ι ρ : Type*} {stepA : α → ι → ρ × α} {P : α → Prop} {a : α}
    {ops : List ι} (h : EveryState stepA P a ops) :
    P (ops.foldl (fun a op => (stepA a op).2) a) := by
  induction ops generalizing a with
  | nil => exact h
  | cons op ops ih => exact ih h.2

theorem everyStep_append {α ι ρ : Type*} {stepA : α → ι → ρ × α} {cond : α → ι → Prop} {a : α}
    {first second : List ι} : EveryStep stepA cond a (first ++ second) ↔
      EveryStep stepA cond a first ∧
        EveryStep stepA cond (first.foldl (fun a op => (stepA a op).2) a) second := by
  induction first generalizing a with
  | nil => simp [EveryStep]
  | cons op ops ih => simp [EveryStep, ih, and_assoc]

theorem EveryStep.and {α ι ρ : Type*} {stepA : α → ι → ρ × α} {p q : α → ι → Prop} {a : α}
    {ops : List ι} (hp : EveryStep stepA p a ops) (hq : EveryStep stepA q a ops) :
    EveryStep stepA (fun a op => p a op ∧ q a op) a ops := by
  induction ops generalizing a with
  | nil => trivial
  | cons op ops ih => exact ⟨⟨hp.1, hq.1⟩, ih hp.2 hq.2⟩

/-- Under an invariant of every step, the steps of a run that are all of one kind are all of
another that the first implies. -/
theorem EveryStep.imp {α ι ρ : Type*} {stepA : α → ι → ρ × α} {P : α → Prop} {p q : α → ι → Prop}
    (hkeep : ∀ a op, P a → P (stepA a op).2) (himp : ∀ a op, P a → p a op → q a op) {a : α}
    (ha : P a) {ops : List ι} (h : EveryStep stepA p a ops) : EveryStep stepA q a ops := by
  induction ops generalizing a with
  | nil => trivial
  | cons op ops ih => exact ⟨himp a op ha h.1, ih (hkeep a op ha) h.2⟩

/-- If under an invariant a step is good exactly when it meets `cond`, and the steps that
meet it keep the invariant, then the steps of a run are all good exactly when they all meet
`cond`. -/
theorem everyStep_iff {α ι ρ : Type*} {stepA : α → ι → ρ × α} {P : α → Prop}
    {good cond admitted : α → ι → Prop}
    (hiff : ∀ a op, P a → admitted a op → (good a op ↔ cond a op))
    (hkeep : ∀ a op, P a → admitted a op ∧ cond a op → P (stepA a op).2) {a : α} (ha : P a)
    {ops : List ι} (hadmitted : EveryStep stepA admitted a ops) :
    EveryStep stepA good a ops ↔ EveryStep stepA cond a ops := by
  induction ops generalizing a with
  | nil => exact Iff.rfl
  | cons op ops ih =>
      simp only [EveryStep]
      rw [hiff a op ha hadmitted.1]
      exact and_congr_right fun hcond => ih (hkeep a op ha ⟨hadmitted.1, hcond⟩) hadmitted.2

/-- If every other step loses `Q`, a run whose states all have `Q` has only steps that meet
`cond`. -/
theorem everyStep_of_everyState {α ι ρ : Type*} {stepA : α → ι → ρ × α} {P Q : α → Prop}
    {cond admitted : α → ι → Prop} (hgood : ∀ a op, P a → cond a op → P (stepA a op).2)
    (hbad : ∀ a op, P a → admitted a op → ¬ cond a op → ¬ Q (stepA a op).2) {a : α} (ha : P a)
    {ops : List ι} (hadmitted : EveryStep stepA admitted a ops) (h : EveryState stepA Q a ops) :
    EveryStep stepA cond a ops := by
  induction ops generalizing a with
  | nil => trivial
  | cons op ops ih =>
      have hcond : cond a op := by
        by_contra hnot
        exact hbad a op ha hadmitted.1 hnot h.2.head
      exact ⟨hcond, ih (hgood a op ha hcond) hadmitted.2 h.2⟩

/-- If the steps that meet `cond` keep an invariant that implies `Q`, and every other step loses
`Q`, the states of a run all have `Q` exactly when its steps all meet `cond`. -/
theorem everyState_iff_everyStep {α ι ρ : Type*} {stepA : α → ι → ρ × α} {P Q : α → Prop}
    {cond : α → ι → Prop} (hgood : ∀ a op, P a → cond a op → P (stepA a op).2)
    (hbad : ∀ a op, P a → ¬ cond a op → ¬ Q (stepA a op).2) (hPQ : ∀ a, P a → Q a) {a : α}
    (ha : P a) (ops : List ι) : EveryState stepA Q a ops ↔ EveryStep stepA cond a ops := by
  induction ops generalizing a with
  | nil => simp [EveryState, EveryStep, hPQ a ha]
  | cons op ops ih =>
      simp only [EveryState, EveryStep, hPQ a ha, true_and]
      by_cases hcond : cond a op
      · simp [hcond, ih (hgood a op ha hcond)]
      · have hlost := hbad a op ha hcond
        simp only [hcond, false_and, iff_false]
        intro h
        exact hlost h.head

end Runs
