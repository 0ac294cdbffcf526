import Mathlib.Data.List.Basic
import Mathlib.Data.Stream.Init

/-! # Loops that may fail

What it means for a bind and for a loop over a list to succeed or to fail, in `Except` and in
`EStateM`. A failed loop names the element at which it stopped. A loop that runs until a round
reports that it is done ends when its rounds decrease a rank.
-/

namespace Loops

/-! ## `Except` -/

theorem pure_eq_ok {ε α : Type} (a : α) : (pure a : Except ε α) = .ok a := rfl

theorem ok_bind {ε α β : Type} (a : α) (f : α → Except ε β) :
    ((Except.ok a : Except ε α) >>= f) = f a := rfl

theorem except_bind_ok {ε α β : Type} {x : Except ε α} {f : α → Except ε β} {b : β} :
    x >>= f = .ok b ↔ ∃ a, x = .ok a ∧ f a = .ok b := by
  cases x with
  | ok a => exact ⟨fun h => ⟨a, rfl, h⟩, fun ⟨_, ha, h⟩ => by cases ha; exact h⟩
  | error e => exact ⟨fun h => (nomatch h), fun ⟨_, ha, _⟩ => (nomatch ha)⟩

theorem except_bind_error {ε α β : Type} {x : Except ε α} {f : α → Except ε β} {e : ε}
    (h : x >>= f = .error e) : x = .error e ∨ ∃ a, x = .ok a ∧ f a = .error e := by
  cases x with
  | ok a => exact Or.inr ⟨a, rfl, h⟩
  | error e' =>
      cases h
      exact Or.inl rfl

theorem except_seq_ok {ε β : Type} {x : Except ε Unit} {f : Unit → Except ε β} {b : β} :
    x >>= f = .ok b ↔ x = .ok () ∧ f () = .ok b :=
  except_bind_ok.trans ⟨fun ⟨_, hx, h⟩ => ⟨hx, h⟩, fun ⟨hx, h⟩ => ⟨(), hx, h⟩⟩

theorem forM_cons {m : Type → Type} [Monad m] {α : Type} (f : α → m Unit) (x : α)
    (rest : List α) : (x :: rest).forM f = f x >>= fun _ => rest.forM f := rfl

theorem except_forM_ok {ε α : Type} {l : List α} {f : α → Except ε Unit} :
    l.forM f = .ok () ↔ ∀ x ∈ l, f x = .ok () := by
  induction l with
  | nil => exact ⟨fun _ _ hx => (nomatch hx), fun _ => rfl⟩
  | cons x rest ih =>
      rw [forM_cons, except_bind_ok, List.forall_mem_cons]
      exact ⟨fun ⟨(), hx, hrest⟩ => ⟨hx, ih.mp hrest⟩, fun ⟨hx, hrest⟩ => ⟨(), hx, ih.mpr hrest⟩⟩

theorem except_forM_error {ε α : Type} {l : List α} {f : α → Except ε Unit} {e : ε}
    (h : l.forM f = .error e) : ∃ x ∈ l, f x = .error e := by
  induction l with
  | nil => cases h
  | cons x rest ih =>
      rw [forM_cons] at h
      cases hx : f x with
      | error e' =>
          rw [hx] at h
          cases h
          exact ⟨x, by simp, hx⟩
      | ok u =>
          rw [hx] at h
          obtain ⟨y, hy, hfy⟩ := ih h
          exact ⟨y, List.mem_cons_of_mem x hy, hfy⟩

theorem except_mapM_eq_ok {ε α β : Type} {l : List α} {f : α → Except ε β} {g : α → β}
    (h : ∀ x ∈ l, f x = .ok (g x)) : l.mapM f = .ok (l.map g) := by
  induction l with
  | nil => rfl
  | cons x rest ih =>
      obtain ⟨hx, hrest⟩ := List.forall_mem_cons.mp h
      rw [List.mapM_cons, hx, ih hrest]
      rfl

theorem except_mapM_toOption {ε α β : Type} {l : List α} {f : α → Except ε β}
    (h : ∀ x ∈ l, ∃ b, f x = .ok b) : l.mapM f = .ok (l.filterMap fun x => (f x).toOption) := by
  induction l with
  | nil => rfl
  | cons x rest ih =>
      obtain ⟨⟨b, hb⟩, hrest⟩ := List.forall_mem_cons.mp h
      rw [List.mapM_cons, hb, ih hrest, List.filterMap_cons, hb]
      rfl

theorem except_mapM_error {ε α β : Type} {l : List α} {f : α → Except ε β} {e : ε}
    (h : l.mapM f = .error e) : ∃ x ∈ l, f x = .error e := by
  induction l with
  | nil => cases h
  | cons x rest ih =>
      rw [List.mapM_cons] at h
      cases hx : f x with
      | error e' =>
          rw [hx] at h
          cases h
          exact ⟨x, by simp, hx⟩
      | ok b =>
          rw [hx] at h
          cases hrest : rest.mapM f with
          | error e' =>
              rw [hrest] at h
              cases h
              obtain ⟨y, hy, hfy⟩ := ih hrest
              exact ⟨y, List.mem_cons_of_mem x hy, hfy⟩
          | ok bs =>
              rw [hrest] at h
              cases h

theorem except_mapM_forall₂ {ε α β : Type} {l : List α} {f : α → Except ε β} {bs : List β}
    (h : l.mapM f = .ok bs) : List.Forall₂ (fun x b => f x = .ok b) l bs := by
  induction l generalizing bs with
  | nil =>
      cases h
      exact .nil
  | cons x rest ih =>
      rw [List.mapM_cons] at h
      obtain ⟨b, hb, h⟩ := except_bind_ok.mp h
      obtain ⟨tail, htail, h⟩ := except_bind_ok.mp h
      cases h
      exact .cons hb (ih htail)

theorem except_mapM_ok {ε α β : Type} {l : List α} {f : α → Except ε β} {bs : List β}
    (h : l.mapM f = .ok bs) : ∀ x ∈ l, ∃ b ∈ bs, f x = .ok b := by
  induction l generalizing bs with
  | nil => exact fun _ hx => (nomatch hx)
  | cons x rest ih =>
      rw [List.mapM_cons] at h
      obtain ⟨b, hb, h⟩ := except_bind_ok.mp h
      obtain ⟨tail, htail, h⟩ := except_bind_ok.mp h
      cases h
      refine List.forall_mem_cons.mpr ⟨⟨b, by simp, hb⟩, fun y hy => ?_⟩
      obtain ⟨c, hc, hfy⟩ := ih htail y hy
      exact ⟨c, List.mem_cons_of_mem b hc, hfy⟩

/-! ## `EStateM` -/

theorem bind_of_ok {ε σ α β : Type} {x : EStateM ε σ α} {f : α → EStateM ε σ β} {s s' : σ}
    {a : α} (h : x s = .ok a s') : (x >>= f) s = f a s' := by
  change EStateM.bind x f s = _
  simp only [EStateM.bind, h]

theorem bind_of_error {ε σ α β : Type} {x : EStateM ε σ α} {f : α → EStateM ε σ β} {s s' : σ}
    {e : ε} (h : x s = .error e s') : (x >>= f) s = .error e s' := by
  change EStateM.bind x f s = _
  simp only [EStateM.bind, h]

theorem ok_of_run_eq_some {ε σ α : Type} {x : EStateM ε σ α} {s : σ} {a : α}
    (h : x.run' s = some a) : ∃ s', x s = .ok a s' := by
  change (match x s with
    | .ok v _ => some v
    | .error _ _ => none) = some a at h
  cases hrun : x s with
  | ok b s' =>
      rw [hrun] at h
      cases h
      exact ⟨s', rfl⟩
  | error e s' =>
      rw [hrun] at h
      cases h

theorem bind_ok {ε σ α β : Type} {x : EStateM ε σ α} {f : α → EStateM ε σ β} {s s'' : σ}
    {b : β} : (x >>= f) s = .ok b s'' ↔ ∃ a s', x s = .ok a s' ∧ f a s' = .ok b s'' := by
  cases hx : x s with
  | ok a s' =>
      rw [bind_of_ok hx]
      exact ⟨fun h => ⟨a, s', rfl, h⟩, fun ⟨_, _, ha, h⟩ => by cases ha; exact h⟩
  | error e s' =>
      rw [bind_of_error hx]
      exact ⟨fun h => (nomatch h), fun ⟨_, _, ha, _⟩ => (nomatch ha)⟩

theorem tryCatch_of_ok {ε σ α : Type} {x : EStateM ε σ α} {handle : ε → EStateM ε σ α} {s s' : σ}
    {a : α} (h : x s = .ok a s') : (tryCatch x handle : EStateM ε σ α) s = .ok a s' := by
  change EStateM.tryCatch x handle s = _
  simp only [EStateM.tryCatch, h]

theorem tryCatch_of_error {ε σ α : Type} {x : EStateM ε σ α} {handle : ε → EStateM ε σ α}
    {s s' : σ} {e : ε} (h : x s = .error e s') :
    (tryCatch x handle : EStateM ε σ α) s = handle e s' := by
  change EStateM.tryCatch x handle s = _
  simp only [EStateM.tryCatch, h]
  rfl

/-- The results of a flattened list of runs are the results of one run over the flattened
list. -/
theorem mapM_flatten {ε σ α β : Type} (f : α → EStateM ε σ β) (ls : List (List α)) :
    (do return (← ls.mapM fun l => l.mapM f).flatten) = ls.flatten.mapM f := by
  induction ls with
  | nil => rfl
  | cons l rest ih =>
      rw [List.mapM_cons, List.flatten_cons, List.mapM_append, ← ih]
      simp

theorem mapM_congr {ε σ α β : Type} {l : List α} {f g : α → EStateM ε σ β}
    (h : ∀ x ∈ l, f x = g x) : l.mapM f = l.mapM g := by
  induction l with
  | nil => rfl
  | cons x rest ih =>
      obtain ⟨hx, hrest⟩ := List.forall_mem_cons.mp h
      rw [List.mapM_cons, List.mapM_cons, hx, ih hrest]

/-- A loop whose body is itself a loop over a list is one loop over all the lists. -/
theorem mapM_flatMap {ε σ α β γ : Type} {l : List α} {body : α → EStateM ε σ (List γ)}
    {g : α → List β} {f : β → EStateM ε σ γ} (h : ∀ x ∈ l, body x = (g x).mapM f) :
    (do return (← l.mapM body).flatten) = (l.flatMap g).mapM f := by
  rw [mapM_congr h, List.flatMap_def, ← mapM_flatten, List.mapM_map]
  rfl

/-- A loop with a guarded body goes over the elements that pass the guard. -/
theorem flatMap_ite {α β : Type*} (p : α → Prop) [DecidablePred p] (f : α → List β) (l : List α) :
    (l.flatMap fun x => if p x then f x else []) = (l.filter fun x => p x).flatMap f := by
  induction l with
  | nil => rfl
  | cons x rest ih =>
      rw [List.flatMap_cons, ih]
      by_cases hx : p x <;> simp [hx]

/-! ## Loops that run until they are done -/

/-- Run the rounds in order until one reports that it is done, and say whether one did. -/
def untilDone {ε σ ι : Type} (round : ι → EStateM ε σ Bool) : List ι → EStateM ε σ Bool
  | [] => return false
  | i :: rest => do
      if ← round i then
        return true
      else
        untilDone round rest

theorem untilDone_cons_of_done {ε σ ι : Type} {round : ι → EStateM ε σ Bool} {i : ι}
    {rest : List ι} {s s' : σ} (h : round i s = .ok true s') :
    untilDone round (i :: rest) s = .ok true s' :=
  bind_of_ok h

theorem untilDone_cons_of_open {ε σ ι : Type} {round : ι → EStateM ε σ Bool} {i : ι}
    {rest : List ι} {s s' : σ} (h : round i s = .ok false s') :
    untilDone round (i :: rest) s = untilDone round rest s' :=
  bind_of_ok h

theorem untilDone_cons_of_error {ε σ ι : Type} {round : ι → EStateM ε σ Bool} {i : ι}
    {rest : List ι} {s s' : σ} {e : ε} (h : round i s = .error e s') :
    untilDone round (i :: rest) s = .error e s' :=
  bind_of_error h

/-- What a round that is done establishes, while the others keep the invariant, a loop that
is done has established. -/
theorem of_untilDone {ε σ ι : Type} {round : ι → EStateM ε σ Bool} (P : σ → Stream' ι → Prop)
    {Q : σ → Prop} (hdone : ∀ s rounds s', P s rounds → round rounds.head s = .ok true s' → Q s')
    (hopen : ∀ s rounds s', P s rounds → round rounds.head s = .ok false s' → P s' rounds.tail)
    {s s' : σ} {rounds : Stream' ι} (hs : P s rounds) {n : ℕ}
    (h : untilDone round (rounds.take n) s = .ok true s') : Q s' := by
  induction n generalizing s rounds with
  | zero => cases h
  | succ n ih =>
      rw [Stream'.take_succ] at h
      cases hround : round rounds.head s with
      | error e s₁ =>
          rw [untilDone_cons_of_error hround] at h
          cases h
      | ok done s₁ =>
          cases done with
          | false =>
              rw [untilDone_cons_of_open hround] at h
              exact ih (hopen s rounds s₁ hs hround) h
          | true =>
              rw [untilDone_cons_of_done hround] at h
              cases h
              exact hdone s rounds _ hs hround

/-- When every round is done, or keeps the invariant at a lower rank, the loop ends. -/
theorem exists_untilDone {ε σ ι : Type} {round : ι → EStateM ε σ Bool} (P : σ → Stream' ι → Prop)
    (rank : σ → ℕ) (hround : ∀ s rounds, P s rounds → (∃ s', round rounds.head s = .ok true s') ∨
      ∃ s', round rounds.head s = .ok false s' ∧ P s' rounds.tail ∧ rank s' < rank s)
    {s : σ} {rounds : Stream' ι} (hs : P s rounds) :
    ∃ n s', untilDone round (rounds.take n) s = .ok true s' := by
  induction hrank : rank s using Nat.strong_induction_on generalizing s rounds with
  | _ bound ih =>
      rcases hround s rounds hs with ⟨s', hdone⟩ | ⟨s', hopen, hs', hlower⟩
      · exact ⟨1, s', untilDone_cons_of_done hdone⟩
      · obtain ⟨n, s'', hrest⟩ := ih (rank s') (hrank ▸ hlower) hs' rfl
        exact ⟨n + 1, s'', (untilDone_cons_of_open hopen).trans hrest⟩

end Loops
