import Mathlib.Logic.Function.Basic
import Vre.Library.Runs

/-! # Transactions over a shared store

A transaction asks questions, decides on the answers, and fails or ends with one write. The
transactions of many clients interleave access by access. What each write guarantees to the
others holds along every run; and a run in which no write changes an answer that an open
transaction already has is the serial run of its transactions, in the order they end.
-/

namespace Transactions

/-! ## Readings -/

/-- Questions, each followed by a decision on its answer, up to a failure or a result. -/
inductive Reading (Q A E α : Type) where
  | done (a : α)
  | fail (e : E)
  | ask (q : Q) (next : A → Reading Q A E α)

namespace Reading

variable {Q A E α β : Type}

def bind : Reading Q A E α → (α → Reading Q A E β) → Reading Q A E β
  | .done a, f => f a
  | .fail e, _ => .fail e
  | .ask q next, f => .ask q fun a => (next a).bind f

instance : Monad (Reading Q A E) where
  pure := .done
  bind := bind

theorem bind_assoc {γ : Type} (r : Reading Q A E α) (f : α → Reading Q A E β)
    (g : β → Reading Q A E γ) : r >>= f >>= g = r >>= fun a => f a >>= g := by
  induction r with
  | done a => rfl
  | fail e => rfl
  | ask q next ih => exact congrArg (ask q) (funext ih)

def ofExcept : Except E α → Reading Q A E α
  | .ok a => .done a
  | .error e => .fail e

/-- The result of a reading whose questions are all answered at once. -/
def run (answer : Q → A) : Reading Q A E α → Except E α
  | .done a => .ok a
  | .fail e => .error e
  | .ask q next => (next (answer q)).run answer

theorem run_bind (answer : Q → A) (r : Reading Q A E α) (f : α → Reading Q A E β) :
    (r >>= f).run answer = r.run answer >>= fun a => (f a).run answer := by
  induction r with
  | done a => rfl
  | fail e => rfl
  | ask q next ih => exact ih (answer q)

theorem run_ofExcept (answer : Q → A) (x : Except E α) :
    (ofExcept x : Reading Q A E α).run answer = x := by
  cases x <;> rfl

/-- The reading comes to `rest` when the questions are answered in turn. -/
inductive Follows (answer : Q → A) (r : Reading Q A E α) : List Q → Reading Q A E α → Prop where
  | nil : Follows answer r [] r
  | snoc {asked q next} : Follows answer r asked (.ask q next) →
      Follows answer r (asked ++ [q]) (next (answer q))

theorem Follows.run_eq {answer : Q → A} {r rest : Reading Q A E α} {asked : List Q}
    (h : Follows answer r asked rest) : r.run answer = rest.run answer := by
  induction h with
  | nil => rfl
  | snoc _ ih => exact ih

theorem Follows.congr {answer answer' : Q → A} {r rest : Reading Q A E α} {asked : List Q}
    (h : Follows answer r asked rest) (hsame : ∀ q ∈ asked, answer' q = answer q) :
    Follows answer' r asked rest := by
  induction h with
  | nil => exact .nil
  | @snoc asked q next _ ih =>
      have hq : answer' q = answer q := hsame q (List.mem_append_right _ List.mem_cons_self)
      rw [← hq]
      apply Follows.snoc
      apply ih
      intro q' hq'
      exact hsame q' (List.mem_append_left _ hq')

end Reading

/-! ## Interleaved runs -/

/-- A store that clients share: how it answers questions, and what a write hands back and does
to the store. -/
structure Store (σ Q A W ρ : Type) where
  answer : σ → Q → A
  write : σ → W → ρ × σ

/-- A transaction under way: what it has asked, and what is left of it. -/
structure Progress (Q A E W : Type) where
  asked : List Q
  rest : Reading Q A E W

structure Config (ι σ Q A E W ρ : Type) where
  store : σ
  pending : ι → Option (Progress Q A E W)
  ended : List (ι × Except E ρ)

variable {ι σ Q A E W ρ : Type}

/-- Every transaction is still to begin. -/
def Config.start (t : ι → Reading Q A E W) (s : σ) : Config ι σ Q A E W ρ :=
  ⟨s, fun i => some ⟨[], t i⟩, []⟩

/-- What a client has asked, while its transaction is open. -/
def Config.asked (c : Config ι σ Q A E W ρ) (i : ι) : List Q :=
  match c.pending i with
  | some progress => progress.asked
  | none => []

/-- The write that a client makes next, if that is what it does next. -/
def Config.writing (c : Config ι σ Q A E W ρ) (i : ι) : Option W :=
  match c.pending i with
  | some ⟨_, .done w⟩ => some w
  | _ => none

theorem Config.writing_eq_some {c : Config ι σ Q A E W ρ} {i : ι} {w : W} :
    c.writing i = some w ↔ ∃ asked, c.pending i = some ⟨asked, .done w⟩ := by
  unfold Config.writing
  constructor
  · intro h
    split at h
    · rename_i asked w' hpending
      cases h
      exact ⟨asked, hpending⟩
    · cases h
  · intro h
    obtain ⟨asked, hpending⟩ := h
    rw [hpending]

namespace Store

variable (S : Store σ Q A W ρ)

/-- A transaction that runs alone. -/
def run (r : Reading Q A E W) (s : σ) : Except E ρ × σ :=
  match r.run (S.answer s) with
  | .ok w => (.ok (S.write s w).1, (S.write s w).2)
  | .error e => (.error e, s)

/-- Transactions that run one after the other: how each ended, and the store after them. -/
def serial (t : ι → Reading Q A E W) (order : List ι) (s : σ) : List (ι × Except E ρ) × σ :=
  order.foldl (fun done i => (done.1 ++ [(i, (S.run (t i) done.2).1)], (S.run (t i) done.2).2))
    ([], s)

theorem serial_concat (t : ι → Reading Q A E W) (order : List ι) (i : ι) (s : σ) :
    S.serial t (order ++ [i]) s =
      ((S.serial t order s).1 ++ [(i, (S.run (t i) (S.serial t order s).2).1)],
        (S.run (t i) (S.serial t order s).2).2) := by
  simp [serial]

variable [DecidableEq ι]

/-- One access of a client. -/
def step (c : Config ι σ Q A E W ρ) (i : ι) : Config ι σ Q A E W ρ :=
  match c.pending i with
  | none => c
  | some ⟨_, .done w⟩ =>
      ⟨(S.write c.store w).2, Function.update c.pending i none,
        c.ended ++ [(i, .ok (S.write c.store w).1)]⟩
  | some ⟨_, .fail e⟩ =>
      ⟨c.store, Function.update c.pending i none, c.ended ++ [(i, .error e)]⟩
  | some ⟨asked, .ask q next⟩ =>
      ⟨c.store, Function.update c.pending i (some ⟨asked ++ [q], next (S.answer c.store q)⟩),
        c.ended⟩

/-- The clients access the store in the order of the schedule. -/
def interleave (c : Config ι σ Q A E W ρ) (schedule : List ι) : Config ι σ Q A E W ρ :=
  schedule.foldl S.step c

theorem step_of_none {c : Config ι σ Q A E W ρ} {i : ι} (h : c.pending i = none) :
    S.step c i = c := by
  simp only [step, h]

theorem step_of_done {c : Config ι σ Q A E W ρ} {i : ι} {asked : List Q} {w : W}
    (h : c.pending i = some ⟨asked, .done w⟩) : S.step c i =
      ⟨(S.write c.store w).2, Function.update c.pending i none,
        c.ended ++ [(i, .ok (S.write c.store w).1)]⟩ := by
  simp only [step, h]

theorem step_of_fail {c : Config ι σ Q A E W ρ} {i : ι} {asked : List Q} {e : E}
    (h : c.pending i = some ⟨asked, .fail e⟩) : S.step c i =
      ⟨c.store, Function.update c.pending i none, c.ended ++ [(i, .error e)]⟩ := by
  simp only [step, h]

theorem step_of_ask {c : Config ι σ Q A E W ρ} {i : ι} {asked : List Q} {q : Q}
    {next : A → Reading Q A E W} (h : c.pending i = some ⟨asked, .ask q next⟩) : S.step c i =
      ⟨c.store, Function.update c.pending i (some ⟨asked ++ [q], next (S.answer c.store q)⟩),
        c.ended⟩ := by
  simp only [step, h]

/-! ## Rely and guarantee -/

/-- Whatever the others do between its accesses, as far as the rely allows it, the
transaction ends with a write that meets `post` when it is made. -/
def Safe (S : Store σ Q A W ρ) (rely : σ → σ → Prop) (post : σ → W → Prop) :
    σ → Reading Q A E W → Prop
  | s, .done w => ∀ s', rely s s' → post s' w
  | _, .fail _ => True
  | s, .ask q next => ∀ s', rely s s' → Safe S rely post s' (next (S.answer s' q))

variable {S}

theorem Safe.mono {rely : σ → σ → Prop} (htrans : ∀ s s' s'', rely s s' → rely s' s'' → rely s s'')
    {post : σ → W → Prop} {s s' : σ} {r : Reading Q A E W} (h : S.Safe rely post s r)
    (hrely : rely s s') : S.Safe rely post s' r := by
  cases r with
  | done w => exact fun s'' h' => h s'' (htrans s s' s'' hrely h')
  | fail e => trivial
  | ask q next => exact fun s'' h' => h s'' (htrans s s' s'' hrely h')

omit [DecidableEq ι] in
/-- A safe transaction that runs alone makes a write that meets `post`. -/
theorem Safe.run {rely : σ → σ → Prop} (hrefl : ∀ s, rely s s) {post : σ → W → Prop} {s : σ}
    {r : Reading Q A E W} (h : S.Safe rely post s r) {w : W} (hrun : r.run (S.answer s) = .ok w) :
    post s w := by
  induction r with
  | done w' =>
      cases hrun
      exact h s (hrefl s)
  | fail e => cases hrun
  | ask q next ih => exact ih _ (h s (hrefl s)) hrun

omit [DecidableEq ι] in
/-- A check that passes leaves the rest to be safe. -/
theorem safe_ofExcept_bind {α : Type} {rely : σ → σ → Prop} {post : σ → W → Prop} {s : σ}
    {x : Except E α} {f : α → Reading Q A E W}
    (h : ∀ a, x = .ok a → S.Safe rely post s (f a)) :
    S.Safe rely post s (Reading.ofExcept x >>= f) := by
  cases x with
  | ok a => exact h a rfl
  | error e => trivial

/-- What the clients owe each other: a write that meets its `post` gives the guarantee, and
stays within what every other client relies on. -/
structure Contract (S : Store σ Q A W ρ) (rely : ι → σ → σ → Prop) (post : ι → σ → W → Prop)
    (guar : σ → σ → Prop) : Prop where
  rely_refl : ∀ i s, rely i s s
  rely_trans : ∀ i s s' s'', rely i s s' → rely i s' s'' → rely i s s''
  guar_refl : ∀ s, guar s s
  guar_trans : ∀ s s' s'', guar s s' → guar s' s'' → guar s s''
  gives : ∀ i s w, post i s w → guar s (S.write s w).2
  relied : ∀ i j s w, i ≠ j → post i s w → rely j s (S.write s w).2

/-- Every open transaction is safe in the state reached. -/
def AllSafe (S : Store σ Q A W ρ) (rely : ι → σ → σ → Prop) (post : ι → σ → W → Prop)
    (c : Config ι σ Q A E W ρ) : Prop :=
  ∀ i p, c.pending i = some p → S.Safe (rely i) (post i) c.store p.rest

/-- The other transactions stay safe when the state moves within their rely. -/
theorem AllSafe.update {rely : ι → σ → σ → Prop}
    (htrans : ∀ i s s' s'', rely i s s' → rely i s' s'' → rely i s s'') {post : ι → σ → W → Prop}
    {c : Config ι σ Q A E W ρ} (h : AllSafe S rely post c) {i : ι} {s' : σ}
    {own : Option (Progress Q A E W)}
    (hown : ∀ p, own = some p → S.Safe (rely i) (post i) s' p.rest)
    (hrely : ∀ j, i ≠ j → rely j c.store s') (ended : List (ι × Except E ρ)) :
    AllSafe S rely post ⟨s', Function.update c.pending i own, ended⟩ := by
  intro j p hp
  by_cases hij : j = i
  · subst hij
    simp only [Function.update_self] at hp
    exact hown p hp
  · simp only [Function.update_of_ne hij] at hp
    exact (h j p hp).mono (htrans j) (hrely j fun h => hij h.symm)

theorem AllSafe.step {rely : ι → σ → σ → Prop} {post : ι → σ → W → Prop} {guar : σ → σ → Prop}
    (hcontract : S.Contract rely post guar) {c : Config ι σ Q A E W ρ}
    (h : AllSafe S rely post c) (i : ι) :
    guar c.store (S.step c i).store ∧ AllSafe S rely post (S.step c i) := by
  cases hpending : c.pending i with
  | none =>
      rw [S.step_of_none hpending]
      exact ⟨hcontract.guar_refl _, h⟩
  | some progress =>
      have hnow := h i progress hpending
      cases progress with
      | mk asked r =>
          cases r with
          | done w =>
              have hpost : post i c.store w := hnow c.store (hcontract.rely_refl i _)
              rw [S.step_of_done hpending]
              refine ⟨hcontract.gives i c.store w hpost, ?_⟩
              apply h.update hcontract.rely_trans (by simp)
              intro j hij
              exact hcontract.relied i j c.store w hij hpost
          | fail e =>
              rw [S.step_of_fail hpending]
              refine ⟨hcontract.guar_refl _, ?_⟩
              apply h.update hcontract.rely_trans (by simp)
              exact fun j _ => hcontract.rely_refl j _
          | ask q next =>
              rw [S.step_of_ask hpending]
              refine ⟨hcontract.guar_refl _, ?_⟩
              apply h.update hcontract.rely_trans
              · intro p hp
                cases hp
                exact hnow c.store (hcontract.rely_refl i _)
              · exact fun j _ => hcontract.rely_refl j _

/-- The guarantee holds from the first state of an interleaved run to the last, where what is
open is still safe. -/
theorem AllSafe.interleave {rely : ι → σ → σ → Prop} {post : ι → σ → W → Prop}
    {guar : σ → σ → Prop} (hcontract : S.Contract rely post guar) {c : Config ι σ Q A E W ρ}
    (h : AllSafe S rely post c) (schedule : List ι) :
    guar c.store (S.interleave c schedule).store ∧
      AllSafe S rely post (S.interleave c schedule) := by
  induction schedule generalizing c with
  | nil => exact ⟨hcontract.guar_refl _, h⟩
  | cons i rest ih =>
      have hstep := h.step hcontract i
      have hrest := ih hstep.2
      exact ⟨hcontract.guar_trans _ _ _ hstep.1 hrest.1, hrest.2⟩

/-! ## Serializability -/

variable (S)

/-- The access changes no answer that another open transaction already has. -/
def Undisturbed (c : Config ι σ Q A E W ρ) (i : ι) : Prop :=
  ∀ w ∈ c.writing i, ∀ j, j ≠ i → ∀ q ∈ c.asked j,
    S.answer (S.write c.store w).2 q = S.answer c.store q

/-- The transactions that have ended ran one after the other, and what the open ones have
asked is answered as before. -/
structure Serialized (t : ι → Reading Q A E W) (s : σ) (c : Config ι σ Q A E W ρ) : Prop where
  serial : S.serial t (c.ended.map Prod.fst) s = (c.ended, c.store)
  follows : ∀ i p, c.pending i = some p → (t i).Follows (S.answer c.store) p.asked p.rest
  once : (c.ended.map Prod.fst).Nodup
  closed : ∀ i ∈ c.ended.map Prod.fst, c.pending i = none

variable {S}

omit [DecidableEq ι] in
theorem Serialized.start (t : ι → Reading Q A E W) (s : σ) :
    S.Serialized t s (Config.start t s) where
  serial := rfl
  follows i p hp := by
    cases hp
    exact .nil
  once := List.nodup_nil
  closed := nofun

/-- A transaction that ends as it would alone is the next of the serial run. -/
theorem Serialized.ends {t : ι → Reading Q A E W} {s : σ} {c : Config ι σ Q A E W ρ}
    (h : S.Serialized t s c) {i : ι} {progress : Progress Q A E W}
    (hpending : c.pending i = some progress) {outcome : Except E ρ} {s' : σ}
    (hrun : S.run (t i) c.store = (outcome, s'))
    (hsame : ∀ j, j ≠ i → ∀ q ∈ c.asked j, S.answer s' q = S.answer c.store q) :
    S.Serialized t s ⟨s', Function.update c.pending i none, c.ended ++ [(i, outcome)]⟩ where
  serial := by
    rw [List.map_append, List.map_cons, List.map_nil, serial_concat, h.serial, hrun]
  follows j p hp := by
    by_cases hij : j = i
    · subst hij
      simp at hp
    · simp only [Function.update_of_ne hij] at hp
      have hasked : c.asked j = p.asked := by simp only [Config.asked, hp]
      exact (h.follows j p hp).congr (hasked ▸ hsame j hij)
  once := by
    rw [List.map_append]
    apply List.nodup_append.mpr
    refine ⟨h.once, by simp, ?_⟩
    intro j hj k hk heq
    have hclosed := h.closed j hj
    rw [heq, List.mem_singleton.mp hk, hpending] at hclosed
    cases hclosed
  closed j hj := by
    by_cases hij : j = i
    · subst hij
      simp
    · simp only [Function.update_of_ne hij]
      rw [List.map_append, List.mem_append] at hj
      rcases hj with hj | hj
      · exact h.closed j hj
      · exact absurd (List.mem_singleton.mp hj) hij

theorem Serialized.step {t : ι → Reading Q A E W} {s : σ} {c : Config ι σ Q A E W ρ}
    (h : S.Serialized t s c) {i : ι} (hquiet : S.Undisturbed c i) :
    S.Serialized t s (S.step c i) := by
  cases hpending : c.pending i with
  | none =>
      rw [S.step_of_none hpending]
      exact h
  | some progress =>
      cases progress with
      | mk asked r =>
          have hfollows := h.follows i _ hpending
          cases r with
          | done w =>
              rw [S.step_of_done hpending]
              apply h.ends hpending _ (hquiet w (Config.writing_eq_some.mpr ⟨asked, hpending⟩))
              simp only [run, hfollows.run_eq, Reading.run]
          | fail e =>
              rw [S.step_of_fail hpending]
              apply h.ends hpending
              · simp only [run, hfollows.run_eq, Reading.run]
              · exact fun _ _ _ _ => rfl
          | ask q next =>
              rw [S.step_of_ask hpending]
              refine ⟨h.serial, ?_, h.once, ?_⟩
              · intro j p hp
                by_cases hij : j = i
                · subst hij
                  simp only [Function.update_self] at hp
                  cases hp
                  exact hfollows.snoc
                · simp only [Function.update_of_ne hij] at hp
                  exact h.follows j p hp
              · intro j hj
                have hclosed := h.closed j hj
                have hij : j ≠ i := by
                  intro heq
                  rw [heq, hpending] at hclosed
                  cases hclosed
                simp only [Function.update_of_ne hij]
                exact hclosed

/-- A run whose writes all leave the open transactions undisturbed is serial. -/
theorem serialized_interleave {t : ι → Reading Q A E W} {s : σ} {schedule : List ι}
    (h : Runs.EveryStep (fun c i => ((), S.step c i)) S.Undisturbed (Config.start t s) schedule) :
    S.Serialized t s (S.interleave (Config.start t s) schedule) := by
  have hstates := Runs.everyState_of_everyStep (P := S.Serialized t s)
    (fun _ _ hc hquiet => hc.step hquiet) (.start t s) h
  exact hstates.last

/-! ## Two stores -/

/-- Two configurations whose transactions stand at the same point, over related stores. -/
structure Alike {τ : Type} (sim : σ → τ → Prop) (c : Config ι σ Q A E W ρ)
    (d : Config ι τ Q A E W ρ) : Prop where
  store : sim c.store d.store
  pending : c.pending = d.pending
  ended : c.ended = d.ended

/-- A write does alike to related stores, and they answer alike. -/
structure Simulates {τ : Type} (S : Store σ Q A W ρ) (T : Store τ Q A W ρ)
    (sim : σ → τ → Prop) : Prop where
  answer : ∀ s t, sim s t → ∀ q, S.answer s q = T.answer t q
  write : ∀ s t, sim s t → ∀ w, (S.write s w).1 = (T.write t w).1 ∧
    sim (S.write s w).2 (T.write t w).2

omit [DecidableEq ι] in
theorem Simulates.run {τ : Type} {T : Store τ Q A W ρ} {sim : σ → τ → Prop}
    (h : S.Simulates T sim) {s : σ} {t : τ} (hst : sim s t) (r : Reading Q A E W) :
    (S.run r s).1 = (T.run r t).1 ∧ sim (S.run r s).2 (T.run r t).2 := by
  have hanswer : S.answer s = T.answer t := funext (h.answer s t hst)
  unfold Store.run
  rw [hanswer]
  cases r.run (T.answer t) with
  | ok w =>
      obtain ⟨hreply, hnext⟩ := h.write s t hst w
      exact ⟨congrArg Except.ok hreply, hnext⟩
  | error e => exact ⟨rfl, hst⟩

theorem Alike.step {τ : Type} {T : Store τ Q A W ρ} {sim : σ → τ → Prop}
    (hsim : S.Simulates T sim) {c : Config ι σ Q A E W ρ} {d : Config ι τ Q A E W ρ}
    (h : Alike sim c d) (i : ι) : Alike sim (S.step c i) (T.step d i) := by
  cases hpending : c.pending i with
  | none =>
      rw [S.step_of_none hpending, T.step_of_none (h.pending ▸ hpending)]
      exact h
  | some progress =>
      cases progress with
      | mk asked r =>
          have hpending' : d.pending i = some ⟨asked, r⟩ := h.pending ▸ hpending
          cases r with
          | done w =>
              obtain ⟨hreply, hnext⟩ := hsim.write _ _ h.store w
              rw [S.step_of_done hpending, T.step_of_done hpending']
              exact ⟨hnext, by simp only [h.pending], by simp only [h.ended, hreply]⟩
          | fail e =>
              rw [S.step_of_fail hpending, T.step_of_fail hpending']
              exact ⟨h.store, by simp only [h.pending], by simp only [h.ended]⟩
          | ask q next =>
              have hanswer := hsim.answer _ _ h.store q
              rw [S.step_of_ask hpending, T.step_of_ask hpending']
              exact ⟨h.store, by simp only [h.pending, hanswer], h.ended⟩

/-- Interleaved runs over related stores end alike. -/
theorem Alike.interleave {τ : Type} {T : Store τ Q A W ρ} {sim : σ → τ → Prop}
    (hsim : S.Simulates T sim) (schedule : List ι) {c : Config ι σ Q A E W ρ}
    {d : Config ι τ Q A E W ρ} (h : Alike sim c d) :
    Alike sim (S.interleave c schedule) (T.interleave d schedule) := by
  induction schedule generalizing c d with
  | nil => exact h
  | cons i rest ih => exact ih (h.step hsim i)

end Store

end Transactions
