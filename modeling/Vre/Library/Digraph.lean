import Mathlib.Logic.Relation

/-! # Directed graphs as relations

Acyclicity when the outgoing edges of one node are replaced, and reachability along the
edges that a gate lets through.
-/

namespace Digraph

open Relation

/-- No node reaches itself along one or more edges. -/
def Acyclic {α : Type*} (E : α → α → Prop) : Prop :=
  ∀ x, ¬ TransGen E x x

theorem Acyclic.mono {α : Type*} {E F : α → α → Prop} (h : Acyclic F)
    (hsub : ∀ a b, E a b → F a b) : Acyclic E :=
  fun x hx => h x (TransGen.mono hsub x x hx)

/-! ## Replacing the outgoing edges of one node -/

/-- The edges of `E` that do not leave `p`. -/
def Without {α : Type*} (E : α → α → Prop) (p a b : α) : Prop :=
  a ≠ p ∧ E a b

/-- A walk into `p` either never leaves `p`, or has a last edge out of `p`. -/
theorem last_exit {α : Type*} {E : α → α → Prop} {p a : α} (h : ReflTransGen E a p) :
    ReflTransGen (Without E p) a p ∨ ∃ t, E p t ∧ ReflTransGen (Without E p) t p := by
  induction h using ReflTransGen.head_induction_on with
  | refl => exact Or.inl .refl
  | @head a b hab _ ih =>
      rcases ih with hb | hexit
      · by_cases hap : a = p
        · exact Or.inr ⟨b, hap ▸ hab, hb⟩
        · exact Or.inl (hb.head ⟨hap, hab⟩)
      · exact Or.inr hexit

/-- The edges out of `p` are of no use for reaching `p`. -/
theorem reach_without_iff {α : Type*} {E : α → α → Prop} {p a : α} :
    ReflTransGen (Without E p) a p ↔ ReflTransGen E a p := by
  constructor
  · exact ReflTransGen.mono (fun _ _ hedge => hedge.2) a p
  · intro h
    induction h using ReflTransGen.head_induction_on with
    | refl => exact .refl
    | @head a b hab _ ih =>
        by_cases hap : a = p
        · exact hap ▸ .refl
        · exact ih.head ⟨hap, hab⟩

/-- A walk of one or more edges either avoids leaving `p` or passes through it. -/
theorem avoid_or_through {α : Type*} {E : α → α → Prop} {p a b : α} (h : TransGen E a b) :
    TransGen (Without E p) a b ∨ ∃ t, ReflTransGen E a p ∧ E p t ∧ ReflTransGen E t b := by
  induction h with
  | @single b hab =>
      by_cases hap : a = p
      · exact Or.inr ⟨b, hap ▸ .refl, hap ▸ hab, .refl⟩
      · exact Or.inl (.single ⟨hap, hab⟩)
  | @tail b c hab hbc ih =>
      rcases ih with havoid | ⟨t, hap, hpt, htb⟩
      · by_cases hbp : b = p
        · exact Or.inr ⟨c, hbp ▸ hab.to_reflTransGen, hbp ▸ hbc, .refl⟩
        · exact Or.inl (havoid.tail ⟨hbp, hbc⟩)
      · exact Or.inr ⟨t, hap, hpt, htb.tail hbc⟩

/-- A cycle through `p` closes along one of the edges out of `p`. -/
theorem exists_closing_edge {α : Type*} {E : α → α → Prop} {p x : α} (hx : TransGen E x x) :
    TransGen (Without E p) x x ∨ ∃ t, E p t ∧ ReflTransGen (Without E p) t p := by
  rcases avoid_or_through (p := p) hx with havoid | ⟨t, hxp, hpt, htx⟩
  · exact Or.inl havoid
  · rcases last_exit (htx.trans hxp) with htp | hexit
    · exact Or.inr ⟨t, hpt, htp⟩
    · exact Or.inr hexit

/-- Replacing the edges out of `p` keeps the graph acyclic exactly when no new target
reaches `p` along the edges that were kept. -/
theorem acyclic_rewire_iff {α : Type*} {E : α → α → Prop} {p : α}
    (hkept : Acyclic (Without E p)) :
    Acyclic E ↔ ∀ t, E p t → ¬ ReflTransGen (Without E p) t p := by
  constructor
  · intro hE t hpt htp
    exact hE p (TransGen.head' hpt (ReflTransGen.mono (fun _ _ h => h.2) t p htp))
  · intro hnew x hx
    rcases exists_closing_edge (p := p) hx with havoid | ⟨t, hpt, htp⟩
    · exact hkept x havoid
    · exact hnew t hpt htp

/-! ## Gated reachability -/

/-- When every edge that leaves the gated region passes the gate, the gate hides nothing:
what `E` reaches, the gated edges reach. -/
theorem reach_of_open_gate {α : Type*} {E G : α → α → Prop} {roots : α → Prop} {root x : α}
    (hroot : roots root)
    (hopen : ∀ a b, (∃ r, roots r ∧ ReflTransGen G r a) → E a b → G a b)
    (h : ReflTransGen E root x) : ReflTransGen G root x := by
  induction h with
  | refl => exact .refl
  | @tail a b _ hab ih => exact ih.tail (hopen a b ⟨root, hroot, ih⟩ hab)

/-- More edges reach more nodes only by leaving what the fewer edges reach. -/
theorem reach_eq_iff {α : Type*} {E G : α → α → Prop} {roots : α → Prop}
    (hsub : ∀ a b, E a b → G a b) :
    (∀ x, (∃ r, roots r ∧ ReflTransGen G r x) ↔ ∃ r, roots r ∧ ReflTransGen E r x) ↔
      ∀ a b, (∃ r, roots r ∧ ReflTransGen E r a) → G a b → ∃ r, roots r ∧ ReflTransGen E r b := by
  constructor
  · rintro hsame a b ha hab
    obtain ⟨r, hr, hpath⟩ := (hsame a).mpr ha
    exact (hsame b).mp ⟨r, hr, hpath.tail hab⟩
  · rintro hclosed x
    constructor
    · rintro ⟨r, hr, hpath⟩
      induction hpath with
      | refl => exact ⟨r, hr, .refl⟩
      | @tail a b _ hab ih => exact hclosed a b ih hab
    · rintro ⟨r, hr, hpath⟩
      exact ⟨r, hr, ReflTransGen.mono hsub r x hpath⟩

/-- A walk of `E` from a set that `E` does not leave, and where its edges are edges of `F`,
is a walk of `F`. -/
theorem reach_of_closed {α : Type*} {E F : α → α → Prop} {S : α → Prop}
    (hclosed : ∀ a b, S a → E a b → F a b ∧ S b) {a b : α} (ha : S a) (h : ReflTransGen E a b) :
    ReflTransGen F a b := by
  have hboth : ReflTransGen F a b ∧ S b := by
    induction h with
    | refl => exact ⟨.refl, ha⟩
    | tail _ hbc ih =>
        obtain ⟨hstep, hc⟩ := hclosed _ _ ih.2 hbc
        exact ⟨ih.1.tail hstep, hc⟩
  exact hboth.1

/-! ## Undirected connection -/

/-- Two nodes joined by an edge in either direction. -/
def Linked {α : Type*} (E : α → α → Prop) (a b : α) : Prop :=
  E a b ∨ E b a

/-- Two nodes in one connected component of the graph taken undirected. -/
def Connected {α : Type*} (E : α → α → Prop) : α → α → Prop :=
  ReflTransGen (Linked E)

theorem linked_symm {α : Type*} {E : α → α → Prop} {a b : α} (h : Linked E a b) :
    Linked E b a :=
  h.symm

theorem Connected.symm {α : Type*} {E : α → α → Prop} {a b : α} (h : Connected E a b) :
    Connected E b a := by
  induction h with
  | refl => exact .refl
  | tail _ hbc ih => exact ih.head (linked_symm hbc)

theorem Connected.trans {α : Type*} {E : α → α → Prop} {a b c : α} (hab : Connected E a b)
    (hbc : Connected E b c) : Connected E a c :=
  ReflTransGen.trans hab hbc

end Digraph
