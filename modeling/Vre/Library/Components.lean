import Mathlib.Data.Set.Card
import Vre.Library.Digraph

/-! # Counting connected components

The components that a set of nodes meets, in a graph taken undirected, and how many fewer they
are with one more edge.
-/

namespace Digraph

variable {α : Type*}

theorem Connected.mono {E F : α → α → Prop} (hsub : ∀ a b, E a b → F a b) {a b : α}
    (h : Connected E a b) : Connected F a b := by
  induction h with
  | refl => exact .refl
  | tail _ hbc ih => exact ih.tail (hbc.imp (hsub _ _) (hsub _ _))

/-! ## One more edge -/

/-- The graph with an edge from `a` to `b`. -/
def Insert (E : α → α → Prop) (a b : α) (x y : α) : Prop :=
  E x y ∨ x = a ∧ y = b

theorem connected_insert_ends (E : α → α → Prop) (a b : α) : Connected (Insert E a b) a b :=
  .single (Or.inl (Or.inr ⟨rfl, rfl⟩))

/-- A path with the new edge runs along old ones, or along old ones up to an end of it and on
from the other. -/
theorem connected_insert_iff {E : α → α → Prop} {a b x y : α} :
    Connected (Insert E a b) x y ↔ Connected E x y ∨ Connected E x a ∧ Connected E b y ∨
      Connected E x b ∧ Connected E a y := by
  have hold : ∀ {x y}, Connected E x y → Connected (Insert E a b) x y := by
    intro x y h
    exact h.mono fun _ _ => Or.inl
  have hnew := connected_insert_ends E a b
  constructor
  · intro h
    induction h with
    | refl => exact Or.inl .refl
    | @tail y z _ hyz ih =>
        have hcross : ∀ {p q}, Insert E a b p q → Linked E p q ∨ p = a ∧ q = b := by
          intro p q h
          exact h.imp_left Or.inl
        have hedge : Linked E y z ∨ (y = a ∧ z = b) ∨ y = b ∧ z = a := by
          rcases hyz with hyz | hzy
          · exact (hcross hyz).imp_right Or.inl
          · rcases hcross hzy with hlink | ⟨hz, hy⟩
            · exact Or.inl (linked_symm hlink)
            · exact Or.inr (Or.inr ⟨hy, hz⟩)
        rcases hedge with hlink | ⟨rfl, rfl⟩ | ⟨rfl, rfl⟩
        · rcases ih with hxy | ⟨hxa, hby⟩ | ⟨hxb, hay⟩
          · exact Or.inl (hxy.tail hlink)
          · exact Or.inr (Or.inl ⟨hxa, hby.tail hlink⟩)
          · exact Or.inr (Or.inr ⟨hxb, hay.tail hlink⟩)
        · rcases ih with hxa | ⟨hxa, -⟩ | ⟨hxb, -⟩
          · exact Or.inr (Or.inl ⟨hxa, .refl⟩)
          · exact Or.inr (Or.inl ⟨hxa, .refl⟩)
          · exact Or.inl hxb
        · rcases ih with hxb | ⟨hxa, -⟩ | ⟨hxb, -⟩
          · exact Or.inr (Or.inr ⟨hxb, .refl⟩)
          · exact Or.inl hxa
          · exact Or.inr (Or.inr ⟨hxb, .refl⟩)
  · intro h
    rcases h with hxy | ⟨hxa, hby⟩ | ⟨hxb, hay⟩
    · exact hold hxy
    · exact ((hold hxa).trans hnew).trans (hold hby)
    · exact ((hold hxb).trans hnew.symm).trans (hold hay)

/-! ## Components -/

/-- The component of a node. -/
def component (E : α → α → Prop) (x : α) : Set α :=
  {y | Connected E x y}

theorem component_eq_iff {E : α → α → Prop} {x y : α} :
    component E x = component E y ↔ Connected E x y := by
  constructor
  · intro h
    have hy : y ∈ component E y := .refl
    rw [← h] at hy
    exact hy
  · intro h
    ext z
    exact ⟨fun hz => h.symm.trans hz, fun hz => h.trans hz⟩

/-- The components that the nodes are in. -/
def components (E : α → α → Prop) (nodes : Set α) : Set (Set α) :=
  component E '' nodes

open Classical in
/-- The component of a node after an edge is inserted. -/
theorem component_insert (E : α → α → Prop) (a b x : α) : component (Insert E a b) x =
    if Connected E x a ∨ Connected E x b then component E a ∪ component E b
    else component E x := by
  ext y
  change Connected (Insert E a b) x y ↔ _
  rw [connected_insert_iff]
  by_cases hends : Connected E x a ∨ Connected E x b
  · rw [if_pos hends]
    change _ ↔ Connected E a y ∨ Connected E b y
    constructor
    · intro h
      rcases h with hxy | ⟨-, hby⟩ | ⟨-, hay⟩
      · exact hends.imp (fun hxa => hxa.symm.trans hxy) fun hxb => hxb.symm.trans hxy
      · exact Or.inr hby
      · exact Or.inl hay
    · intro h
      rcases hends with hxa | hxb
      · exact h.elim (fun hay => Or.inl (hxa.trans hay)) fun hby => Or.inr (Or.inl ⟨hxa, hby⟩)
      · exact h.elim (fun hay => Or.inr (Or.inr ⟨hxb, hay⟩)) fun hby => Or.inl (hxb.trans hby)
  · rw [if_neg hends]
    obtain ⟨hxa, hxb⟩ := not_or.mp hends
    simp [hxa, hxb, component]

/-- An edge between two of the components makes them one and leaves the others. -/
theorem ncard_components_insert {E : α → α → Prop} {nodes : Set α} (hfinite : nodes.Finite)
    {a b : α} (ha : ∃ x ∈ nodes, Connected E x a) (hb : ∃ x ∈ nodes, Connected E x b)
    (hapart : ¬ Connected E a b) :
    (components (Insert E a b) nodes).ncard + 1 = (components E nodes).ncard := by
  classical
  let merge (c : Set α) : Set α :=
    if c = component E a ∨ c = component E b then component E a ∪ component E b else c
  have hmerge : ∀ x, component (Insert E a b) x = merge (component E x) := by
    intro x
    simp only [component_insert, merge, component_eq_iff]
  have hmem : ∀ c, (∃ x ∈ nodes, Connected E x c) → component E c ∈ components E nodes := by
    intro c hc
    obtain ⟨x, hx, hxc⟩ := hc
    exact ⟨x, hx, component_eq_iff.mpr hxc⟩
  have hne : component E a ≠ component E b := mt component_eq_iff.mp hapart
  -- The component of `b` goes; the image of `a`'s stands for both.
  have himage : components (Insert E a b) nodes =
      merge '' (components E nodes \ {component E b}) := by
    ext c
    constructor
    · intro hc
      obtain ⟨x, hx, rfl⟩ := hc
      by_cases hxb : component E x = component E b
      · refine ⟨component E a, ⟨hmem a ha, hne⟩, ?_⟩
        rw [hmerge, hxb]
        simp [merge]
      · exact ⟨component E x, ⟨⟨x, hx, rfl⟩, hxb⟩, (hmerge x).symm⟩
    · intro hc
      obtain ⟨_, ⟨⟨x, hx, rfl⟩, -⟩, rfl⟩ := hc
      exact ⟨x, hx, hmerge x⟩
  have hinj : Set.InjOn merge (components E nodes \ {component E b}) := by
    have hboth : ∀ x, component E x ≠ component E b →
        merge (component E x) = component E a ∪ component E b → component E x = component E a := by
      intro x hxb heq
      by_contra hxa
      have hkept : merge (component E x) = component E x := if_neg (not_or.mpr ⟨hxa, hxb⟩)
      have hmema : a ∈ component E a ∪ component E b := Or.inl .refl
      rw [← heq, hkept] at hmema
      exact hxa (component_eq_iff.mpr hmema)
    intro c hc c' hc' heq
    obtain ⟨⟨x, -, rfl⟩, hxb⟩ := hc
    obtain ⟨⟨y, -, rfl⟩, hyb⟩ := hc'
    by_cases hxa : component E x = component E a
    · have hx : merge (component E x) = component E a ∪ component E b := if_pos (Or.inl hxa)
      rw [hxa, hboth y hyb (heq ▸ hx)]
    · have hx : merge (component E x) = component E x := if_neg (not_or.mpr ⟨hxa, hxb⟩)
      by_cases hya : component E y = component E a
      · have hy : merge (component E y) = component E a ∪ component E b := if_pos (Or.inl hya)
        exact absurd (hboth x hxb (heq.trans hy)) hxa
      · have hy : merge (component E y) = component E y := if_neg (not_or.mpr ⟨hya, hyb⟩)
        rw [← hx, heq, hy]
  rw [himage, hinj.ncard_image]
  exact Set.ncard_sdiff_singleton_add_one (hmem b hb) (hfinite.image _)

/-- The nodes are all in one component exactly when they meet at most one. -/
theorem ncard_components_le_one {E : α → α → Prop} {nodes : Set α} (hfinite : nodes.Finite) :
    (components E nodes).ncard ≤ 1 ↔ ∀ x ∈ nodes, ∀ y ∈ nodes, Connected E x y := by
  have hcomponents : (components E nodes).Finite := hfinite.image _
  rw [Set.ncard_le_one hcomponents]
  constructor
  · intro h x hx y hy
    exact component_eq_iff.mp (h _ ⟨x, hx, rfl⟩ _ ⟨y, hy, rfl⟩)
  · intro h c hc c' hc'
    obtain ⟨x, hx, rfl⟩ := hc
    obtain ⟨y, hy, rfl⟩ := hc'
    exact component_eq_iff.mpr (h x hx y hy)

end Digraph
