import Mathlib.Data.Finset.Card
import Mathlib.Data.List.Dedup
import Mathlib.Logic.Relation

/-! # Worklist search

A worklist search over a finite successor function: a visited set and a stack, one pop
at a time, each neighbour pushed the first time it is met. The search returns exactly the
nodes reachable from its roots, each of them once.
-/

namespace Worklist

/-- `x` is reachable from one of `roots` along the successor function `next`. -/
def Reach {α : Type*} (next : α → List α) (roots : List α) (x : α) : Prop :=
  ∃ root ∈ roots, Relation.ReflTransGen (fun a b => b ∈ next a) root x

theorem Reach.step {α : Type*} {next : α → List α} {roots : List α} {a b : α}
    (ha : Reach next roots a) (hb : b ∈ next a) : Reach next roots b := by
  obtain ⟨root, hroot, hpath⟩ := ha
  exact ⟨root, hroot, hpath.tail hb⟩

/-- Meet one neighbour: a node not yet in the visited set joins it and the stack. -/
def push {α : Type*} [DecidableEq α] (st : List α × List α) (neighbour : α) : List α × List α :=
  if neighbour ∈ st.1 then st else (neighbour :: st.1, neighbour :: st.2)

/-- The search loop. The first list is the visited set, the second the stack. -/
def explore {α : Type*} [DecidableEq α] (next : α → List α) : ℕ → List α → List α → List α
  | 0, visited, _ => visited
  | _ + 1, visited, [] => visited
  | fuel + 1, visited, current :: stack =>
      let st := (next current).foldl push (visited, stack)
      explore next fuel st.1 st.2

/-- Search from `roots`, where every node to be found is drawn from `nodes`. No node is
pushed twice, so the two lengths bound the number of pops. -/
def search {α : Type*} [DecidableEq α] (next : α → List α) (nodes roots : List α) : List α :=
  explore next (nodes.length + roots.dedup.length) roots.dedup roots.dedup

/-! ## One pop -/

/-- The pushes of one pop add the same fresh nodes to the visited set and the stack. -/
theorem foldl_push {α : Type*} [DecidableEq α] (neighbours visited stack : List α) :
    ∃ fresh, neighbours.foldl push (visited, stack) = (fresh ++ visited, fresh ++ stack) ∧
      fresh.Nodup ∧ (∀ x ∈ fresh, x ∈ neighbours ∧ x ∉ visited) ∧
      ∀ x ∈ neighbours, x ∈ fresh ++ visited := by
  induction neighbours generalizing visited stack with
  | nil => exact ⟨[], by simp⟩
  | cons n rest ih =>
      by_cases hn : n ∈ visited
      · obtain ⟨fresh, heq, hnodup, hnew, hall⟩ := ih visited stack
        refine ⟨fresh, by simp [push, hn, heq], hnodup, ?_, ?_⟩
        · intro x hx
          exact ⟨List.mem_cons_of_mem n (hnew x hx).1, (hnew x hx).2⟩
        · intro x hx
          rcases List.mem_cons.mp hx with rfl | hx
          · exact List.mem_append_right fresh hn
          · exact hall x hx
      · obtain ⟨fresh, heq, hnodup, hnew, hall⟩ := ih (n :: visited) (n :: stack)
        have hnotin : n ∉ fresh := fun hx => (hnew n hx).2 (by simp)
        refine ⟨fresh ++ [n], by simp [push, hn, heq], ?_, ?_, ?_⟩
        · exact List.nodup_append.mpr ⟨hnodup, by simp, by
            intro a ha b hb
            rw [List.mem_singleton.mp hb]
            rintro rfl
            exact hnotin ha⟩
        · intro x hx
          rcases List.mem_append.mp hx with hx | hx
          · exact ⟨by simp [(hnew x hx).1], fun hv => (hnew x hx).2 (by simp [hv])⟩
          · rw [List.mem_singleton.mp hx]
            exact ⟨by simp, hn⟩
        · intro x hx
          rcases List.mem_cons.mp hx with rfl | hx
          · simp
          · simpa [or_assoc, or_comm, or_left_comm] using hall x hx

/-- Nodes still unvisited plus nodes still stacked: every pop lowers it by one. -/
def potential {α : Type*} [DecidableEq α] (nodes visited stack : List α) : ℕ :=
  (nodes.toFinset \ visited.toFinset).card + stack.length

theorem potential_pop {α : Type*} [DecidableEq α] {next : α → List α} {nodes : List α}
    {fuel : ℕ} {current : α} (hnext : ∀ b ∈ next current, b ∈ nodes)
    {visited stack fresh : List α} (hnodup : fresh.Nodup)
    (hnew : ∀ x ∈ fresh, x ∈ next current ∧ x ∉ visited)
    (hfuel : potential nodes visited (current :: stack) ≤ fuel + 1) :
    potential nodes (fresh ++ visited) (fresh ++ stack) ≤ fuel := by
  have hsub : fresh.toFinset ⊆ nodes.toFinset \ visited.toFinset := by
    intro x hx
    have hx := hnew x (List.mem_toFinset.mp hx)
    simp [hnext x hx.1, hx.2]
  have hcard := Finset.card_sdiff_add_card_eq_card hsub
  have hsplit : nodes.toFinset \ (fresh ++ visited).toFinset =
      (nodes.toFinset \ visited.toFinset) \ fresh.toFinset := by
    ext x
    simp only [List.toFinset_append, Finset.mem_sdiff, Finset.mem_union]
    tauto
  rw [List.toFinset_card_of_nodup hnodup] at hcard
  simp only [potential, List.length_cons, List.length_append, hsplit] at hfuel ⊢
  omega

/-! ## The whole search -/

/-- The loop invariant: what is visited is reachable and was met once, and a visited node
off the stack has had its successors visited. -/
structure Invariant {α : Type*} (next : α → List α) (roots visited stack : List α) : Prop where
  nodup : visited.Nodup
  sound : ∀ x ∈ visited, Reach next roots x
  stacked : ∀ x ∈ stack, x ∈ visited
  rooted : ∀ x ∈ roots, x ∈ visited
  closed : ∀ x ∈ visited, x ∈ stack ∨ ∀ y ∈ next x, y ∈ visited

theorem Invariant.pop {α : Type*} {next : α → List α} {roots visited stack fresh : List α}
    {current : α}
    (h : Invariant next roots visited (current :: stack)) (hnodup : fresh.Nodup)
    (hnew : ∀ x ∈ fresh, x ∈ next current ∧ x ∉ visited)
    (hall : ∀ x ∈ next current, x ∈ fresh ++ visited) :
    Invariant next roots (fresh ++ visited) (fresh ++ stack) where
  nodup := List.nodup_append.mpr ⟨hnodup, h.nodup, by
    intro a ha b hb hab
    exact (hnew a ha).2 (hab ▸ hb)⟩
  sound := by
    intro x hx
    rcases List.mem_append.mp hx with hx | hx
    · exact (h.sound current (h.stacked current (by simp))).step (hnew x hx).1
    · exact h.sound x hx
  stacked := by
    intro x hx
    rcases List.mem_append.mp hx with hx | hx
    · exact List.mem_append_left visited hx
    · exact List.mem_append_right fresh (h.stacked x (by simp [hx]))
  rooted := fun x hx => List.mem_append_right fresh (h.rooted x hx)
  closed := by
    intro x hx
    rcases List.mem_append.mp hx with hx | hx
    · exact Or.inl (List.mem_append_left stack hx)
    · rcases h.closed x hx with hstack | hsucc
      · rcases List.mem_cons.mp hstack with rfl | hstack
        · exact Or.inr hall
        · exact Or.inl (List.mem_append_right fresh hstack)
      · exact Or.inr fun y hy => List.mem_append_right fresh (hsucc y hy)

/-- A visited set closed under successors that contains the roots contains everything
reachable. -/
theorem Invariant.mem_iff_of_empty {α : Type*} {next : α → List α} {roots visited : List α}
    (h : Invariant next roots visited []) (x : α) : x ∈ visited ↔ Reach next roots x := by
  refine ⟨h.sound x, ?_⟩
  rintro ⟨root, hroot, hpath⟩
  induction hpath with
  | refl => exact h.rooted root hroot
  | @tail a b _ hb ih =>
      rcases h.closed a ih with hstack | hsucc
      · cases hstack
      · exact hsucc b hb

theorem explore_spec {α : Type*} [DecidableEq α] {next : α → List α} {nodes roots : List α}
    (hnext : ∀ a, Reach next roots a → ∀ b ∈ next a, b ∈ nodes) (fuel : ℕ)
    (visited stack : List α)
    (hfuel : potential nodes visited stack ≤ fuel)
    (h : Invariant next roots visited stack) :
    (explore next fuel visited stack).Nodup ∧
      ∀ x, x ∈ explore next fuel visited stack ↔ Reach next roots x := by
  induction fuel generalizing visited stack with
  | zero =>
      have hempty : stack = [] := by
        apply List.length_eq_zero_iff.mp
        simp only [potential] at hfuel
        omega
      subst hempty
      exact ⟨h.nodup, h.mem_iff_of_empty⟩
  | succ fuel ih =>
      cases stack with
      | nil => exact ⟨h.nodup, h.mem_iff_of_empty⟩
      | cons current stack =>
          obtain ⟨fresh, heq, hnodup, hnew, hall⟩ := foldl_push (next current) visited stack
          simp only [explore, heq]
          have hcurrent := hnext current (h.sound current (h.stacked current (by simp)))
          exact ih _ _ (potential_pop hcurrent hnodup hnew hfuel) (h.pop hnodup hnew hall)

theorem invariant_init {α : Type*} [DecidableEq α] (next : α → List α) (roots : List α) :
    Invariant next roots roots.dedup roots.dedup where
  nodup := roots.nodup_dedup
  sound := fun x hx => ⟨x, List.mem_dedup.mp hx, .refl⟩
  stacked := fun _ hx => hx
  rooted := fun _ hx => List.mem_dedup.mpr hx
  closed := fun _ hx => Or.inl hx

theorem potential_init {α : Type*} [DecidableEq α] (nodes roots : List α) :
    potential nodes roots.dedup roots.dedup ≤ nodes.length + roots.dedup.length := by
  have h := (Finset.card_le_card
    (Finset.sdiff_subset (s := nodes.toFinset) (t := roots.dedup.toFinset))).trans
      nodes.toFinset_card_le
  simp only [potential]
  omega

theorem mem_search {α : Type*} [DecidableEq α] {next : α → List α} {nodes : List α}
    {roots : List α} (hnext : ∀ a, Reach next roots a → ∀ b ∈ next a, b ∈ nodes) (x : α) :
    x ∈ search next nodes roots ↔ Reach next roots x :=
  (explore_spec hnext _ _ _ (potential_init nodes roots) (invariant_init next roots)).2 x

theorem nodup_search {α : Type*} [DecidableEq α] {next : α → List α} {nodes : List α}
    {roots : List α} (hnext : ∀ a, Reach next roots a → ∀ b ∈ next a, b ∈ nodes) :
    (search next nodes roots).Nodup :=
  (explore_spec hnext _ _ _ (potential_init nodes roots) (invariant_init next roots)).1

/-! ## Reachability by relations -/

/-- A search that carries each root along as a tag finds the pairs of a root and a node
reachable from it. -/
theorem reach_tagged {α : Type*} {next : α → List α} {roots : List α} {origin x : α} :
    Reach (fun row : α × α => (next row.2).map fun b => (row.1, b))
        (roots.map fun root => (root, root)) (origin, x) ↔
      origin ∈ roots ∧ Relation.ReflTransGen (fun a b => b ∈ next a) origin x := by
  constructor
  · rintro ⟨start, hstart, hpath⟩
    obtain ⟨root, hroot, rfl⟩ := List.mem_map.mp hstart
    suffices h : ∀ row : α × α, Relation.ReflTransGen
        (fun a b => b ∈ (next a.2).map fun b => (a.1, b)) (root, root) row →
          row.1 = root ∧ Relation.ReflTransGen (fun a b => b ∈ next a) root row.2 by
      obtain ⟨rfl, hx⟩ := h _ hpath
      exact ⟨hroot, hx⟩
    intro row hrow
    induction hrow with
    | refl => exact ⟨rfl, .refl⟩
    | tail _ hstep ih =>
        obtain ⟨b, hb, rfl⟩ := List.mem_map.mp hstep
        exact ⟨ih.1, ih.2.tail hb⟩
  · rintro ⟨horigin, hpath⟩
    refine ⟨(origin, origin), List.mem_map_of_mem horigin, ?_⟩
    induction hpath with
    | refl => exact .refl
    | tail _ hstep ih => exact ih.tail (List.mem_map_of_mem hstep)

end Worklist
