import Mathlib.Data.List.Flatten
import Mathlib.Data.List.Perm.Subperm

/-! # Lists with fewer members

What a list with fewer members, whatever their order, is mapped to. -/

namespace Vre

namespace Subperm

variable {α β : Type*} {l l' : List α}

theorem map (f : α → β) (h : l.Subperm l') : (l.map f).Subperm (l'.map f) := by
  obtain ⟨m, hperm, hsub⟩ := h
  exact ⟨m.map f, hperm.map f, hsub.map f⟩

theorem filterMap (f : α → Option β) (h : l.Subperm l') :
    (l.filterMap f).Subperm (l'.filterMap f) := by
  obtain ⟨m, hperm, hsub⟩ := h
  exact ⟨m.filterMap f, hperm.filterMap f, hsub.filterMap f⟩

theorem flatMap (f : α → List β) (h : l.Subperm l') : (l.flatMap f).Subperm (l'.flatMap f) := by
  obtain ⟨m, hperm, hsub⟩ := h
  exact ⟨m.flatMap f, hperm.flatMap_right f, hsub.flatMap f⟩

theorem flatMap_right (l : List α) {f g : α → List β} (h : ∀ a ∈ l, (f a).Subperm (g a)) :
    (l.flatMap f).Subperm (l.flatMap g) := by
  induction l with
  | nil => exact List.Subperm.refl []
  | cons a rest ih =>
      obtain ⟨ha, hrest⟩ := List.forall_mem_cons.mp h
      rw [List.flatMap_cons, List.flatMap_cons]
      exact ha.append (ih hrest)

end Subperm

end Vre
