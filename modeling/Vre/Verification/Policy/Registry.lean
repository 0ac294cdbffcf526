import Vre.Library.Runs
import Vre.Model.Policy

/-! # The policy registry

The registry keeps every placement twice: under its key, and in the index of its edge. In
every registry that integrator code can build, the two agree.
-/

namespace Vre

namespace PolicyRegistry

/-! ## Building a registry -/

/-- A call that may change a registry. -/
inductive Operation (σ : Type) where
  | register (callback : PolicyCallback σ) (decl : PolicyDeclaration)
  | freeze
  | clear

/-- The registry the call leaves, whether it returned or raised. -/
def Operation.next {σ : Type} [NameFolding] (reg : PolicyRegistry σ) :
    Operation σ → PolicyRegistry σ
  | register callback decl => Action.after (reg.register callback decl)
  | freeze => reg.freeze
  | clear => reg.clear

/-- A registry that some sequence of calls builds from an empty one. -/
def Built {σ : Type} [NameFolding] (reg : PolicyRegistry σ) : Prop :=
  ∃ ops, Runs.Run (fun reg op reg' => Operation.next reg op = reg') new ops reg

/-! ## The two indexes -/

/-- The key by which the edge of a placement is indexed. -/
def placementKey {σ : Type} [NameFolding] (placement : PolicyPlacement σ) : EdgeKey :=
  edgeKey placement.source placement.target placement.sourceDepth

/-- What one registration can do. -/
theorem register_cases {σ : Type} [NameFolding] (callback : PolicyCallback σ)
    (decl : PolicyDeclaration) (reg : PolicyRegistry σ) :
    (reg.frozen = false ∧ reg.byKey.get? (keyFor callback decl.key) = none ∧
      decl.wellTyped = true ∧ register callback decl reg = .ok callback { reg with
        byKey := reg.byKey.set (keyFor callback decl.key) (placementOf callback decl)
        byEdge := reg.byEdge.append (placementKey (placementOf callback decl))
          (placementOf callback decl) }) ∨
    ((reg.frozen = true ∨ (∃ placement, reg.byKey.get? (keyFor callback decl.key) =
        some placement) ∨ decl.wellTyped = false) ∧
      ∃ exc, register callback decl reg = .error exc reg) := by
  unfold register
  dsimp only
  split
  · rename_i hfrozen
    exact Or.inr ⟨Or.inl hfrozen, _, rfl⟩
  rename_i hfrozen
  split
  · rename_i hkey
    exact Or.inr ⟨Or.inr (Or.inl (Option.isSome_iff_exists.mp hkey)), _, rfl⟩
  rename_i hkey
  split
  · rename_i htyped
    exact Or.inr ⟨Or.inr (Or.inr (by simpa using htyped)), _, rfl⟩
  · rename_i htyped
    exact Or.inl ⟨by simpa using hfrozen, by simpa using hkey, by simpa using htyped, rfl⟩

/-- A registry, and the placements registered since it was last cleared, in order. -/
structure Ledger (σ : Type) where
  registry : PolicyRegistry σ
  log : List (PolicyPlacement σ)

/-- A registration that returns adds its placement to the log, and a clear empties it. -/
def Ledger.next {σ : Type} [NameFolding] (s : Ledger σ) (op : Operation σ) : Ledger σ where
  registry := op.next s.registry
  log :=
    match op with
    | .register callback decl =>
        match register callback decl s.registry with
        | .ok _ _ => s.log ++ [placementOf callback decl]
        | .error _ _ => s.log
    | .freeze => s.log
    | .clear => []

/-- Both indexes hold the log: one in its order, the other edge by edge. -/
structure Ledger.Agrees {σ : Type} [NameFolding] (s : Ledger σ) : Prop where
  byKey : s.registry.byKey.entries = s.log.map fun placement => (placement.key, placement)
  byEdge : ∀ key, (s.registry.byEdge.get? key).getD [] =
    s.log.filter fun placement => placementKey placement = key

theorem Ledger.agrees_new {σ : Type} [NameFolding] : (⟨new, []⟩ : Ledger σ).Agrees :=
  ⟨rfl, fun _ => rfl⟩

theorem Ledger.Agrees.next {σ : Type} [NameFolding] {s : Ledger σ} (h : s.Agrees)
    (op : Operation σ) : (s.next op).Agrees := by
  cases op with
  | register callback decl =>
      rcases register_cases callback decl s.registry with
        ⟨-, habsent, -, hok⟩ | ⟨-, exc, herror⟩
      · have hnext : s.next (.register callback decl) = ⟨{ s.registry with
            byKey := s.registry.byKey.set (keyFor callback decl.key) (placementOf callback decl)
            byEdge := s.registry.byEdge.append (placementKey (placementOf callback decl))
              (placementOf callback decl) }, s.log ++ [placementOf callback decl]⟩ := by
          simp only [Ledger.next, Operation.next, hok, Action.after]
        rw [hnext]
        constructor
        · rw [OrderedDict.entries_set_of_absent habsent, h.byKey, List.map_append]
          rfl
        · intro key
          rw [OrderedDict.getD_append, h.byEdge, List.filter_append]
          by_cases hkey : key = placementKey (placementOf callback decl)
          · simp [hkey]
          · have hne : ¬ placementKey (placementOf callback decl) = key := fun heq => hkey heq.symm
            simp [hkey, hne]
      · have hnext : s.next (.register callback decl) = s := by
          simp only [Ledger.next, Operation.next, herror, Action.after]
        rwa [hnext]
  | freeze => exact ⟨h.byKey, h.byEdge⟩
  | clear => exact agrees_new

theorem Ledger.agrees_foldl {σ : Type} [NameFolding] (ops : List (Operation σ)) :
    (ops.foldl Ledger.next ⟨new, []⟩).Agrees :=
  Runs.Run.invariant (fun _ op _ hs hstep => hstep ▸ Ledger.Agrees.next hs op) agrees_new
    (Runs.run_foldl Ledger.next ⟨new, []⟩ ops)

theorem Ledger.Agrees.iterPlacements_eq {σ : Type} [NameFolding] {s : Ledger σ} (h : s.Agrees) :
    s.registry.iterPlacements = s.log := by
  rw [iterPlacements, OrderedDict.values, h.byKey, List.map_map]
  exact List.map_id s.log

/-- The edge index holds exactly the registered placements, each under its own edge. -/
def Indexed {σ : Type} [NameFolding] (reg : PolicyRegistry σ) : Prop :=
  ∀ key placement, placement ∈ (reg.byEdge.get? key).getD [] ↔
    placement ∈ reg.iterPlacements ∧ placementKey placement = key

theorem Ledger.Agrees.indexed {σ : Type} [NameFolding] {s : Ledger σ} (h : s.Agrees) :
    s.registry.Indexed := by
  intro key placement
  rw [h.byEdge, h.iterPlacements_eq, List.mem_filter, decide_eq_true_eq]

theorem Built.exists_ledger {σ : Type} [NameFolding] {reg : PolicyRegistry σ} (h : reg.Built) :
    ∃ log, (⟨reg, log⟩ : Ledger σ).Agrees := by
  obtain ⟨ops, hrun⟩ := h
  have hstep : ∀ reg op reg', (∃ log, (⟨reg, log⟩ : Ledger σ).Agrees) →
      Operation.next reg op = reg' → ∃ log, (⟨reg', log⟩ : Ledger σ).Agrees := by
    rintro reg op _ ⟨log, hlog⟩ rfl
    exact ⟨_, hlog.next op⟩
  exact Runs.Run.invariant hstep ⟨[], Ledger.agrees_new⟩ hrun

theorem Built.indexed {σ : Type} [NameFolding] {reg : PolicyRegistry σ} (h : reg.Built) :
    reg.Indexed := by
  obtain ⟨log, hlog⟩ := h.exists_ledger
  exact hlog.indexed

/-- No placement is on an edge twice. -/
theorem Built.nodup_placementsFor {σ : Type} [NameFolding] {reg : PolicyRegistry σ}
    (h : reg.Built) (source target : String) (depth : DepthLevel) :
    (reg.placementsFor source target depth).Nodup := by
  obtain ⟨log, hlog⟩ := h.exists_ledger
  have hkeys : (log.map PolicyPlacement.key).Nodup := by
    have hnodup := reg.byKey.nodup_keys
    rw [hlog.byKey, List.map_map] at hnodup
    exact hnodup
  rw [placementsFor, hlog.byEdge]
  exact (List.Nodup.of_map _ hkeys).filter _

/-- Looking an edge up by any spelling of its names finds the placements registered on it. -/
theorem Indexed.mem_placementsFor {σ : Type} [NameFolding] {reg : PolicyRegistry σ}
    (h : reg.Indexed) {source target : String} {depth : DepthLevel}
    {placement : PolicyPlacement σ} : placement ∈ reg.placementsFor source target depth ↔
      placement ∈ reg.iterPlacements ∧ foldName placement.source = foldName source ∧
        foldName placement.target = foldName target ∧ placement.sourceDepth = depth := by
  rw [placementsFor, h]
  simp [placementKey, edgeKey]

/-- A registry of length zero has nothing on any edge. -/
theorem Indexed.placementsFor_eq_nil {σ : Type} [NameFolding] {reg : PolicyRegistry σ}
    (h : reg.Indexed) (hlength : reg.length = 0) (source target : String) (depth : DepthLevel) :
    reg.placementsFor source target depth = [] := by
  have hempty : reg.iterPlacements = [] := by
    rw [iterPlacements, OrderedDict.values, List.eq_nil_of_length_eq_zero hlength]
    rfl
  apply List.eq_nil_iff_forall_not_mem.mpr
  intro placement hmem
  have hin := (h.mem_placementsFor.mp hmem).1
  rw [hempty] at hin
  cases hin

end PolicyRegistry

end Vre
