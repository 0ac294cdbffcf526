import Mathlib.Data.Finset.Prod
import Vre.Verification.Learning.Acceptance

/-! # Holes

A hole is a level that a stored primitive, or a concept of the query, still lacks. Learning a
concept of the query or filling a depth closes one and opens none.
-/

namespace Vre

namespace Tables

/-- The levels that the stored primitives lack, and every level of a concept that is not
stored. -/
def holes [NameFolding] (t : Tables) (concepts : List String) : Finset (String × DepthLevel) :=
  ((concepts.map foldName ++ t.primitives.map PrimitiveRow.nameLower).toFinset ×ˢ
    DepthLevel.sorted.toFinset).filter fun hole =>
      ∀ row ∈ t.primitives, row.nameLower = hole.1 → hole.2 ∉ (t.loadRow row).groundingLevels

theorem mem_holes [NameFolding] {t : Tables} (h : t.Schema) {concepts : List String}
    {name : String} {level : DepthLevel} : (name, level) ∈ t.holes concepts ↔
      (name ∈ concepts.map foldName ∨ ∃ id p, t.live id = some p ∧ p.nameLower = name) ∧
        ∀ id p, t.live id = some p → p.nameLower = name → level ∉ p.groundingLevels := by
  have hstored : (∃ id p, t.live id = some p ∧ p.nameLower = name) ↔
      ∃ row ∈ t.primitives, row.nameLower = name := by
    constructor
    · rintro ⟨id, p, hp, rfl⟩
      obtain ⟨row, hrow, -, rfl⟩ := (live_eq_some h).mp hp
      exact ⟨row, hrow, (h.nameLower_loadRow hrow).symm⟩
    · rintro ⟨row, hrow, rfl⟩
      exact ⟨row.id, _, (live_eq_some h).mpr ⟨row, hrow, rfl, rfl⟩, h.nameLower_loadRow hrow⟩
  simp only [holes, Finset.mem_filter, Finset.mem_product, List.mem_toFinset, List.mem_append,
    DepthLevel.mem_sorted, and_true, hstored, List.mem_map (f := PrimitiveRow.nameLower)]
  refine and_congr_right fun _ => ⟨fun hall id p hp hname => ?_, fun hall row hrow hname => ?_⟩
  · obtain ⟨row, hrow, -, rfl⟩ := (live_eq_some h).mp hp
    exact hall row hrow ((h.nameLower_loadRow hrow).symm.trans hname)
  · exact hall row.id _ ((live_eq_some h).mpr ⟨row, hrow, rfl, rfl⟩)
      ((h.nameLower_loadRow hrow).trans hname)

/-- Every primitive of `t'` is one of `t`, or is named by a concept. -/
def NewOnly [NameFolding] (t t' : Tables) (concepts : List String) : Prop :=
  ∀ id p, t'.live id = some p → t.Stored id ∨ p.nameLower ∈ concepts.map foldName

/-- Growth opens no hole. -/
theorem Extends.holes_subset [NameFolding] {t t' : Tables} (ht : t.Schema) (ht' : t'.Schema)
    (h : t.Extends t') {concepts : List String} (hnew : t.NewOnly t' concepts) :
    t'.holes concepts ⊆ t.holes concepts := by
  rintro ⟨name, level⟩ hhole
  obtain ⟨hname, hopen⟩ := (mem_holes ht').mp hhole
  refine (mem_holes ht).mpr ⟨?_, fun id p hp hlower hlevel => ?_⟩
  · apply hname.elim Or.inl
    rintro ⟨id, p', hp', rfl⟩
    rcases hnew id p' hp' with hid | hconcept
    · obtain ⟨p, hp⟩ := exists_live hid
      obtain ⟨q, hq, hsame, -⟩ := h.live id p hp
      cases hp'.symm.trans hq
      exact Or.inr ⟨id, p, hp, congrArg foldName hsame.symm⟩
    · exact Or.inl hconcept
  · obtain ⟨p', hp', hsame, hkept⟩ := h.live id p hp
    obtain ⟨d, hd, hgrounds, rfl⟩ := mem_groundingLevels.mp hlevel
    exact hopen id p' hp' ((congrArg foldName hsame).trans hlower)
      (mem_groundingLevels.mpr ⟨d, hkept d hd hgrounds, hgrounds, rfl⟩)

/-- A level that is grounded now, and was a hole, makes the holes fewer. -/
theorem card_holes_lt [NameFolding] {t t' : Tables} (ht' : t'.Schema) {concepts : List String}
    (hsubset : t'.holes concepts ⊆ t.holes concepts) {id : UUID} {p : Primitive}
    (hp : t'.live id = some p) {level : DepthLevel} (hlevel : level ∈ p.groundingLevels)
    (hhole : (p.nameLower, level) ∈ t.holes concepts) :
    (t'.holes concepts).card < (t.holes concepts).card := by
  refine Finset.card_lt_card ((Finset.ssubset_iff_of_subset hsubset).mpr ⟨_, hhole, fun hmem => ?_⟩)
  exact ((mem_holes ht').mp hmem).2 id p hp rfl hlevel

end Tables

/-! ## One save -/

namespace LearningEngine

open Tables

/-- The saved primitive is stored already, or it has the drawn id. -/
theorem Learned.id_cases [NameFolding] {draw : Draw} {t : Tables} (h : t.Schema)
    {gap : KnowledgeGap} (hkind : gap.kind ≠ .reachability) {candidate : LearningCandidate}
    {p : Primitive} (hp : Learned draw t gap candidate p) :
    t.Stored p.id ∨ p.id = draw.uuid4 0 := by
  cases hp with
  | existence => exact Or.inr rfl
  | fill _ hold =>
      have hid := live_id h hold
      exact Or.inl (stored_of_live (hid ▸ hold))
  | edge => exact absurd rfl hkind

/-- What is saved is stored already or is a concept of the query, and it has a level that was
a hole. -/
theorem Learned.exists_hole [NameFolding] {draw : Draw} {t : Tables} (h : t.Schema)
    {concepts : List String} {gap : KnowledgeGap} {candidate : LearningCandidate}
    (hkind : gap.kind ≠ .reachability)
    (hasked : gap.kind = .existence → gap.subject.name ∈ concepts) {p : Primitive}
    (hp : Learned draw t gap candidate p) :
    (t.Stored p.id ∨ p.nameLower ∈ concepts.map foldName) ∧
      ∃ level ∈ p.groundingLevels, (p.nameLower, level) ∈ t.holes concepts := by
  cases hp with
  | existence hname _ _ _ habsent =>
      have hconcept := List.mem_map_of_mem (f := foldName) (hname ▸ hasked rfl)
      refine ⟨Or.inr hconcept, .existence, ?_, (mem_holes h).mpr ⟨Or.inl hconcept, ?_⟩⟩
      · exact mem_groundingLevels.mpr ⟨existsDepth _, List.mem_cons_self, rfl, rfl⟩
      · intro id q hq hlower
        obtain ⟨row, hrow, -, rfl⟩ := (live_eq_some h).mp hq
        exact absurd ((h.nameLower_loadRow hrow).symm.trans hlower)
          (named_eq_none.mp habsent row hrow)
  | @fill _ _ _ _ newDepths _ old hold _ hvalid =>
      have hid := live_id h hold
      subst hid
      obtain ⟨d, hd⟩ := List.exists_mem_of_ne_nil _ hvalid.nonempty
      have hfilled := filled_filledPrimitive draw hvalid
      refine ⟨Or.inl (stored_of_live hold), d.level,
        hfilled.mem_groundingLevels_iff.mpr (Or.inr ?_),
        (mem_holes h).mpr ⟨Or.inr ⟨old.id, old, hold, rfl⟩, fun id q hq hlower => ?_⟩⟩
      · rw [levels_toDepth]
        exact List.mem_map_of_mem hd
      · have hnamed : t.named old.name = some q := named_of_live h hq hlower
        cases hnamed.symm.trans (named_of_live h hold rfl)
        exact hvalid.holes d hd
  | edge => exact absurd rfl hkind

/-- The concept or the fill that is saved closes a hole. -/
theorem Learned.card_holes_lt [NameFolding] {draw : Draw} {t : Tables} (h : t.WellFormed)
    {concepts : List String} {gap : KnowledgeGap} {candidate : LearningCandidate}
    (hkind : gap.kind ≠ .reachability)
    (hasked : gap.kind = .existence → gap.subject.name ∈ concepts)
    (hfresh : ¬ t.Stored (draw.uuid4 0)) {p : Primitive} (hp : Learned draw t gap candidate p)
    (haccepts : Sqlite.Accepts t p) :
    ((t.replace p.toRow p.toRelata).holes concepts).card < (t.holes concepts).card := by
  have hschema := h.toSchema
  have hschema' := hschema.replace haccepts
  have hlive := live_replace hschema haccepts (hp.normal hschema)
  obtain ⟨hsubject, level, hlevel, hhole⟩ := hp.exists_hole hschema hkind hasked
  have hnew : t.NewOnly (t.replace p.toRow p.toRelata) concepts := by
    intro id q hq
    rw [hlive id] at hq
    split at hq
    · rename_i hid
      cases hq
      exact hid ▸ hsubject
    · exact Or.inl (stored_of_live hq)
  have hsubset := (hp.extends h hkind hfresh haccepts).holes_subset hschema hschema' hnew
  exact Tables.card_holes_lt hschema' hsubset ((hlive p.id).trans (if_pos rfl)) hlevel hhole

end LearningEngine

end Vre
