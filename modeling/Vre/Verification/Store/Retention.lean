import Vre.Verification.Store.Live
import Vre.Verification.Store.Runs

/-! # What a save retains

A primitive in memory may carry several records at one level. A save retains the relata of
all of them, and of their properties only those of the last; and a value that is no JSON value
is read back as another. It therefore retains the whole primitive exactly when the last record
at each level has the properties of the others, and all values are JSON values.
-/

namespace Vre

/-- `q` grounds the levels that `p` does, and holds at its level every property and every
relatum of each record of `p`. -/
structure Primitive.Retains (q p : Primitive) : Prop where
  grounding_levels : q.groundingLevels = p.groundingLevels
  contiguous_max_depth : q.contiguousMaxDepth = p.contiguousMaxDepth
  properties : ∀ d ∈ p.depths, ∀ e ∈ d.properties,
    ∃ d' ∈ q.depths, d'.level = d.level ∧ e ∈ d'.properties
  relata : ∀ level, q.relataOn level = p.relataOn level

/-- The last record at each level has the properties of all records there. -/
def Primitive.LastCovers (p : Primitive) : Prop :=
  ∀ d ∈ p.depths, ∀ last, p.lastDepth d.level = some last → d.properties ⊆ last.properties

/-! ## The records read back -/

theorem mem_relataOn {p : Primitive} {level : DepthLevel} {r : Relatum} :
    r ∈ p.relataOn level ↔ ∃ d ∈ p.depths, d.level = level ∧ r ∈ d.relata := by
  simp [Primitive.relataOn, and_assoc]

theorem relataOn_eq_nil {p : Primitive} {level : DepthLevel}
    (h : ∀ d ∈ p.depths, d.level ≠ level) : p.relataOn level = [] :=
  List.eq_nil_iff_forall_not_mem.mpr fun _ hr =>
    let ⟨d, hd, hlevel, _⟩ := mem_relataOn.mp hr
    h d hd hlevel

theorem mem_load_toRow [NameFolding] {p : Primitive} (h : p.Storable) {d : Depth} :
    d ∈ (p.toRow.load p.toRelata).depths ↔ ∃ last, p.lastDepth d.level = some last ∧
      { last with relata := p.relataOn d.level } = d := by
  rw [mem_depths_load, depthAt_toRow h, Option.map_eq_some_iff]

/-- The last record at a level is read back with the relata of all records there. -/
theorem load_lastDepth [NameFolding] {p : Primitive} (h : p.Storable) {level : DepthLevel}
    {last : Depth} (hlast : p.lastDepth level = some last) :
    { last with relata := p.relataOn level } ∈ (p.toRow.load p.toRelata).depths := by
  obtain ⟨-, rfl⟩ := lastDepth_eq_some hlast
  exact (mem_load_toRow h).mpr ⟨last, hlast, rfl⟩

theorem relataOn_load_toRow [NameFolding] {p : Primitive} (h : p.Storable) (level : DepthLevel) :
    (p.toRow.load p.toRelata).relataOn level = p.relataOn level := by
  cases hlast : p.lastDepth level with
  | none =>
      rw [relataOn_eq_nil, relataOn_eq_nil]
      · rintro d hd rfl
        obtain ⟨last, hsome⟩ := exists_lastDepth hd
        cases hlast.symm.trans hsome
      · rintro d hd rfl
        obtain ⟨last, hsome, -⟩ := (mem_load_toRow h).mp hd
        cases hlast.symm.trans hsome
  | some last =>
      have hlevel := (lastDepth_eq_some hlast).2
      have hown := relataOn_of_mem (normal_load p.toRow p.toRelata).nodup_levels
        (load_lastDepth h hlast)
      exact hlevel ▸ hown

theorem mem_groundingLevels_load_toRow [NameFolding] {p : Primitive} (h : p.Storable)
    {level : DepthLevel} : level ∈ (p.toRow.load p.toRelata).groundingLevels ↔
      ∃ last, p.lastDepth level = some last ∧
        (level = .existence ∨ last.properties ≠ [] ∨ p.relataOn level ≠ []) := by
  rw [mem_groundingLevels]
  constructor
  · rintro ⟨d, hd, hgrounds, rfl⟩
    obtain ⟨last, hlast, heq⟩ := (mem_load_toRow h).mp hd
    refine ⟨last, hlast, ?_⟩
    rw [grounds_iff, ← heq, (lastDepth_eq_some hlast).2] at hgrounds
    exact hgrounds
  · rintro ⟨last, hlast, hgrounds⟩
    have hlevel := (lastDepth_eq_some hlast).2
    exact ⟨_, load_lastDepth h hlast, grounds_iff.mpr (hlevel ▸ hgrounds), hlevel⟩

/-! ## The condition -/

theorem groundingLevels_load_toRow [NameFolding] {p : Primitive} (h : p.Storable)
    (hcovers : p.LastCovers) :
    (p.toRow.load p.toRelata).groundingLevels = p.groundingLevels := by
  ext level
  rw [mem_groundingLevels_load_toRow h, mem_groundingLevels]
  constructor
  · rintro ⟨last, hlast, hgrounds⟩
    obtain ⟨hmem, hlevel⟩ := lastDepth_eq_some hlast
    rcases hgrounds with hexistence | hproperties | hrelata
    · exact ⟨last, hmem, grounds_iff.mpr (Or.inl (hlevel.trans hexistence)), hlevel⟩
    · exact ⟨last, hmem, grounds_iff.mpr (Or.inr (Or.inl hproperties)), hlevel⟩
    · -- The relatum may stand in a record before the last.
      obtain ⟨r, hr⟩ := List.exists_mem_of_ne_nil _ hrelata
      obtain ⟨d, hd, hdlevel, hrd⟩ := mem_relataOn.mp hr
      exact ⟨d, hd, grounds_iff.mpr (Or.inr (Or.inr (List.ne_nil_of_mem hrd))), hdlevel⟩
  · rintro ⟨d, hd, hgrounds, rfl⟩
    obtain ⟨last, hlast⟩ := exists_lastDepth hd
    refine ⟨last, hlast, ?_⟩
    rcases grounds_iff.mp hgrounds with hexistence | hproperties | hrelata
    · exact Or.inl hexistence
    · obtain ⟨e, he⟩ := List.exists_mem_of_ne_nil _ hproperties
      exact Or.inr (Or.inl (List.ne_nil_of_mem (hcovers d hd last hlast he)))
    · obtain ⟨r, hr⟩ := List.exists_mem_of_ne_nil _ hrelata
      exact Or.inr (Or.inr (List.ne_nil_of_mem (mem_relataOn.mpr ⟨d, hd, rfl, hr⟩)))

theorem retains_load_toRow [NameFolding] {p : Primitive} (h : p.Storable) :
    (p.toRow.load p.toRelata).Retains p ↔ p.LastCovers := by
  constructor
  · intro hretains d hd last hlast e he
    obtain ⟨d', hd', hlevel, he'⟩ := hretains.properties d hd e he
    obtain ⟨last', hlast', heq⟩ := (mem_load_toRow h).mp hd'
    rw [hlevel, hlast] at hlast'
    cases hlast'
    rwa [← heq] at he'
  · intro hcovers
    have hlevels := groundingLevels_load_toRow h hcovers
    refine ⟨hlevels, congrArg contiguousMax hlevels, fun d hd e he => ?_, relataOn_load_toRow h⟩
    obtain ⟨last, hlast⟩ := exists_lastDepth hd
    exact ⟨_, load_lastDepth h hlast, (lastDepth_eq_some hlast).2, hcovers d hd last hlast he⟩

/-- What JSON values retain are JSON values. -/
theorem Primitive.Retains.jsonValued {q p : Primitive} (h : q.Retains p) (hq : q.JsonValued) :
    p.JsonValued := by
  constructor
  · intro d hd e he
    obtain ⟨d', hd', -, he'⟩ := h.properties d hd e he
    exact hq.properties d' hd' e he'
  · intro d hd r hr
    have hon : r ∈ q.relataOn d.level := by
      rw [h.relata]
      exact mem_relataOn.mpr ⟨d, hd, rfl, hr⟩
    obtain ⟨d', hd', -, hr'⟩ := mem_relataOn.mp hon
    exact hq.metadata d' hd' r hr'

namespace Sqlite

/-- A save retains what it accepts exactly when all values are JSON values, and the last record
at each level covers the others. -/
theorem savePyPrimitive_retains_iff [NameFolding] [JsonEncoder] {t : Tables} (h : t.WellFormed)
    {p : PyPrimitive} {db : SqliteRepository} (hsave : savePyPrimitive p ⟨t, none⟩ = .ok () db) :
    (∃ q, findById db p.id = .ok (some q) ∧ q.Retains p.toPrimitive) ↔
      p.toPrimitive.JsonValued ∧ p.toPrimitive.LastCovers := by
  rw [savePyPrimitive_eq (isEncodable_of_ok hsave)] at hsave
  obtain ⟨hp, rfl⟩ := accepts_of_ok hsave
  have hfind : findById _ p.id = _ := findById_saved h.toSchema hp
  rw [hfind]
  constructor
  · intro hread
    obtain ⟨q, hq, hretains⟩ := hread
    cases hq
    have hjson := hretains.jsonValued (jsonValued_load _ _)
    rw [written_of_jsonValued hjson] at hp hretains
    exact ⟨hjson, (retains_load_toRow hp.storable).mp hretains⟩
  · intro hcondition
    obtain ⟨hjson, hcovers⟩ := hcondition
    rw [written_of_jsonValued hjson] at hp ⊢
    exact ⟨_, rfl, (retains_load_toRow hp.storable).mpr hcovers⟩

/-- `Write`, with two records at D1. -/
def twiceWrite (first second : Properties) : Primitive where
  id := 0
  name := "Write"
  depths := [⟨.existence, [], [], some authored⟩, ⟨.identity, first, [], some authored⟩,
    ⟨.identity, second, [], some authored⟩]
  provenance := some authored
  metrics := none

theorem accepts_twiceWrite [NameFolding] {first second : Properties}
    (hfirst : Serializable first) (hsecond : Serializable second) :
    Accepts ⟨[], []⟩ (twiceWrite first second) := by
  have hnone : Serializable [] := fun _ he => (nomatch he)
  refine accepts_of_bare ⟨⟨rfl, ?_, ?_⟩, ?_, ?_⟩ rfl rfl
  all_goals simp [twiceWrite, hfirst, hsecond, hnone]

/-- The second record repeats what the first says, and adds to it. -/
def repeatedWrite : Primitive :=
  twiceWrite [("a", .json "1")] [("a", .json "1"), ("b", .json "2")]

theorem savePyPrimitive_retains_repeated : letI := asciiFolding; letI := strictEncoder
    ∃ db q, savePyPrimitive repeatedWrite.toPy .fresh = .ok () db ∧
      findById db 0 = .ok (some q) ∧ q.Retains repeatedWrite := by
  let _ := asciiFolding
  let _ := strictEncoder
  have haccepts : Accepts ⟨[], []⟩ repeatedWrite :=
    accepts_twiceWrite (by simp [Serializable]) (by simp [Serializable])
  have hsave := savePrimitive_of_accepts haccepts
  rw [← savePyPrimitive_toPy (written_strict _)] at hsave
  have hcovers : repeatedWrite.LastCovers := by
    unfold Primitive.LastCovers
    decide
  obtain ⟨q, hfind, hretains⟩ :=
    (savePyPrimitive_retains_iff Tables.wellFormed_empty hsave).mpr
      ⟨haccepts.storable.jsonValued, hcovers⟩
  exact ⟨_, q, hsave, hfind, hretains⟩

/-- The second record is empty. -/
def shadowedWrite : Primitive :=
  twiceWrite [("a", .json "1")] []

/-- Of the keys `1` and `"1"` of a dictionary JSON keeps one, with the value of the second. -/
def limits : PyValue :=
  .object "\x7b1: 'a', '1': 'b'\x7d"

abbrev limitsEncoder : JsonEncoder where
  encode := fun repr => if .object repr = limits then some "\x7b\"1\": \"b\"\x7d" else none

/-- `Write`, with such a dictionary at D1. -/
def limitedWrite : Primitive where
  id := 0
  name := "Write"
  depths := [⟨.existence, [], [], some authored⟩,
    ⟨.identity, [("limits", limits)], [], some authored⟩]
  provenance := some authored
  metrics := none

/-- A save that returns has taken D1, and all its properties, from one primitive, and has put
another value in the place of the one that the other primitive has. -/
theorem savePyPrimitive_drops_shadowed : letI := asciiFolding; letI := limitsEncoder
    (∃ db q, savePyPrimitive shadowedWrite.toPy .fresh = .ok () db ∧
      findById db 0 = .ok (some q) ∧ shadowedWrite.contiguousMaxDepth = some .identity ∧
      q.contiguousMaxDepth = some .existence ∧ ∀ d ∈ q.depths, d.properties = []) ∧
    ∃ db q, savePyPrimitive limitedWrite.toPy .fresh = .ok () db ∧
      findById db 0 = .ok (some q) ∧
      ∀ d ∈ q.depths, d.properties ⊆ [("limits", .json "\x7b\"1\": \"b\"\x7d")] := by
  let _ := asciiFolding
  let _ := limitsEncoder
  have hshadowed : Accepts ⟨[], []⟩ shadowedWrite :=
    accepts_twiceWrite (by simp [Serializable]) (by simp [Serializable])
  have hwritten : limitedWrite.toPy.written.depths = [⟨.existence, [], [], some authored⟩,
      ⟨.identity, [("limits", .json "\x7b\"1\": \"b\"\x7d")], [], some authored⟩] := by
    decide +kernel
  have hlimited : Accepts ⟨[], []⟩ limitedWrite.toPy.written := by
    refine accepts_of_bare ⟨⟨rfl, ?_, ?_⟩, ?_, ?_⟩ rfl rfl
    all_goals simp [hwritten, Serializable]
  have hsave := savePrimitive_of_accepts hshadowed
  rw [← savePyPrimitive_toPy (written_toPy hshadowed.storable.jsonValued)] at hsave
  have hsave' := savePrimitive_of_accepts hlimited
  rw [← savePyPrimitive_eq (PyStr.isEncodable_ofString _)] at hsave'
  have hschema := Tables.wellFormed_empty.toSchema
  refine ⟨⟨_, _, hsave, findById_saved hschema hshadowed, ?_, ?_, ?_⟩,
    ⟨_, _, hsave', findById_saved hschema hlimited, ?_⟩⟩
  all_goals decide +kernel

end Sqlite

end Vre
