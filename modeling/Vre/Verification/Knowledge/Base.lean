import Mathlib.Data.Set.Card
import Vre.Library.Digraph
import Vre.Library.OrderedDict
import Vre.Verification.Knowledge.Serialization

/-! # Knowledge bases

What a repository stands for, whatever the backend: a finite map from ids to primitives,
with one primitive for each folded name, no relatum to an unknown primitive, and no cycle of
transitive relata. Each operation is stated by what it means for the map.
-/

namespace Vre

/-! ## Primitives as a map holds them -/

/-- The relata of a primitive, at all of its depths. -/
def Primitive.relata (p : Primitive) : List Relatum :=
  p.depths.flatMap Depth.relata

/-- The primitive with those of its relata whose targets are kept. -/
def Primitive.restrict (keep : UUID → Prop) [DecidablePred keep] (p : Primitive) : Primitive :=
  { p with depths := p.depths.map fun d =>
      { d with relata := d.relata.filter fun r => keep r.targetId } }

/-- One depth for each level of a primitive, in ascending order, with the properties that
were written last and every relatum. -/
def Primitive.settle (p : Primitive) : Primitive :=
  { p with depths := DepthLevel.sorted.filterMap fun level =>
      (p.lastDepth level).map fun d => { d with relata := p.relataOn level } }

theorem mem_relata {p : Primitive} {r : Relatum} :
    r ∈ p.relata ↔ ∃ d ∈ p.depths, r ∈ d.relata :=
  List.mem_flatMap

@[simp] theorem Primitive.id_settle (p : Primitive) : p.settle.id = p.id := rfl

@[simp] theorem Primitive.nameLower_settle [NameFolding] (p : Primitive) :
    p.settle.nameLower = p.nameLower := rfl

@[simp] theorem Primitive.id_restrict (keep : UUID → Prop) [DecidablePred keep] (p : Primitive) :
    (p.restrict keep).id = p.id := rfl

@[simp] theorem Primitive.nameLower_restrict [NameFolding] (keep : UUID → Prop)
    [DecidablePred keep] (p : Primitive) : (p.restrict keep).nameLower = p.nameLower := rfl

theorem mem_depths_settle {p : Primitive} {d : Depth} : d ∈ p.settle.depths ↔
    ∃ last, p.lastDepth d.level = some last ∧ { last with relata := p.relataOn d.level } = d := by
  simp only [Primitive.settle, List.mem_filterMap, DepthLevel.mem_sorted, true_and,
    Option.map_eq_some_iff]
  constructor
  · intro h
    obtain ⟨level, last, hlast, heq⟩ := h
    have hlevel : d.level = level := by
      rw [← heq]
      exact (lastDepth_eq_some hlast).2
    exact ⟨last, hlevel ▸ hlast, hlevel ▸ heq⟩
  · intro h
    exact ⟨d.level, h⟩

/-- Settling a primitive keeps its relata. -/
theorem mem_relata_settle {p : Primitive} {r : Relatum} :
    r ∈ p.settle.relata ↔ r ∈ p.relata := by
  have hon : ∀ level, r ∈ p.relataOn level ↔ ∃ d ∈ p.depths, d.level = level ∧ r ∈ d.relata := by
    intro level
    simp [Primitive.relataOn, and_assoc]
  simp only [mem_relata]
  constructor
  · intro h
    obtain ⟨d, hd, hr⟩ := h
    obtain ⟨last, -, heq⟩ := mem_depths_settle.mp hd
    rw [← heq] at hr
    obtain ⟨d', hd', -, hr'⟩ := (hon _).mp hr
    exact ⟨d', hd', hr'⟩
  · intro h
    obtain ⟨d, hd, hr⟩ := h
    obtain ⟨last, hlast⟩ := exists_lastDepth hd
    have hlevel := (lastDepth_eq_some hlast).2
    have hmem : { last with relata := p.relataOn last.level } ∈ p.settle.depths :=
      mem_depths_settle.mpr ⟨last, hlevel ▸ hlast, rfl⟩
    exact ⟨_, hmem, (hon last.level).mpr ⟨d, hd, hlevel.symm, hr⟩⟩

theorem normal_settle (p : Primitive) : p.settle.Normal := by
  apply List.pairwise_filterMap.mpr
  apply DepthLevel.pairwise_sorted.imp
  intro a b hab d hd d' hd'
  obtain ⟨last, hlast, rfl⟩ := Option.map_eq_some_iff.mp hd
  obtain ⟨last', hlast', rfl⟩ := Option.map_eq_some_iff.mp hd'
  simpa [(lastDepth_eq_some hlast).2, (lastDepth_eq_some hlast').2] using hab

theorem mem_relata_restrict {keep : UUID → Prop} [DecidablePred keep] {p : Primitive}
    {r : Relatum} : r ∈ (p.restrict keep).relata ↔ r ∈ p.relata ∧ keep r.targetId := by
  simp only [mem_relata, Primitive.restrict, List.mem_map]
  constructor
  · intro h
    obtain ⟨d, ⟨d', hd', rfl⟩, hr⟩ := h
    obtain ⟨hr, hkeep⟩ := List.mem_filter.mp hr
    exact ⟨⟨d', hd', hr⟩, of_decide_eq_true hkeep⟩
  · intro h
    obtain ⟨⟨d, hd, hr⟩, hkeep⟩ := h
    exact ⟨_, ⟨d, hd, rfl⟩, List.mem_filter.mpr ⟨hr, decide_eq_true hkeep⟩⟩

theorem restrict_eq_self {p : Primitive} {keep : UUID → Prop} [DecidablePred keep]
    (h : ∀ r ∈ p.relata, keep r.targetId) : p.restrict keep = p := by
  have hdepths : (p.depths.map fun d =>
      { d with relata := d.relata.filter fun r => keep r.targetId }) = p.depths := by
    apply (List.map_congr_left ?_).trans p.depths.map_id
    intro d hd
    have hrelata : d.relata.filter (fun r => keep r.targetId) = d.relata := by
      apply List.filter_eq_self.mpr
      intro r hr
      exact decide_eq_true (h r (mem_relata.mpr ⟨d, hd, hr⟩))
    rw [hrelata]
    rfl
  rw [Primitive.restrict, hdepths]

theorem normal_restrict {p : Primitive} (h : p.Normal) (keep : UUID → Prop)
    [DecidablePred keep] : (p.restrict keep).Normal :=
  List.pairwise_map.mpr h

/-- A primitive whose depths and relata come from a storable one is storable. -/
theorem Primitive.Storable.of_depths {p q : Primitive} (h : p.Storable)
    (hprovenance : q.provenance = p.provenance)
    (hdepths : ∀ d ∈ q.depths, ∃ d' ∈ p.depths, d.properties = d'.properties ∧
      d.provenance = d'.provenance)
    (hrelata : ∀ r ∈ q.relata, r ∈ p.relata) : q.Storable where
  primitive := hprovenance ▸ h.primitive
  depths := by
    intro d hd
    obtain ⟨d', hd', -, heq⟩ := hdepths d hd
    exact heq ▸ h.depths d' hd'
  relata := by
    intro d hd r hr
    obtain ⟨d', hd', hr'⟩ := mem_relata.mp (hrelata r (mem_relata.mpr ⟨d, hd, hr⟩))
    exact h.relata d' hd' r hr'
  properties := by
    intro d hd
    obtain ⟨d', hd', heq, -⟩ := hdepths d hd
    exact heq ▸ h.properties d' hd'
  metadata := by
    intro d hd r hr
    obtain ⟨d', hd', hr'⟩ := mem_relata.mp (hrelata r (mem_relata.mpr ⟨d, hd, hr⟩))
    exact h.metadata d' hd' r hr'

theorem storable_settle {p : Primitive} (h : p.Storable) : p.settle.Storable := by
  apply Primitive.Storable.of_depths h
  · rfl
  · intro d hd
    obtain ⟨last, hlast, heq⟩ := mem_depths_settle.mp hd
    exact ⟨last, (lastDepth_eq_some hlast).1, heq ▸ rfl, heq ▸ rfl⟩
  · intro r hr
    exact mem_relata_settle.mp hr

theorem storable_restrict {p : Primitive} (h : p.Storable) (keep : UUID → Prop)
    [DecidablePred keep] : (p.restrict keep).Storable := by
  apply Primitive.Storable.of_depths h
  · rfl
  · intro d hd
    obtain ⟨d', hd', rfl⟩ := List.mem_map.mp hd
    exact ⟨d', hd', rfl, rfl⟩
  · intro r hr
    exact (mem_relata_restrict.mp hr).1

/-- The primitive under `a`, with the metrics if that is `id`. -/
def Primitive.counted (id : UUID) (metrics : PrimitiveMetrics) (a : UUID) (p : Primitive) :
    Primitive :=
  if a = id then { p with metrics := some metrics } else p

theorem counted_eq (id : UUID) (metrics : PrimitiveMetrics) (a : UUID) (p : Primitive) :
    ∃ metrics', p.counted id metrics a = { p with metrics := metrics' } := by
  unfold Primitive.counted
  split
  · exact ⟨some metrics, rfl⟩
  · exact ⟨p.metrics, rfl⟩

@[simp] theorem relata_counted (id : UUID) (metrics : PrimitiveMetrics) (a : UUID)
    (p : Primitive) : (p.counted id metrics a).relata = p.relata := by
  unfold Primitive.counted
  split <;> rfl

/-! ## The map -/

/-- A transitive relatum from the one primitive of a map to the other. -/
def TransitiveEdge (known : UUID → Option Primitive) (a b : UUID) : Prop :=
  ∃ p, known a = some p ∧
    ∃ r ∈ p.relata, r.targetId = b ∧ r.relationType ∈ transitiveRelationTypes

theorem update_eq_some {known : UUID → Option Primitive} {p q : Primitive} {id : UUID} :
    Function.update known p.id (some p.settle) id = some q ↔
      id = p.id ∧ p.settle = q ∨ id ≠ p.id ∧ known id = some q := by
  by_cases h : id = p.id
  · subst h
    simp
  · simp [h]

/-- A settled primitive has the edges of the one it stands for. -/
theorem transitiveEdge_settle {known : UUID → Option Primitive} {p : Primitive} {a b : UUID} :
    TransitiveEdge (Function.update known p.id (some p.settle)) a b ↔
      TransitiveEdge (Function.update known p.id (some p)) a b := by
  by_cases h : a = p.id
  · subst h
    simp [TransitiveEdge, mem_relata_settle]
  · simp [TransitiveEdge, h]

/-- The primitives without the one under `id`, and without the relata that lead there. -/
def erased (known : UUID → Option Primitive) (id a : UUID) : Option Primitive :=
  if a = id then none else (known a).map (Primitive.restrict (· ≠ id))

theorem erased_eq_some {known : UUID → Option Primitive} {id a : UUID} {q : Primitive} :
    erased known id a = some q ↔
      a ≠ id ∧ ∃ p, known a = some p ∧ p.restrict (· ≠ id) = q := by
  simp [erased]

/-- The primitives known, each under its id. -/
structure KnowledgeBase [NameFolding] where
  known : UUID → Option Primitive
  finite : {id | (known id).isSome}.Finite
  own_id : ∀ id p, known id = some p → p.id = id
  storable : ∀ id p, known id = some p → p.Storable
  normal : ∀ id p, known id = some p → p.Normal
  one_name : ∀ a b p q, known a = some p → known b = some q → p.nameLower = q.nameLower → a = b
  closed : ∀ id p, known id = some p → ∀ r ∈ p.relata, (known r.targetId).isSome
  acyclic : Digraph.Acyclic (TransitiveEdge known)

namespace KnowledgeBase

variable [NameFolding]

theorem ext_known {kb kb' : KnowledgeBase} (h : kb.known = kb'.known) : kb = kb' := by
  cases kb
  cases kb'
  cases h
  rfl

def nothing : KnowledgeBase where
  known := fun _ => none
  finite := by simp
  own_id := nofun
  storable := nofun
  normal := nofun
  one_name := by
    intro a b p q hp
    cases hp
  closed := nofun
  acyclic := by
    intro a h
    cases h with
    | single hab => cases hab.choose_spec.1
    | tail _ hab => cases hab.choose_spec.1

/-! ## Writing -/

/-- No other primitive has the name. -/
def NameFree (kb : KnowledgeBase) (p : Primitive) : Prop :=
  ∀ id q, kb.known id = some q → q.nameLower = p.nameLower → id = p.id

/-- With `p` in place of what is known under its id, no transitive relata form a cycle. -/
def StaysAcyclic (kb : KnowledgeBase) (p : Primitive) : Prop :=
  Digraph.Acyclic (TransitiveEdge (Function.update kb.known p.id (some p)))

/-- What the map can take in. -/
structure Admits (kb : KnowledgeBase) (p : Primitive) : Prop where
  storable : p.Storable
  name_free : kb.NameFree p
  acyclic : kb.StaysAcyclic p
  targets : ∀ r ∈ p.relata, r.targetId = p.id ∨ (kb.known r.targetId).isSome

/-- The map with `p` under its id. -/
def write (kb : KnowledgeBase) (p : Primitive) (h : kb.Admits p) : KnowledgeBase where
  known := Function.update kb.known p.id (some p.settle)
  finite := by
    apply (kb.finite.insert p.id).subset
    intro id hid
    obtain ⟨q, hq⟩ := Option.isSome_iff_exists.mp hid
    rcases update_eq_some.mp hq with ⟨rfl, -⟩ | ⟨-, hq⟩
    · exact Or.inl rfl
    · exact Or.inr (Option.isSome_iff_exists.mpr ⟨q, hq⟩)
  own_id := by
    intro id q hq
    rcases update_eq_some.mp hq with ⟨rfl, rfl⟩ | ⟨-, hq⟩
    · rfl
    · exact kb.own_id id q hq
  storable := by
    intro id q hq
    rcases update_eq_some.mp hq with ⟨-, rfl⟩ | ⟨-, hq⟩
    · exact storable_settle h.storable
    · exact kb.storable id q hq
  normal := by
    intro id q hq
    rcases update_eq_some.mp hq with ⟨-, rfl⟩ | ⟨-, hq⟩
    · exact normal_settle p
    · exact kb.normal id q hq
  one_name := by
    intro a b q q' hq hq' hname
    rcases update_eq_some.mp hq with ⟨rfl, rfl⟩ | ⟨-, hq⟩
    · rcases update_eq_some.mp hq' with ⟨rfl, -⟩ | ⟨-, hq'⟩
      · rfl
      · exact (h.name_free b q' hq' hname.symm).symm
    · rcases update_eq_some.mp hq' with ⟨rfl, rfl⟩ | ⟨-, hq'⟩
      · exact h.name_free a q hq hname
      · exact kb.one_name a b q q' hq hq' hname
  closed := by
    intro id q hq r hr
    have htarget : r.targetId = p.id ∨ (kb.known r.targetId).isSome := by
      rcases update_eq_some.mp hq with ⟨-, rfl⟩ | ⟨-, hq⟩
      · exact h.targets r (mem_relata_settle.mp hr)
      · exact Or.inr (kb.closed id q hq r hr)
    by_cases hself : r.targetId = p.id
    · rw [hself, Function.update_self]
      rfl
    · rw [Function.update_of_ne hself]
      exact htarget.resolve_left hself
  acyclic := h.acyclic.mono fun _ _ => transitiveEdge_settle.mp

/-- `q` is what is left of `p`: the same primitive with some of its relata. -/
structure Remains (q p : Primitive) : Prop where
  id : q.id = p.id
  name : q.nameLower = p.nameLower
  storable : q.Storable
  normal : q.Normal
  relata : ∀ r ∈ q.relata, r ∈ p.relata

/-- The map that keeps of each primitive what remains of it. -/
def thin (kb : KnowledgeBase) (known : UUID → Option Primitive)
    (hremains : ∀ a q, known a = some q → ∃ p, kb.known a = some p ∧ Remains q p)
    (hclosed : ∀ a q, known a = some q → ∀ r ∈ q.relata, (known r.targetId).isSome) :
    KnowledgeBase where
  known := known
  finite := by
    apply kb.finite.subset
    intro a ha
    obtain ⟨q, hq⟩ := Option.isSome_iff_exists.mp ha
    obtain ⟨p, hp, -⟩ := hremains a q hq
    exact Option.isSome_iff_exists.mpr ⟨p, hp⟩
  own_id := by
    intro a q hq
    obtain ⟨p, hp, h⟩ := hremains a q hq
    exact h.id.trans (kb.own_id a p hp)
  storable := by
    intro a q hq
    obtain ⟨p, -, h⟩ := hremains a q hq
    exact h.storable
  normal := by
    intro a q hq
    obtain ⟨p, -, h⟩ := hremains a q hq
    exact h.normal
  one_name := by
    intro a b q q' hq hq' hname
    obtain ⟨p, hp, h⟩ := hremains a q hq
    obtain ⟨p', hp', h'⟩ := hremains b q' hq'
    exact kb.one_name a b p p' hp hp' (h.name.symm.trans (hname.trans h'.name))
  closed := hclosed
  acyclic := by
    apply kb.acyclic.mono
    intro a b hab
    obtain ⟨q, hq, r, hr, htarget⟩ := hab
    obtain ⟨p, hp, h⟩ := hremains a q hq
    exact ⟨p, hp, r, h.relata r hr, htarget⟩

def erase (kb : KnowledgeBase) (id : UUID) : KnowledgeBase :=
  kb.thin (erased kb.known id)
    (by
      intro a q hq
      obtain ⟨-, p, hp, rfl⟩ := erased_eq_some.mp hq
      exact ⟨p, hp, rfl, rfl, storable_restrict (kb.storable a p hp) _,
        normal_restrict (kb.normal a p hp) _, fun r hr => (mem_relata_restrict.mp hr).1⟩)
    (by
      intro a q hq r hr
      obtain ⟨-, p, hp, rfl⟩ := erased_eq_some.mp hq
      obtain ⟨hr, hne⟩ := mem_relata_restrict.mp hr
      rw [erased, if_neg hne, Option.isSome_map]
      exact kb.closed a p hp r hr)

/-- The map with the metrics under `id`. -/
def setMetrics (kb : KnowledgeBase) (id : UUID) (metrics : PrimitiveMetrics) : KnowledgeBase :=
  kb.thin (fun a => (kb.known a).map (Primitive.counted id metrics a))
    (by
      intro a q hq
      obtain ⟨p, hp, rfl⟩ := Option.map_eq_some_iff.mp hq
      obtain ⟨metrics', heq⟩ := counted_eq id metrics a p
      have h := kb.storable a p hp
      refine ⟨p, hp, ?_⟩
      rw [heq]
      exact ⟨rfl, rfl, ⟨⟨h.primitive, h.depths, h.relata⟩, h.properties, h.metadata⟩,
        kb.normal a p hp, fun r hr => hr⟩)
    (by
      intro a q hq r hr
      obtain ⟨p, hp, rfl⟩ := Option.map_eq_some_iff.mp hq
      rw [Option.isSome_map]
      exact kb.closed a p hp r (relata_counted id metrics a p ▸ hr))

/-! ## Saving -/

/-- What a backend does about a relatum whose target it does not know. -/
inductive MissingTarget where
  | refused
  | dropped
  deriving DecidableEq, Repr

/-- The primitive that a save puts up for admission. -/
def offered (policy : MissingTarget) (kb : KnowledgeBase) (p : Primitive) : Primitive :=
  match policy with
  | .refused => p
  | .dropped => p.restrict fun id => id = p.id ∨ (kb.known id).isSome

open Classical in
/-- A save: the class of the error that refuses it, if any, and the map after it. -/
noncomputable def save (policy : MissingTarget) (kb : KnowledgeBase) (p : Primitive) :
    Option ErrorClass × KnowledgeBase :=
  match p.serialize with
  | .error exc => (some exc.cls, kb)
  | .ok _ =>
      if ¬ kb.NameFree p then (some .persistenceError, kb)
      else if ¬ kb.StaysAcyclic (kb.offered policy p) then (some .cyclicRelationshipError, kb)
      else if h : kb.Admits (kb.offered policy p) then (none, kb.write _ h)
      else (some .persistenceError, kb)

/-! ## Reading -/

/-- The primitive with a name, whatever its case. -/
noncomputable def lookup (kb : KnowledgeBase) (name : String) : Option Primitive :=
  open Classical in
  if h : ∃ p, kb.known p.id = some p ∧ p.nameLower = foldName name then some h.choose else none

theorem lookup_eq_some {kb : KnowledgeBase} {name : String} {p : Primitive} :
    kb.lookup name = some p ↔ kb.known p.id = some p ∧ p.nameLower = foldName name := by
  unfold lookup
  constructor
  · intro h
    split at h
    · rename_i hex
      cases h
      exact hex.choose_spec
    · cases h
  · intro h
    have hex : ∃ p, kb.known p.id = some p ∧ p.nameLower = foldName name := ⟨p, h⟩
    rw [dif_pos hex]
    obtain ⟨hknown, hname⟩ := hex.choose_spec
    have hid : hex.choose.id = p.id :=
      kb.one_name _ _ _ _ hknown h.1 (hname.trans h.2.symm)
    rw [hid] at hknown
    exact hknown.symm.trans h.1

/-- The primitive that an upsert saves: it takes over the id of its namesake. -/
noncomputable def canonical (kb : KnowledgeBase) (p : Primitive) : Primitive :=
  match kb.lookup p.name with
  | none => p
  | some found => { p with id := found.id }

/-- The ids that transitive relata reach from the primitives with the names. -/
def InClosure (kb : KnowledgeBase) (names : List String) (id : UUID) : Prop :=
  ∃ root p, kb.known root = some p ∧ p.nameLower ∈ names.map foldName ∧
    Relation.ReflTransGen (TransitiveEdge kb.known) root id

end KnowledgeBase

end Vre
