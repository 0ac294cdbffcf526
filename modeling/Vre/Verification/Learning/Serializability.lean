import Vre.Verification.Learning.Concurrency

/-! # Calls that share a primitive, and calls that do not

When no call saves what another open call has asked about, the calls have run one after the
other. When two calls have both read a primitive, the later save is made from what was read
before the earlier one, and replaces it whole.
-/

namespace Vre

open Transactions (Config Reading)

namespace LearningEngine

/-! ## Calls that do not share -/

/-- The question is about the primitive: by its id, or by its name or the name of what it
replaces. -/
def Concerns {ρ : Type} [NameFolding] [Repository ρ] (repo : ρ) (p : Primitive) : Question → Prop
  | .byId id => id = p.id
  | .byName name => foldName name = p.nameLower ∨
      (Repository.findByName repo name).toOption.join.map Primitive.id = some p.id

instance {ρ : Type} [NameFolding] [Repository ρ] (repo : ρ) (p : Primitive) (q : Question) :
    Decidable (Concerns repo p q) :=
  match q with
  | .byId id => inferInstanceAs (Decidable (id = p.id))
  | .byName name => inferInstanceAs (Decidable (foldName name = p.nameLower ∨
      (Repository.findByName repo name).toOption.join.map Primitive.id = some p.id))

/-- If the access is a save, no other open call has asked about what it saves. -/
def Unshared {ρ ι : Type} [NameFolding] [Repository ρ]
    (c : Config ι ρ Question Answer PyException Primitive (Option ErrorClass)) (i : ι) : Prop :=
  ∀ p ∈ c.writing i, ∀ j, j ≠ i → ∀ q ∈ c.asked j, ¬ Concerns c.store p q

/-- The calls one after the other: how each ended, and the store after them. -/
def serially {ρ ι : Type} [NameFolding] [Repository ρ] (calls : ι → LearnCall) (order : List ι)
    (repo : ρ) : List (ι × Except ErrorClass Unit) × ρ :=
  order.foldl (fun done i =>
    (done.1 ++ [(i, ((calls i).step done.2).1)], ((calls i).step done.2).2)) ([], repo)

end LearningEngine

namespace KnowledgeBase

variable [NameFolding]

theorem known_save_of_ne {kb : KnowledgeBase} (policy : MissingTarget) {p : Primitive} {id : UUID}
    (h : id ≠ p.id) : (kb.save policy p).2.known id = kb.known id := by
  rcases save_cases policy kb p with ⟨cls, heq⟩ | ⟨hadmits, heq⟩
  · rw [heq]
  · have hid : (kb.offered policy p).id = p.id := by
      cases policy <;> rfl
    rw [heq]
    exact Function.update_of_ne (hid ▸ h) _ _

/-- A save leaves what is found by a name, if that is neither the name saved nor the name of
what is replaced. -/
theorem lookup_save {kb : KnowledgeBase} (policy : MissingTarget) {p : Primitive} {name : String}
    (hname : foldName name ≠ p.nameLower)
    (hreplaced : ∀ found, kb.lookup name = some found → found.id ≠ p.id) :
    (kb.save policy p).2.lookup name = kb.lookup name := by
  rcases save_cases policy kb p with ⟨cls, heq⟩ | ⟨hadmits, heq⟩
  · rw [heq]
  · have hid : (kb.offered policy p).id = p.id := by
      cases policy <;> rfl
    have hfold : (kb.offered policy p).nameLower = p.nameLower := by
      cases policy <;> rfl
    rw [heq]
    apply Option.ext
    intro q
    rw [lookup_eq_some, lookup_eq_some]
    constructor
    · intro h
      obtain ⟨hq, hfound⟩ := h
      rcases update_eq_some.mp hq with ⟨-, rfl⟩ | ⟨-, hq⟩
      · exact absurd (hfound.symm.trans hfold) hname
      · exact ⟨hq, hfound⟩
    · intro h
      refine ⟨update_eq_some.mpr (Or.inr ⟨?_, h.1⟩), h.2⟩
      rw [hid]
      exact hreplaced q (lookup_eq_some.mpr h)

end KnowledgeBase

namespace LearningEngine

section

variable {ρ ι : Type} [NameFolding] [Repository ρ] [DecidableEq ι] {wrap : Tables → ρ}
  {policy : KnowledgeBase.MissingTarget} (hreal : Realizes wrap policy)
include hreal

theorem answer_of_unconcerned {repo : ρ} {kb : KnowledgeBase} (h : Holds wrap repo kb)
    {p : Primitive} {q : Question} (hq : ¬ Concerns repo p q) :
    q.answer ((sharedStore ρ).write repo p).2 = q.answer repo := by
  have hrep := hreal.represents h
  have hrep' := hreal.represents ((simulates_sharedStore hreal).write repo kb h p).2
  cases q with
  | byId id =>
      rw [Question.answer, Question.answer, hrep.byId, hrep'.byId]
      exact congrArg Except.ok (KnowledgeBase.known_save_of_ne policy hq)
  | byName name =>
      rw [Question.answer, Question.answer, hrep.byName, hrep'.byName]
      apply congrArg Except.ok
      apply KnowledgeBase.lookup_save policy
      · exact fun heq => hq (Or.inl heq)
      · intro found hfound hid
        apply hq
        apply Or.inr
        rw [hrep.byName, hfound]
        exact congrArg some hid

/-- The store goes on holding a knowledge base. -/
theorem holds_step {c : Config ι ρ Question Answer PyException Primitive (Option ErrorClass)}
    (h : ∃ kb, Holds wrap c.store kb) (i : ι) :
    ∃ kb, Holds wrap ((sharedStore ρ).step c i).store kb := by
  obtain ⟨kb, hkb⟩ := h
  have hsame : Transactions.Store.Alike (Holds wrap) c ⟨kb, c.pending, c.ended⟩ :=
    ⟨hkb, rfl, rfl⟩
  exact ⟨_, (hsame.step (simulates_sharedStore hreal) i).store⟩

end

/-- Serial runs of scripts are serial runs of calls. -/
theorem serially_eq {ρ ι : Type} [NameFolding] [Repository ρ] (calls : ι → LearnCall)
    (order : List ι) (repo : ρ) : serially calls order repo =
      (((sharedStore ρ).serial (fun i => script (calls i).draw (calls i).gap (calls i).candidate)
          order repo).1.map fun e => (e.1, ending e.2),
        ((sharedStore ρ).serial (fun i => script (calls i).draw (calls i).gap (calls i).candidate)
          order repo).2) := by
  induction order using List.reverseRecOn with
  | nil => rfl
  | append_singleton order i ih =>
      have hconcat : serially calls (order ++ [i]) repo =
          ((serially calls order repo).1 ++ [(i, ((calls i).step (serially calls order repo).2).1)],
            ((calls i).step (serially calls order repo).2).2) := by
        simp [serially]
      rw [hconcat, Transactions.Store.serial_concat, ih, LearnCall.step_eq]
      simp

/-- If no call saves what another open call has asked about, the calls have run one after the
other, in the order in which they ended. -/
theorem interleaved_serializable {ρ ι : Type} [NameFolding] [Repository ρ] [DecidableEq ι]
    {wrap : Tables → ρ} {policy : KnowledgeBase.MissingTarget} (hreal : Realizes wrap policy)
    {repo : ρ} {kb : KnowledgeBase} (h : Holds wrap repo kb) {calls : ι → LearnCall}
    {schedule : List ι} (hunshared : Runs.EveryStep (fun c i => ((), (sharedStore ρ).step c i))
      Unshared (opened calls repo) schedule) :
    let c := interleaved calls repo schedule
    (c.ended.map Prod.fst).Nodup ∧ serially calls (c.ended.map Prod.fst) repo =
      (c.ended.map fun e => (e.1, ending e.2), c.store) := by
  have hquiet : Runs.EveryStep (fun c i => ((), (sharedStore ρ).step c i))
      (sharedStore ρ).Undisturbed (opened calls repo) schedule := by
    apply Runs.EveryStep.imp (P := fun c => ∃ kb, Holds wrap c.store kb) ?_ ?_ ⟨kb, h⟩ hunshared
    · intro c i hc
      exact holds_step hreal hc i
    · intro c i hc hcall p hwriting j hj q hq
      obtain ⟨kb', hkb'⟩ := hc
      exact answer_of_unconcerned hreal hkb' (hcall p hwriting j hj q hq)
  have hserialized := Transactions.Store.serialized_interleave hquiet
  intro c
  have hend : (sharedStore ρ).serial
      (fun i => script (calls i).draw (calls i).gap (calls i).candidate)
      (c.ended.map Prod.fst) repo = (c.ended, c.store) := hserialized.serial
  refine ⟨hserialized.once, ?_⟩
  rw [serially_eq, hend]

theorem unshared_inTurn : letI := asciiFolding
    Runs.EveryStep (fun c i => ((), (sharedStore SqliteRepository).step c i)) Unshared
      (opened fillAndCreate GroundingEngine.writeFile) inTurn := by
  unfold Unshared
  exact ⟨by decide +kernel, by decide +kernel, by decide +kernel, by decide +kernel, trivial⟩

theorem interleaved_serializable_fillAndCreate : letI := asciiFolding
    let c := interleaved fillAndCreate GroundingEngine.writeFile inTurn
    (c.ended.map Prod.fst).Nodup ∧
      serially fillAndCreate (c.ended.map Prod.fst) GroundingEngine.writeFile =
        (c.ended.map fun e => (e.1, ending e.2), c.store) := by
  let _ := asciiFolding
  obtain ⟨hwell, hholds⟩ := holds_writeFile
  exact interleaved_serializable Sqlite.realizes hholds unshared_inTurn

end LearningEngine

/-! ## Calls that share -/

namespace KnowledgeBase

variable [NameFolding]

open LearningEngine

/-- A primitive under the id of one that was just written is admitted as it would have been
before. -/
theorem admits_write {kb : KnowledgeBase} {p q : Primitive} (hp : kb.Admits p)
    (hq : kb.Admits q) (hsame : p.id = q.id) : (kb.write p hp).Admits q where
  storable := hq.storable
  name_free id r hr hname := by
    rcases update_eq_some.mp hr with ⟨hid, -⟩ | ⟨-, hr⟩
    · exact hid.trans hsame
    · exact hq.name_free id r hr hname
  acyclic := by
    have hwritten : (kb.write p hp).known = Function.update kb.known q.id (some p.settle) := by
      rw [← hsame]
      rfl
    rw [StaysAcyclic, hwritten, Function.update_idem]
    exact hq.acyclic
  targets r hr := by
    rcases hq.targets r hr with hself | hknown
    · exact Or.inl hself
    · by_cases hid : r.targetId = p.id
      · exact Or.inl (hid.trans hsame)
      · apply Or.inr
        change (Function.update kb.known p.id _ r.targetId).isSome
        rwa [Function.update_of_ne hid]

/-- Of two saves under one id the later, if it goes through, is all there is to see. -/
theorem save_save {kb : KnowledgeBase} {Φ : Primitive → Prop} {p q : Primitive}
    (policy : MissingTarget) (hp : kb.Saveable Φ p) (hq : kb.Saveable Φ q)
    (hsame : p.id = q.id) (hok : (kb.save policy q).1 = none) :
    (kb.save policy p).2.save policy q = kb.save policy q := by
  have hq' : (kb.save policy p).2.Saveable Φ q := hq.mono (hp.moves policy)
  rw [save_policy policy fun r hr => Or.inr (hq'.targets r hr)]
  rw [save_policy policy fun r hr => Or.inr (hq.targets r hr)] at hok ⊢
  rw [save_policy policy fun r hr => Or.inr (hp.targets r hr)]
  rcases save_cases .refused kb p with ⟨cls, heq⟩ | ⟨hadmits, heq⟩
  · rw [heq]
  · rcases save_cases .refused kb q with ⟨cls, heq'⟩ | ⟨hadmits', heq'⟩
    · rw [heq'] at hok
      cases hok
    · have hpAdmits : kb.Admits p := hadmits
      have hqAdmits : kb.Admits q := hadmits'
      have hagain := admits_write hpAdmits hqAdmits hsame
      have hoffered : (kb.write p hpAdmits).Admits
          (offered .refused (kb.write p hpAdmits) q) := hagain
      have hnext := save_of_admits hagain.storable hagain.name_free hoffered
      have hknown : ((kb.write p hpAdmits).write q hagain).known = (kb.write q hqAdmits).known := by
        change Function.update (Function.update kb.known p.id _) q.id _ = _
        rw [hsame, Function.update_idem]
        rfl
      rw [heq, heq']
      exact hnext.trans (congrArg (Prod.mk none) (ext_known hknown))

end KnowledgeBase

namespace LearningEngine

/-- Wherever an interleaving has come to: if two calls are about to save one primitive, and
the second save would go through by itself, then after both saves the store knows what it
would know if the first had never been made. -/
theorem last_save_wins {ρ ι : Type} [NameFolding] [Repository ρ] [DecidableEq ι]
    {wrap : Tables → ρ} {policy : KnowledgeBase.MissingTarget} (hreal : Realizes wrap policy)
    {repo : ρ} {kb : KnowledgeBase} (h : Holds wrap repo kb) {calls : ι → LearnCall}
    {schedule : List ι} {i j : ι} (hne : i ≠ j) {p q : Primitive}
    (hi : (interleaved calls repo schedule).writing i = some p)
    (hj : (interleaved calls repo schedule).writing j = some q)
    (hsame : p.id = q.id)
    (hok : ((sharedStore ρ).write (interleaved calls repo schedule).store q).1 = none) :
    (j, .ok none) ∈ (interleaved calls repo (schedule ++ [i, j])).ended ∧
      ∃ kb', Represents (interleaved calls repo (schedule ++ [i, j])).store kb' ∧
        Represents (interleaved calls repo (schedule ++ [j])).store kb' := by
  have hall : ∀ id p, kb.known id = some p → True := fun _ _ _ => trivial
  have hkeeps : ∀ i, Keeps (fun _ => True) (calls i) :=
    fun _ => ⟨fun _ _ _ _ => trivial, fun _ _ _ _ _ _ => trivial⟩
  obtain ⟨kb₀, hholds, -, hsafe⟩ := interleaved_safe hreal h hall hkeeps schedule
  obtain ⟨asked, hi⟩ := Config.writing_eq_some.mp hi
  obtain ⟨asked', hj⟩ := Config.writing_eq_some.mp hj
  have hp : kb₀.Saveable (fun _ => True) p := hsafe i _ hi kb₀ (KnowledgeBase.Moves.refl _ kb₀)
  have hq : kb₀.Saveable (fun _ => True) q := hsafe j _ hj kb₀ (KnowledgeBase.Moves.refl _ kb₀)
  have hsim := simulates_sharedStore hreal
  have hwriteP := hsim.write _ _ hholds p
  have hwriteQ := hsim.write _ _ hholds q
  have hwritePQ := hsim.write _ _ hwriteP.2 q
  have hokQ : (kb₀.save policy q).1 = none := hwriteQ.1.symm.trans hok
  have hlast := KnowledgeBase.save_save policy hp hq hsame hokQ
  -- The two accesses, and the one.
  have hboth : interleaved calls repo (schedule ++ [i, j]) = (sharedStore ρ).step
      ((sharedStore ρ).step (interleaved calls repo schedule) i) j := by
    simp [interleaved, Transactions.Store.interleave]
  have hone : interleaved calls repo (schedule ++ [j]) =
      (sharedStore ρ).step (interleaved calls repo schedule) j := by
    simp [interleaved, Transactions.Store.interleave]
  have hjopen : ((sharedStore ρ).step (interleaved calls repo schedule) i).pending j =
      some ⟨asked', .done q⟩ := by
    rw [Transactions.Store.step_of_done _ hi]
    simp only [Function.update_of_ne hne.symm, hj]
  rw [hboth, hone, Transactions.Store.step_of_done _ hjopen, Transactions.Store.step_of_done _ hj,
    Transactions.Store.step_of_done _ hi]
  have hagain : ((KnowledgeBase.sharedStore policy).write
      ((KnowledgeBase.sharedStore policy).write kb₀ p).2 q) = kb₀.save policy q := hlast
  rw [hagain] at hwritePQ
  refine ⟨?_, (kb₀.save policy q).2, hreal.represents hwritePQ.2, hreal.represents hwriteQ.2⟩
  simp [hwritePQ.1, hokQ]

/-- Two learners fill `File` at D2, each in its own way. -/
def rivalFills : Bool → LearnCall
  | true => ⟨⟨fun i => i + 9, 0⟩, .depth fileDepthGap, .depth fileDepthCandidate⟩
  | false => ⟨⟨fun i => i + 9, 0⟩, .depth fileDepthGap,
      .depth ⟨[⟨.capabilities, [("modes", .json "3")]⟩]⟩⟩

def bothRead : List Bool :=
  [true, false]

/-- Both have read `File` before either saves it, and the first fill is lost. -/
theorem last_save_wins_rivalFills : letI := asciiFolding
    (false, .ok none) ∈
        (interleaved rivalFills GroundingEngine.writeFile (bothRead ++ [true, false])).ended ∧
      ∃ kb', Represents
          (interleaved rivalFills GroundingEngine.writeFile (bothRead ++ [true, false])).store kb' ∧
        Represents (interleaved rivalFills GroundingEngine.writeFile (bothRead ++ [false])).store
          kb' := by
  let _ := asciiFolding
  have hsound := GroundingEngine.sound_writeFile
  have hholds : Holds (fun t => (⟨t, none⟩ : SqliteRepository)) GroundingEngine.writeFile
      (GroundingEngine.writeFile.tables.knowledge hsound.2) :=
    ⟨_, hsound.2, hsound.eq_idle, rfl⟩
  have hfirst : ((interleaved rivalFills GroundingEngine.writeFile bothRead).writing
      true).map Primitive.id = some 0 := by decide +kernel
  have hsecond : ((interleaved rivalFills GroundingEngine.writeFile bothRead).writing
      false).map (fun q => (q.id, ((sharedStore SqliteRepository).write
        (interleaved rivalFills GroundingEngine.writeFile bothRead).store q).1)) =
      some (0, none) := by decide +kernel
  obtain ⟨p, hp, hid⟩ := Option.map_eq_some_iff.mp hfirst
  obtain ⟨q, hq, hpair⟩ := Option.map_eq_some_iff.mp hsecond
  have hid' : q.id = 0 := congrArg Prod.fst hpair
  have hok := congrArg Prod.snd hpair
  exact last_save_wins Sqlite.realizes hholds (by decide) hp hq (hid.trans hid'.symm) hok

end LearningEngine

end Vre
