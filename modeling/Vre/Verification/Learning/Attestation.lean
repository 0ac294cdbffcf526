import Vre.Verification.Learning.Concurrency

/-! # Where knowledge comes from

All that learning brings in is stamped as learned. So a record of any other source that is
found after learning, however the calls interleave, was in the store before with that content.
-/

namespace Vre

namespace LearningEngine

/-- Each record of the primitive is learned or stands, as it is, in the map. -/
structure Attested [NameFolding] (kb : KnowledgeBase) (p : Primitive) : Prop where
  primitive : IsLearned p.provenance ∨
    ∃ q, kb.known p.id = some q ∧ q.name = p.name ∧ q.provenance = p.provenance
  depths : ∀ d ∈ p.depths, IsLearned d.provenance ∨
    ∃ q, kb.known p.id = some q ∧ ∃ d' ∈ q.depths,
      d'.level = d.level ∧ d'.properties = d.properties ∧ d'.provenance = d.provenance
  relata : ∀ d ∈ p.depths, ∀ r ∈ d.relata, IsLearned r.provenance ∨
    ∃ q, kb.known p.id = some q ∧ ∃ d' ∈ q.depths, d'.level = d.level ∧ r ∈ d'.relata

section

variable [NameFolding] {kb : KnowledgeBase}

theorem Attested.of_known {id : UUID} {p : Primitive} (h : kb.known id = some p) :
    Attested kb p := by
  rw [← kb.own_id id p h] at h
  refine ⟨Or.inr ⟨p, h, rfl, rfl⟩, ?_, ?_⟩
  · intro d hd
    exact Or.inr ⟨p, h, d, hd, rfl, rfl, rfl⟩
  · intro d hd r hr
    exact Or.inr ⟨p, h, d, hd, rfl, hr⟩

theorem Created.attested {name : String} {p : Primitive} (h : Created name p) :
    Attested kb p := by
  refine ⟨Or.inl h.learned.1, ?_, ?_⟩
  · intro d hd
    exact Or.inl (h.learned.2 d hd)
  · intro d hd r hr
    rw [h.bare d hd] at hr
    cases hr

theorem Filled.attested {required : DepthLevel} {added : List Depth} {p p' : Primitive}
    (h : Filled required added p p') (hp : Attested kb p) : Attested kb p' := by
  refine ⟨?_, ?_, ?_⟩
  · rw [h.id, h.name, h.provenance]
    exact hp.primitive
  · intro d hd
    rw [h.id]
    rcases (h.mem_iff d).mp hd with hnew | ⟨hold, -⟩
    · exact Or.inl (h.learned d hnew)
    · exact hp.depths d hold
  · intro d hd r hr
    rw [h.id]
    rcases (h.mem_iff d).mp hd with hnew | ⟨hold, -⟩
    · rw [h.bare d hnew] at hr
      cases hr
    · exact hp.relata d hold r hr

theorem Linked.attested {level : DepthLevel} {new : Relatum} {p p' : Primitive}
    (h : Linked level new p p') (hp : Attested kb p) : Attested kb p' := by
  have hdepth : ∀ d' ∈ p'.depths, ∃ d ∈ p.depths, d'.level = d.level ∧
      d'.properties = d.properties ∧ d'.provenance = d.provenance ∧
      ∀ r ∈ d'.relata, r ∈ d.relata ∨ r = new := by
    intro d' hd'
    rw [h.depths] at hd'
    obtain ⟨d, hd, rfl⟩ := List.mem_map.mp hd'
    refine ⟨d, hd, level_ite_attach d, ?_, ?_, ?_⟩
    · split <;> rfl
    · split <;> rfl
    · intro r hr
      split at hr
      · rcases List.mem_append.mp hr with hr | hr
        · exact Or.inl hr
        · exact Or.inr (List.mem_singleton.mp hr)
      · exact Or.inl hr
  refine ⟨?_, ?_, ?_⟩
  · rw [h.id, h.name, h.provenance]
    exact hp.primitive
  · intro d' hd'
    obtain ⟨d, hd, hlevel, hproperties, hprovenance, -⟩ := hdepth d' hd'
    rw [h.id, hlevel, hproperties, hprovenance]
    exact hp.depths d hd
  · intro d' hd' r hr
    obtain ⟨d, hd, hlevel, -, -, hrelata⟩ := hdepth d' hd'
    rw [h.id, hlevel]
    rcases hrelata r hr with hr | rfl
    · exact hp.relata d hd r hr
    · exact Or.inl h.learned

theorem Edit.attested {kind : GapKind} {p p' : Primitive} (h : Edit kind p p')
    (hp : Attested kb p) : Attested kb p' := by
  cases h with
  | depth h => exact h.attested hp
  | relational h => exact h.attested hp
  | reachability h => exact h.attested hp

end

/-- However the accesses of many calls of `learn_gap` interleave, whatever gaps and candidates
they come with, the store afterwards has no record that is not learned but those it had. -/
theorem interleaved_attested {ρ ι : Type} [NameFolding] [Repository ρ] [DecidableEq ι]
    {wrap : Tables → ρ} {policy : KnowledgeBase.MissingTarget} (hreal : Realizes wrap policy)
    {repo : ρ} {kb : KnowledgeBase} (h : Holds wrap repo kb) (calls : ι → LearnCall)
    (schedule : List ι) :
    ∃ kb', Represents (interleaved calls repo schedule).store kb' ∧
      ∀ id p, kb'.known id = some p → Attested kb p := by
  have hall : ∀ id p, kb.known id = some p → Attested kb p := by
    intro id p hp
    exact Attested.of_known hp
  have hkeeps : ∀ i, Keeps (Attested kb) (calls i) := by
    intro i
    constructor
    · intro name p _ hcreated
      exact hcreated.attested
    · intro p p' hedit _ _ hp
      exact hedit.attested hp
  obtain ⟨kb', hholds, hmoves, -⟩ := interleaved_safe hreal h hall hkeeps schedule
  exact ⟨kb', hreal.represents hholds, hmoves.keeps hall⟩

theorem interleaved_attested_fillAndCreate : letI := asciiFolding
    ∃ kb kb', Represents GroundingEngine.writeFile kb ∧
      Represents (interleaved fillAndCreate GroundingEngine.writeFile inTurn).store kb' ∧
      ∀ id p, kb'.known id = some p → Attested kb p := by
  let _ := asciiFolding
  obtain ⟨hwell, hholds⟩ := holds_writeFile
  obtain ⟨kb', hrep, hattested⟩ :=
    interleaved_attested Sqlite.realizes hholds fillAndCreate inTurn
  exact ⟨_, kb', Sqlite.realizes.represents hholds, hrep, hattested⟩

end LearningEngine

end Vre
