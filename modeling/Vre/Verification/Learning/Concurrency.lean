import Vre.Verification.Grounding.Locality
import Vre.Verification.Learning.Backends

/-! # Many learners at once

Nothing serializes the calls of several learners: each reads, decides and saves, and the
accesses of all of them interleave. Whatever the interleaving, the store keeps holding a
knowledge base, and what was known before they started is still known after them. What one
of them learns can be lost: a primitive that two of them have read is left as the later of
their saves has it. When no call saves what another open call has read, the calls have run
one after the other.
-/

namespace Vre

open Transactions (Config Reading)

namespace LearningEngine

/-- The calls, none of which has accessed the repository yet. -/
def opened {ρ ι : Type} [NameFolding] (calls : ι → LearnCall) (repo : ρ) :
    Config ι ρ Question Answer PyException Primitive (Option ErrorClass) :=
  .start (fun i => script (calls i).draw (calls i).gap (calls i).candidate) repo

/-- The calls after the accesses of a schedule, one access of one call at a time. -/
def interleaved {ρ ι : Type} [NameFolding] [Repository ρ] [DecidableEq ι]
    (calls : ι → LearnCall) (repo : ρ) (schedule : List ι) :
    Config ι ρ Question Answer PyException Primitive (Option ErrorClass) :=
  (sharedStore ρ).interleave (opened calls repo) schedule

/-- One learner fills `File` at D2 while another creates `Notes`. -/
def fillAndCreate : Bool → LearnCall
  | true => ⟨⟨fun i => i + 9, 0⟩, .depth fileDepthGap, .depth fileDepthCandidate⟩
  | false => ⟨⟨fun i => i + 8, 0⟩, .existence ⟨⟨7, "Notes", [], none, none⟩⟩,
      .existence ⟨"Notes", some ⟨.identity, [("kind", .json "4")]⟩⟩⟩

/-- Each has read before either saves. -/
def inTurn : List Bool :=
  [true, false, true, false]

end LearningEngine

/-! ## What every interleaving keeps -/

namespace KnowledgeBase

variable [NameFolding]

open LearningEngine

/-- The save of a primitive that calls may save moves the map on. -/
theorem Saveable.moves {Φ : Primitive → Prop} {kb : KnowledgeBase} {p : Primitive}
    (h : kb.Saveable Φ p) (policy : MissingTarget) : kb.Moves Φ (kb.save policy p).2 := by
  rcases save_cases policy kb p with ⟨cls, heq⟩ | ⟨hadmits, heq⟩
  · rw [heq]
    exact Moves.refl Φ kb
  · rw [heq]
    have hoffered : kb.offered policy p = p :=
      offered_of_targets policy fun r hr => Or.inr (h.targets r hr)
    have hstorable : p.Storable := hoffered ▸ hadmits.storable
    have hsettled : (kb.offered policy p).settle = p := by
      rw [hoffered]
      exact settle_of_normal hstorable h.normal
    constructor
    · intro id hid
      change (Function.update kb.known _ _ id).isSome
      by_cases hself : id = (kb.offered policy p).id
      · rw [hself, Function.update_self]
        rfl
      · rwa [Function.update_of_ne hself]
    · intro hall id q hq
      rcases update_eq_some.mp hq with ⟨-, rfl⟩ | ⟨-, hq⟩
      · rw [hsettled]
        exact h.holds
      · exact hall id q hq

/-- What the calls owe each other is what they make of the map. -/
theorem contract_sharedStore (ι : Type) (Φ : Primitive → Prop) (policy : MissingTarget) :
    (sharedStore policy).Contract (fun _ : ι => Moves Φ) (fun _ => Saveable Φ) (Moves Φ) where
  rely_refl _ := Moves.refl Φ
  rely_trans _ _ _ _ h h' := h.trans h'
  guar_refl := Moves.refl Φ
  guar_trans _ _ _ h h' := h.trans h'
  gives _ _ _ h := h.moves policy
  relied _ _ _ _ _ h := h.moves policy

end KnowledgeBase

namespace LearningEngine

/-- The interleaved calls move what the store holds on, and the open ones stay safe. -/
theorem interleaved_safe {ρ ι : Type} [NameFolding] [Repository ρ] [DecidableEq ι]
    {wrap : Tables → ρ} {policy : KnowledgeBase.MissingTarget} (hreal : Realizes wrap policy)
    {repo : ρ} {kb : KnowledgeBase} (h : Holds wrap repo kb) {Φ : Primitive → Prop}
    (hall : ∀ id p, kb.known id = some p → Φ p) {calls : ι → LearnCall}
    (hkeeps : ∀ i, Keeps Φ (calls i)) (schedule : List ι) :
    ∃ kb', Holds wrap (interleaved calls repo schedule).store kb' ∧ kb.Moves Φ kb' ∧
      (KnowledgeBase.sharedStore policy).AllSafe (fun _ => KnowledgeBase.Moves Φ)
        (fun _ => KnowledgeBase.Saveable Φ)
        ⟨kb', (interleaved calls repo schedule).pending,
          (interleaved calls repo schedule).ended⟩ := by
  have hstart : Transactions.Store.Alike (Holds wrap) (opened calls repo) (opened calls kb) :=
    ⟨h, rfl, rfl⟩
  have hend := hstart.interleave (simulates_sharedStore hreal) schedule
  have hsafe : (KnowledgeBase.sharedStore policy).AllSafe (fun _ => KnowledgeBase.Moves Φ)
      (fun _ => KnowledgeBase.Saveable Φ) (opened calls kb) := by
    intro i progress hprogress
    cases hprogress
    exact KnowledgeBase.safe_script hall (hkeeps i)
  obtain ⟨hmoves, hopen⟩ :=
    hsafe.interleave (KnowledgeBase.contract_sharedStore ι Φ policy) schedule
  refine ⟨_, hend.store, hmoves, ?_⟩
  intro i progress hprogress
  exact hopen i progress (hend.pending ▸ hprogress)

/-! ## What was known before -/

/-- What is left of `p` and what has come to it: every depth that counts is still there with
its content, and its relata. -/
structure Retains (p p' : Primitive) : Prop where
  name : p'.name = p.name
  provenance : p'.provenance = p.provenance
  depths : ∀ d ∈ p.depths, d.grounds = true → ∃ d' ∈ p'.depths, d'.level = d.level ∧
    d'.properties = d.properties ∧ d'.provenance = d.provenance ∧ d.relata ⊆ d'.relata

theorem Retains.refl (p : Primitive) : Retains p p :=
  ⟨rfl, rfl, fun d hd _ => ⟨d, hd, rfl, rfl, rfl, List.Subset.refl _⟩⟩

theorem Retains.trans {p p' p'' : Primitive} (h : Retains p p') (h' : Retains p' p'') :
    Retains p p'' := by
  refine ⟨h'.name.trans h.name, h'.provenance.trans h.provenance, ?_⟩
  intro d hd hgrounds
  obtain ⟨d', hd', hlevel, hproperties, hprovenance, hrelata⟩ := h.depths d hd hgrounds
  obtain ⟨d'', hd'', hlevel', hproperties', hprovenance', hrelata'⟩ :=
    h'.depths d' hd' (grounds_of_subset hgrounds hlevel hproperties hrelata)
  exact ⟨d'', hd'', hlevel'.trans hlevel, hproperties'.trans hproperties,
    hprovenance'.trans hprovenance, List.Subset.trans hrelata hrelata'⟩

theorem Filled.retains {required : DepthLevel} {added : List Depth} {p p' : Primitive}
    (h : Filled required added p p') : Retains p p' := by
  refine ⟨h.name, h.provenance, ?_⟩
  intro d hd hgrounds
  exact ⟨d, h.kept d hd hgrounds, rfl, rfl, rfl, List.Subset.refl _⟩

theorem Linked.retains {level : DepthLevel} {r : Relatum} {p p' : Primitive}
    (h : Linked level r p p') : Retains p p' := by
  refine ⟨h.name, h.provenance, ?_⟩
  intro d hd _
  refine ⟨_, h.depths ▸ List.mem_map_of_mem hd, level_ite_attach d, ?_, ?_, ?_⟩
  · split <;> rfl
  · split <;> rfl
  · split
    · exact List.subset_append_left _ _
    · exact List.Subset.refl _

theorem Edit.retains {kind : GapKind} {p p' : Primitive} (h : Edit kind p p') :
    p'.id = p.id ∧ Retains p p' := by
  cases h with
  | depth h => exact ⟨h.id, h.retains⟩
  | relational h => exact ⟨h.id, h.retains⟩
  | reachability h => exact ⟨h.id, h.retains⟩

/-- However the accesses of many calls of `learn_gap` interleave, the store goes on holding a
knowledge base, and all that it held before the calls is still in it. -/
theorem interleaved_retains {ρ ι : Type} [NameFolding] [Repository ρ] [DecidableEq ι]
    {wrap : Tables → ρ} {policy : KnowledgeBase.MissingTarget} (hreal : Realizes wrap policy)
    {repo : ρ} {kb : KnowledgeBase} (h : Holds wrap repo kb) {calls : ι → LearnCall}
    (hfresh : ∀ i, kb.known ((calls i).draw.uuid4 0) = none) (schedule : List ι) :
    ∃ kb', Represents (interleaved calls repo schedule).store kb' ∧
      ∀ id p, kb.known id = some p → ∃ p', kb'.known id = some p' ∧ Retains p p' := by
  let Φ : Primitive → Prop := fun p' => ∀ p, kb.known p'.id = some p → Retains p p'
  have hall : ∀ id p, kb.known id = some p → Φ p := by
    intro id p hp q hq
    rw [kb.own_id id p hp] at hq
    cases hp.symm.trans hq
    exact Retains.refl p
  have hkeeps : ∀ i, Keeps Φ (calls i) := by
    intro i
    constructor
    · intro name p' hid _ p hp
      rw [hid, hfresh i] at hp
      cases hp
    · intro q p' hedit _ _ hq p hp
      obtain ⟨hid, hretains⟩ := hedit.retains
      exact (hq p (hid ▸ hp)).trans hretains
  obtain ⟨kb', hholds, hmoves, -⟩ := interleaved_safe hreal h hall hkeeps schedule
  refine ⟨kb', hreal.represents hholds, ?_⟩
  intro id p hp
  obtain ⟨p', hp'⟩ := Option.isSome_iff_exists.mp (hmoves.stays id (by rw [hp]; rfl))
  refine ⟨p', hp', hmoves.keeps hall id p' hp' p ?_⟩
  rw [kb'.own_id id p' hp']
  exact hp

theorem holds_writeFile [NameFolding] :
    ∃ h, Holds (fun t => (⟨t, none⟩ : SqliteRepository)) GroundingEngine.writeFile
      (GroundingEngine.writeFile.tables.knowledge h) := by
  have hsound := GroundingEngine.sound_writeFile
  exact ⟨hsound.2, _, hsound.2, hsound.eq_idle, rfl⟩

theorem unused_fillAndCreate : letI := asciiFolding
    ∀ i, ¬ GroundingEngine.writeFile.tables.Stored ((fillAndCreate i).draw.uuid4 0) := by
  let _ := asciiFolding
  simp only [Tables.stored_iff_mem]
  decide

theorem interleaved_retains_fillAndCreate : letI := asciiFolding
    ∃ kb', Represents (interleaved fillAndCreate GroundingEngine.writeFile inTurn).store kb' ∧
      ∀ id p, GroundingEngine.writeFile.tables.live id = some p →
        ∃ p', kb'.known id = some p' ∧ Retains p p' := by
  let _ := asciiFolding
  obtain ⟨hwell, hholds⟩ := holds_writeFile
  obtain ⟨kb', hrep, hkept⟩ := interleaved_retains Sqlite.realizes hholds
    (fun i => (Tables.knowledge_eq_none hwell).mpr (unused_fillAndCreate i)) inTurn
  refine ⟨kb', hrep, ?_⟩
  intro id p hp
  exact hkept id p ((Tables.known_knowledge hwell id).trans hp)

/-! ## Verdicts -/

/-- `p'` is `p` with depths filled in: it leads where `p` leads. -/
structure Refills (p p' : Primitive) : Prop where
  name : p'.name = p.name
  kept : ∀ d ∈ p.depths, d.grounds = true → d ∈ p'.depths
  relata : p'.toRelata.Perm p.toRelata

theorem Refills.refl (p : Primitive) : Refills p p :=
  ⟨rfl, fun _ hd _ => hd, .refl _⟩

theorem Refills.trans {p p' p'' : Primitive} (h : Refills p p') (h' : Refills p' p'') :
    Refills p p'' := by
  refine ⟨h'.name.trans h.name, ?_, h'.relata.trans h.relata⟩
  intro d hd hgrounds
  exact h'.kept d (h.kept d hd hgrounds) hgrounds

/-- The edits of calls that place no edge are fills. -/
theorem Edit.filled {kind : GapKind} (hkind : kind ≠ .reachability) {p p' : Primitive}
    (h : Edit kind p p') : ∃ required added, Filled required added p p' := by
  cases h with
  | depth h => exact ⟨_, _, h⟩
  | relational h => exact ⟨_, _, h⟩
  | reachability h => exact absurd rfl hkind

/-- What has come of the primitive, if it was known; else it leads nowhere. -/
def FromBefore [NameFolding] (kb : KnowledgeBase) (p' : Primitive) : Prop :=
  match kb.known p'.id with
  | some p => Refills p p'
  | none => p'.relata = []

theorem keeps_fromBefore [NameFolding] {kb : KnowledgeBase} {call : LearnCall}
    (hkind : call.gap.kind ≠ .reachability)
    (hfresh : kb.known (call.draw.uuid4 0) = none) : Keeps (FromBefore kb) call := by
  constructor
  · intro name p' hid hcreated
    rw [FromBefore, hid, hfresh]
    exact hcreated.relata
  · intro q p' hedit hq hp' hbefore
    obtain ⟨required, added, hfilled⟩ := hedit.filled hkind
    rw [FromBefore, hfilled.id]
    unfold FromBefore at hbefore
    cases hknown : kb.known q.id with
    | some p =>
        rw [hknown] at hbefore
        have hrefills : Refills q p' := ⟨hfilled.name, hfilled.kept, hfilled.perm_toRelata hq hp'⟩
        exact Refills.trans hbefore hrefills
    | none =>
        rw [hknown] at hbefore
        apply List.eq_nil_iff_forall_not_mem.mpr
        intro r hr
        have hold := hfilled.mem_relata hr
        rw [hbefore] at hold
        cases hold

end LearningEngine

namespace Tables

theorem outgoing_of_absent [NameFolding] {t : Tables} (h : t.Schema) {id : UUID}
    (hid : t.live id = none) : t.outgoing id = [] := by
  apply List.eq_nil_iff_forall_not_mem.mpr
  intro rel hrel
  obtain ⟨hmem, hsource⟩ := mem_outgoing.mp hrel
  exact live_eq_none.mp hid (hsource ▸ h.sources rel hmem)

/-- A primitive that has come of what was before leads where that led. -/
theorem perm_outgoing_of_fromBefore [NameFolding] {t t' : Tables} (h : t.WellFormed)
    (h' : t'.WellFormed) {id : UUID} {p' : Primitive} (hp' : t'.live id = some p')
    (hbefore : LearningEngine.FromBefore (t.knowledge h) p') :
    (t'.outgoing id).Perm (t.outgoing id) := by
  have hown : p'.id = id := (t'.knowledge h').own_id id p' hp'
  have hcarried : p'.toRelata.Perm (t'.outgoing id) := perm_toRelata h' hp'
  apply hcarried.symm.trans
  unfold LearningEngine.FromBefore at hbefore
  rw [hown] at hbefore
  cases hlive : t.live id with
  | some p =>
      have hknown : (t.knowledge h).known id = some p := hlive
      rw [hknown] at hbefore
      exact hbefore.relata.trans (perm_toRelata h hlive)
  | none =>
      have hknown : (t.knowledge h).known id = none := hlive
      rw [hknown] at hbefore
      have hnone : p'.toRelata = [] := by
        apply Primitive.toRelata_eq_nil
        intro d hd
        apply List.eq_nil_iff_forall_not_mem.mpr
        intro r hr
        have hmem : r ∈ p'.relata := mem_relata.mpr ⟨d, hd, hr⟩
        rw [hbefore] at hmem
        cases hmem
      rw [hnone, outgoing_of_absent h.toSchema hlive]

/-- Tables whose primitives have all come of what was before extend the tables before. -/
theorem extends_of_fromBefore [NameFolding] {t t' : Tables} (h : t.WellFormed)
    (h' : t'.WellFormed) (hstays : ∀ id, (t.live id).isSome → (t'.live id).isSome)
    (hall : ∀ id p', t'.live id = some p' → LearningEngine.FromBefore (t.knowledge h) p') :
    t.Extends t' := by
  constructor
  · have hcover' : ∀ rel ∈ t'.relata, rel.sourceId ∈ t'.primitives.map PrimitiveRow.id := by
      intro rel hrel
      exact stored_iff_mem.mp (h'.sources rel hrel)
    have hcover : ∀ rel ∈ t.relata, rel.sourceId ∈ t'.primitives.map PrimitiveRow.id := by
      intro rel hrel
      exact stored_iff_mem.mp (isSome_live.mp (hstays _ (isSome_live.mpr (h.sources rel hrel))))
    apply (OrderedDict.perm_flatMap_filter RelatumRow.sourceId h'.nodup_ids hcover').symm.trans
    apply List.Perm.trans ?_ (OrderedDict.perm_flatMap_filter _ h'.nodup_ids hcover)
    apply List.Perm.flatMap_left
    intro id hid
    obtain ⟨p', hp'⟩ := Option.isSome_iff_exists.mp (isSome_live.mpr (stored_iff_mem.mpr hid))
    exact perm_outgoing_of_fromBefore h h' hp' (hall id p' hp')
  · intro id p hp
    obtain ⟨p', hp'⟩ := Option.isSome_iff_exists.mp (hstays id (by rw [hp]; rfl))
    have hbefore := hall id p' hp'
    have hown : p'.id = id := (t'.knowledge h').own_id id p' hp'
    have hknown : (t.knowledge h).known id = some p := hp
    rw [LearningEngine.FromBefore, hown, hknown] at hbefore
    exact ⟨p', hp', hbefore.name, hbefore.kept⟩

end Tables

namespace LearningEngine

/-- The identifiers drawn are distinct, and new to the repository. -/
structure UnusedIn {ρ : Type} [Repository ρ] (draw : Draw) (repo : ρ) : Prop where
  unused : ∀ i, Repository.findById repo (draw.uuid4 i) = .ok none
  distinct : Function.Injective draw.uuid4

theorem UnusedIn.spare {ρ : Type} [NameFolding] [Repository ρ] {draw : Draw} {repo : ρ}
    (h : UnusedIn draw repo) {kb : KnowledgeBase} (hrep : Represents repo kb) :
    kb.Spare draw where
  unused i := by
    have hid := h.unused i
    rw [hrep.byId] at hid
    exact Except.ok.inj hid
  distinct := h.distinct

/-- However fills and creations interleave, a query that was grounded before them is grounded
after them, on the same primitives and by the same pathway. -/
theorem interleaved_keeps_grounded {ρ ι : Type} [NameFolding] [Repository ρ] [DecidableEq ι]
    {wrap : Tables → ρ} {policy : KnowledgeBase.MissingTarget} (hreal : Realizes wrap policy)
    {repo : ρ} {kb : KnowledgeBase} (h : Holds wrap repo kb) {calls : ι → LearnCall}
    (hfresh : ∀ i, kb.known ((calls i).draw.uuid4 0) = none)
    (hkind : ∀ i, (calls i).gap.kind ≠ .reachability) (schedule : List ι) {before after : Draw}
    (hbefore : UnusedIn before repo)
    (hafter : UnusedIn after (interleaved calls repo schedule).store) {concepts : List String}
    {minDepth : Option DepthLevel} {result : GroundingResult}
    (hground : GroundingEngine.ground before repo concepts minDepth = .ok result)
    (hgrounded : result.grounded = true) :
    ∃ result', GroundingEngine.ground after (interleaved calls repo schedule).store concepts
        minDepth = .ok result' ∧ result'.grounded = true ∧
      (∀ id, id ∈ result'.getPrimitives.map Primitive.id ↔
        id ∈ result.getPrimitives.map Primitive.id) ∧
      result'.getPathwaySteps.Perm result.getPathwaySteps := by
  have hall : ∀ id p, kb.known id = some p → FromBefore kb p := by
    intro id p hp
    rw [FromBefore, kb.own_id id p hp, hp]
    exact Refills.refl p
  obtain ⟨kb', hholds, hmoves, -⟩ := interleaved_safe hreal h hall
    (fun i => keeps_fromBefore (hkind i) (hfresh i)) schedule
  have hrep := hreal.represents h
  have hrep' := hreal.represents hholds
  have hspare := hbefore.spare hrep
  have hspare' := hafter.spare hrep'
  obtain ⟨t, hwell, -, rfl⟩ := h
  obtain ⟨t', hwell', -, rfl⟩ := hholds
  -- The same tables on SQLite answer alike, before and after.
  let db : SqliteRepository := ⟨t, none⟩
  let db' : SqliteRepository := ⟨t', none⟩
  have hextends : db.tables.Extends db'.tables :=
    Tables.extends_of_fromBefore hwell hwell' hmoves.stays (hmoves.keeps hall)
  have hdb : Represents db (t.knowledge hwell) := Sqlite.realizes.represents ⟨t, hwell, rfl, rfl⟩
  have hdb' : Represents db' (t'.knowledge hwell') :=
    Sqlite.realizes.represents ⟨t', hwell', rfl, rfl⟩
  obtain ⟨r, s, hr, hs, hagrees⟩ := GroundingEngine.ground_local hrep hdb (.refl _ concepts)
    hspare hspare minDepth
  cases hr.symm.trans hground
  obtain ⟨s', hs', hgrounded', hsame, hpathway⟩ := GroundingEngine.ground_of_extends
    hwell.toSchema hwell'.toSchema hextends hs (hagrees.grounded.trans hgrounded) after
  obtain ⟨u, r', hu, hr', hagrees'⟩ := GroundingEngine.ground_local hdb' hrep' (.refl _ concepts)
    hspare' hspare' minDepth
  cases hu.symm.trans hs'
  refine ⟨r', hr', hagrees'.grounded.trans hgrounded', ?_, ?_⟩
  · intro id
    rw [(hagrees'.primitives.map Primitive.id).mem_iff, hsame,
      (hagrees.primitives.map Primitive.id).mem_iff]
  · exact hagrees'.pathway.trans (hpathway.trans hagrees.pathway)

/-- Identifiers above all stored ones are new to SQLite. -/
theorem unusedIn_above [NameFolding] {db : SqliteRepository} {bound : UUID} (now : Timestamp)
    (h : ∀ row ∈ db.tables.primitives, row.id < bound) :
    UnusedIn ⟨fun i => i + bound, now⟩ db where
  unused i := by
    have hnone : (db.tables.primitives.find? fun row => row.id = i + bound) = none := by
      apply List.find?_eq_none.mpr
      intro row hrow hid
      have hbelow := h row hrow
      rw [of_decide_eq_true hid] at hbelow
      exact absurd hbelow (not_lt.mpr (Nat.le_add_left bound i))
    change Sqlite.findById db (i + bound) = .ok none
    unfold Sqlite.findById
    rw [hnone]
  distinct _ _ h := Nat.add_right_cancel h

theorem interleaved_keeps_grounded_fillAndCreate : letI := asciiFolding
    ∃ result', GroundingEngine.ground ⟨fun i => i + 20, 0⟩
        (interleaved fillAndCreate GroundingEngine.writeFile inTurn).store ["write"] none =
          .ok result' ∧
      result'.grounded = true := by
  let _ := asciiFolding
  obtain ⟨hwell, hholds⟩ := holds_writeFile
  have hgrounded : (GroundingEngine.ground ⟨fun i => i + 20, 0⟩ GroundingEngine.writeFile ["write"]
      none).map GroundingResult.grounded = .ok true := by
    decide
  have hground := GroundingEngine.ground_eq hwell.toSchema ⟨fun i => i + 20, 0⟩
    (List.cons_ne_nil "write" []) none
  rw [hground] at hgrounded
  have hbefore : ∀ row ∈ GroundingEngine.writeFile.tables.primitives, row.id < 20 := by decide
  have hafter : ∀ row ∈ (interleaved fillAndCreate GroundingEngine.writeFile
      inTurn).store.tables.primitives, row.id < 20 := by decide +kernel
  have hkind : ∀ i, (fillAndCreate i).gap.kind ≠ .reachability := by decide
  obtain ⟨result', hground', hgrounded', -⟩ := interleaved_keeps_grounded Sqlite.realizes hholds
    (fun i => (Tables.knowledge_eq_none hwell).mpr (unused_fillAndCreate i)) hkind inTurn
    (unusedIn_above 0 hbefore) (unusedIn_above 0 hafter) hground (Except.ok.inj hgrounded)
  exact ⟨result', hground', hgrounded'⟩

end LearningEngine

end Vre
