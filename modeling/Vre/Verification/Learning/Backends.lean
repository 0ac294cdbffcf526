import Vre.Verification.Learning.LearnedGraphs
import Vre.Verification.Learning.Script
import Vre.Verification.Store.Refinement

/-! # Learning on any backend

What `learn_gap` means for a knowledge base. Each backend does what that meaning says, call
by call and also when the accesses of many calls interleave. A call never offers a relatum
to an unknown primitive, so the backends' one difference does not show.
-/

namespace Vre

open Transactions (Config Reading)

/-- How a call ended: the class of the error it raised, if any. -/
def LearningEngine.ending : Except PyException (Option ErrorClass) → Except ErrorClass Unit
  | .ok none => .ok ()
  | .ok (some cls) => .error cls
  | .error exc => .error exc.cls

namespace KnowledgeBase

variable [NameFolding]

open LearningEngine

/-- The knowledge base as calls of `learn_gap` share it. -/
noncomputable def sharedStore (policy : MissingTarget) :
    Transactions.Store KnowledgeBase Question Answer Primitive (Option ErrorClass) where
  answer kb question :=
    match question with
    | .byId id => .ok (kb.known id)
    | .byName name => .ok (kb.lookup name)
  write kb p := kb.save policy p

/-- What a call of `learn_gap` means: how it ends, and the map after it. -/
noncomputable def learn (policy : MissingTarget) (kb : KnowledgeBase) (call : LearnCall) :
    Except ErrorClass Unit × KnowledgeBase :=
  let outcome := (sharedStore policy).run (script call.draw call.gap call.candidate) kb
  (ending outcome.1, outcome.2)

end KnowledgeBase

namespace LearningEngine

/-- How a call ends, and the store it leaves. -/
def LearnCall.step {ρ : Type} [NameFolding] [Repository ρ] (repo : ρ) (call : LearnCall) :
    Except ErrorClass Unit × ρ :=
  match (learnGap call.draw call.gap call.candidate : Action ρ Unit) repo with
  | .ok _ repo' => (.ok (), repo')
  | .error exc repo' => (.error exc.cls, repo')

/-- A call is its script, with nothing in between. -/
theorem LearnCall.step_eq {ρ : Type} [NameFolding] [Repository ρ] (repo : ρ) (call : LearnCall) :
    call.step repo =
      (ending ((sharedStore ρ).run (script call.draw call.gap call.candidate) repo).1,
        ((sharedStore ρ).run (script call.draw call.gap call.candidate) repo).2) := by
  unfold LearnCall.step Transactions.Store.run
  rw [learnGap_eq]
  cases hscript : (script call.draw call.gap call.candidate).run (Question.answer repo) with
  | error exc =>
      have hread : ((script call.draw call.gap call.candidate).toAction : Action ρ Primitive) repo =
          .error exc repo := Action.read_of_error hscript
      rw [Loops.bind_of_error hread]
      simp only [sharedStore, hscript, ending]
  | ok p =>
      have hread : ((script call.draw call.gap call.candidate).toAction : Action ρ Primitive) repo =
          .ok p repo := Action.read_of_ok hscript
      rw [Loops.bind_of_ok hread]
      simp only [sharedStore, hscript]
      cases (Repository.savePrimitive p : Action ρ Unit) repo <;> rfl

section

variable {ρ : Type} [NameFolding] [Repository ρ] {wrap : Tables → ρ}
  {policy : KnowledgeBase.MissingTarget} (hreal : Realizes wrap policy)
include hreal

/-- A backend answers and saves as the knowledge base that it holds. -/
theorem simulates_sharedStore :
    (sharedStore ρ).Simulates (KnowledgeBase.sharedStore policy) (Holds wrap) where
  answer repo kb h question := by
    have hrep := hreal.represents h
    cases question with
    | byId id => exact hrep.byId id
    | byName name => exact hrep.byName name
  write repo kb h p := by
    obtain ⟨t, hwell, rfl, rfl⟩ := h
    simp only [sharedStore, KnowledgeBase.sharedStore]
    rcases hreal.save t hwell p with ⟨t', h', hok, heq⟩ | ⟨exc, h', herror, heq⟩
    · rw [hok, heq]
      exact ⟨rfl, t', h', rfl, rfl⟩
    · rw [herror, heq]
      exact ⟨rfl, t, h', rfl, rfl⟩

theorem step_learn {repo : ρ} {kb : KnowledgeBase} (h : Holds wrap repo kb) (call : LearnCall) :
    (call.step repo).1 = (kb.learn policy call).1 ∧
      Holds wrap (call.step repo).2 (kb.learn policy call).2 := by
  rw [LearnCall.step_eq]
  obtain ⟨houtcome, hnext⟩ := (simulates_sharedStore hreal).run h
    (script call.draw call.gap call.candidate)
  exact ⟨congrArg ending houtcome, hnext⟩

end

/-! ## What a call saves -/

/-- A fill leads where the primitive led before. -/
theorem Filled.mem_relata {required : DepthLevel} {added : List Depth} {p p' : Primitive}
    (h : Filled required added p p') {r : Relatum} (hr : r ∈ p'.relata) : r ∈ p.relata := by
  obtain ⟨d, hd, hrd⟩ := Vre.mem_relata.mp hr
  rcases (h.mem_iff d).mp hd with hadded | ⟨hkept, -⟩
  · rw [h.bare d hadded] at hrd
    cases hrd
  · exact Vre.mem_relata.mpr ⟨d, hkept, hrd⟩

/-- A link leads where the primitive led before, and to the new target. -/
theorem Linked.mem_relata {level : DepthLevel} {new : Relatum} {p p' : Primitive}
    (h : Linked level new p p') {r : Relatum} (hr : r ∈ p'.relata) : r ∈ p.relata ∨ r = new := by
  obtain ⟨d', hd', hrd⟩ := Vre.mem_relata.mp hr
  obtain ⟨d, hd, -, -, -, hrelata⟩ := h.mem_depths hd'
  rcases hrelata r hrd with hold | ⟨-, hnew⟩
  · exact Or.inl (Vre.mem_relata.mpr ⟨d, hd, hold⟩)
  · exact Or.inr hnew

theorem Created.relata {name : String} {p : Primitive} (h : Created name p) : p.relata = [] := by
  apply List.eq_nil_iff_forall_not_mem.mpr
  intro r hr
  obtain ⟨d, hd, hrd⟩ := Vre.mem_relata.mp hr
  rw [h.bare d hd] at hrd
  cases hrd

/-- What a call about a kind of gap makes of a primitive that it has read. -/
inductive Edit : GapKind → Primitive → Primitive → Prop where
  | depth {required added p p'} : Filled required added p p' → Edit .depth p p'
  | relational {required added p p'} : Filled required added p p' → Edit .relational p p'
  | reachability {level r p p'} : Linked level r p p' → Edit .reachability p p'

/-- The call creates, and makes of what has the property, what has it too. -/
structure Keeps (Φ : Primitive → Prop) (call : LearnCall) : Prop where
  created : ∀ name p, p.id = call.draw.uuid4 0 → Created name p → Φ p
  edited : ∀ p p', Edit call.gap.kind p p' → p.Normal → p'.Normal → Φ p → Φ p'

end LearningEngine

namespace KnowledgeBase

variable [NameFolding]

open LearningEngine

/-- From one map to a later one: what is known stays known, and if all of it had the
property, all of it still has. -/
structure Moves (Φ : Primitive → Prop) (kb kb' : KnowledgeBase) : Prop where
  stays : ∀ id, (kb.known id).isSome → (kb'.known id).isSome
  keeps : (∀ id p, kb.known id = some p → Φ p) → ∀ id p, kb'.known id = some p → Φ p

theorem Moves.refl (Φ : Primitive → Prop) (kb : KnowledgeBase) : kb.Moves Φ kb :=
  ⟨fun _ h => h, fun h => h⟩

theorem Moves.trans {Φ : Primitive → Prop} {kb kb' kb'' : KnowledgeBase} (h : kb.Moves Φ kb')
    (h' : kb'.Moves Φ kb'') : kb.Moves Φ kb'' :=
  ⟨fun id hid => h'.stays id (h.stays id hid), fun hall => h'.keeps (h.keeps hall)⟩

/-- A primitive that a call may save: it has the property, and leads to what is known. -/
structure Saveable (Φ : Primitive → Prop) (kb : KnowledgeBase) (p : Primitive) : Prop where
  holds : Φ p
  normal : p.Normal
  targets : ∀ r ∈ p.relata, (kb.known r.targetId).isSome

theorem Saveable.mono {Φ : Primitive → Prop} {kb kb' : KnowledgeBase} {p : Primitive}
    (h : kb.Saveable Φ p) (hmoves : kb.Moves Φ kb') : kb'.Saveable Φ p :=
  ⟨h.holds, h.normal, fun r hr => hmoves.stays _ (h.targets r hr)⟩

section Safety

variable {policy : MissingTarget} {Φ : Primitive → Prop}

theorem safe_byId {kb : KnowledgeBase} {id : UUID} {f : Option Primitive → Script Primitive}
    (h : ∀ kb', kb.Moves Φ kb' →
      (sharedStore policy).Safe (Moves Φ) (Saveable Φ) kb' (f (kb'.known id))) :
    (sharedStore policy).Safe (Moves Φ) (Saveable Φ) kb (Script.find (.byId id) >>= f) :=
  h

theorem safe_byName {kb : KnowledgeBase} {name : String}
    {f : Option Primitive → Script Primitive} (h : ∀ kb', kb.Moves Φ kb' →
      (sharedStore policy).Safe (Moves Φ) (Saveable Φ) kb' (f (kb'.lookup name))) :
    (sharedStore policy).Safe (Moves Φ) (Saveable Φ) kb (Script.find (.byName name) >>= f) :=
  h

theorem safe_done {kb : KnowledgeBase} {p : Primitive} (h : kb.Saveable Φ p) :
    (sharedStore policy).Safe (Moves Φ) (Saveable Φ) kb (pure p : Script Primitive) :=
  fun _ hmoves => h.mono hmoves

theorem safe_existence {kb : KnowledgeBase} {call : LearnCall} (hkeeps : Keeps Φ call)
    {c : ExistenceCandidate} {gap : KnowledgeGap} :
    (sharedStore policy).Safe (Moves Φ) (Saveable Φ) kb (do
      Reading.ofExcept (c.validateForGap gap)
      Script.existence call.draw c (makeProvenance call.draw .learned)) := by
  apply Transactions.Store.safe_ofExcept_bind
  intro u hvalid
  obtain ⟨-, d1, hd1, hlevel⟩ := existenceCandidate_validateForGap_ok.mp hvalid
  apply safe_byName
  intro kb' _
  cases kb'.lookup c.name with
  | some p => trivial
  | none =>
      apply Transactions.Store.safe_ofExcept_bind
      intro u hfill
      have hfill' := validateDepthFill_ok.mp hfill
      rw [hd1, Option.toList_some, validFill_identity_iff hlevel] at hfill'
      have hcreated := created_createdPrimitive call.draw hd1 hlevel hfill'
      apply safe_done
      refine ⟨hkeeps.created c.name _ rfl hcreated, hcreated.normal, ?_⟩
      intro r hr
      have hnone : r ∈ (createdPrimitive call.draw c
        (makeProvenance call.draw .learned)).relata := hr
      rw [hcreated.relata] at hnone
      cases hnone

theorem safe_depthFill {kb : KnowledgeBase} (hall : ∀ id p, kb.known id = some p → Φ p)
    {call : LearnCall} {gap : KnowledgeGap} {id : UUID} {required : DepthLevel}
    {newDepths : List ProposedDepth}
    (hkeeps : ∀ added p p', Filled required added p p' → p.Normal → p'.Normal → Φ p → Φ p')
    (snapshotName label : String) :
    (sharedStore policy).Safe (Moves Φ) (Saveable Φ) kb (do
      Reading.ofExcept (validateNewDepths label newDepths gap)
      Script.depthFill id snapshotName required newDepths (makeProvenance call.draw .learned)
        label) := by
  apply Transactions.Store.safe_ofExcept_bind
  intro u _
  apply safe_byId
  intro kb' hmoves
  cases hp : kb'.known id with
  | none => trivial
  | some p =>
      apply Transactions.Store.safe_ofExcept_bind
      intro u _
      apply Transactions.Store.safe_ofExcept_bind
      intro u hfill
      have hvalid := validateDepthFill_ok.mp hfill
      have hnormal := kb'.normal id p hp
      have hfilled := filled_filledPrimitive call.draw hvalid
      have hnormal' := normal_filledPrimitive hnormal hvalid.distinct
        (makeProvenance call.draw .learned)
      apply safe_done
      refine ⟨hkeeps _ p _ hfilled hnormal hnormal' (hmoves.keeps hall id p hp), hnormal', ?_⟩
      intro r hr
      exact kb'.closed id p hp r (hfilled.mem_relata hr)

theorem safe_resolveName {kb : KnowledgeBase} {name : String} {f : Primitive → Script Primitive}
    (h : ∀ kb' p, kb.Moves Φ kb' → kb'.known p.id = some p →
      (sharedStore policy).Safe (Moves Φ) (Saveable Φ) kb' (f p)) :
    (sharedStore policy).Safe (Moves Φ) (Saveable Φ) kb (Script.resolveName name >>= f) := by
  rw [Script.resolveName, Reading.bind_assoc]
  apply safe_byName
  intro kb' hmoves
  cases hp : kb'.lookup name with
  | none => trivial
  | some p => exact h kb' p hmoves (lookup_eq_some.mp hp).1

theorem safe_findEndpoint {kb : KnowledgeBase} {role name : String} {id : UUID}
    {f : Primitive → Script Primitive}
    (h : ∀ kb' p, kb.Moves Φ kb' → kb'.known id = some p →
      (sharedStore policy).Safe (Moves Φ) (Saveable Φ) kb' (f p)) :
    (sharedStore policy).Safe (Moves Φ) (Saveable Φ) kb
      (Script.findEndpoint role name id >>= f) := by
  rw [Script.findEndpoint, Reading.bind_assoc]
  apply safe_byId
  intro kb' hmoves
  cases hp : kb'.known id with
  | none => trivial
  | some p => exact h kb' p hmoves hp

theorem safe_reachability {kb : KnowledgeBase} (hall : ∀ id p, kb.known id = some p → Φ p)
    {call : LearnCall} {edge : EdgeProposal}
    (hkeeps : ∀ level r p p', Linked level r p p' → p.Normal → p'.Normal → Φ p → Φ p') :
    (sharedStore policy).Safe (Moves Φ) (Saveable Φ) kb
      (Script.reachability edge (makeProvenance call.draw .learned)) := by
  apply safe_resolveName
  intro kb₁ named hmoves₁ _
  apply safe_resolveName
  intro kb₂ target hmoves₂ htarget
  apply safe_findEndpoint
  intro kb₃ source hmoves₃ hsource
  apply safe_findEndpoint
  intro kb₄ _ hmoves₄ _
  apply Transactions.Store.safe_ofExcept_bind
  intro u hdepth
  apply Transactions.Store.safe_ofExcept_bind
  intro u _
  have hnormal := kb₃.normal _ source hsource
  have hsourceHolds := (hmoves₁.trans (hmoves₂.trans hmoves₃)).keeps hall _ source hsource
  obtain ⟨hlinked, hnormal'⟩ :=
    linked_linkedPrimitive call.draw hnormal (requireDepth_ok.mp hdepth) target.id
  apply safe_done
  refine ⟨hkeeps _ _ source _ hlinked hnormal hnormal' hsourceHolds, hnormal', ?_⟩
  intro r hr
  rcases hlinked.mem_relata hr with hold | rfl
  · exact hmoves₄.stays _ (kb₃.closed _ source hsource r hold)
  · have hknown : (kb₂.known target.id).isSome := by rw [htarget]; rfl
    exact (hmoves₃.trans hmoves₄).stays _ hknown

/-- Whatever other calls do between its accesses, a call ends with the save of a primitive
that keeps the property. -/
theorem safe_script {kb : KnowledgeBase} (hall : ∀ id p, kb.known id = some p → Φ p)
    {call : LearnCall} (hkeeps : Keeps Φ call) :
    (sharedStore policy).Safe (Moves Φ) (Saveable Φ) kb
      (script call.draw call.gap call.candidate) := by
  obtain ⟨draw, gap, candidate⟩ := call
  cases gap with
  | existence g =>
      cases candidate with
      | existence c => exact safe_existence hkeeps
      | _ => trivial
  | depth g =>
      cases candidate with
      | depth c =>
          apply safe_depthFill hall
          intro added p p' hfilled
          exact hkeeps.edited p p' (.depth hfilled)
      | _ => trivial
  | relational g =>
      cases candidate with
      | relational c =>
          apply safe_depthFill hall
          intro added p p' hfilled
          exact hkeeps.edited p p' (.relational hfilled)
      | _ => trivial
  | reachability g =>
      cases candidate with
      | reachability c =>
          apply Transactions.Store.safe_ofExcept_bind
          intro edge _
          apply safe_reachability hall
          intro level r p p' hlinked
          exact hkeeps.edited p p' (.reachability hlinked)
      | _ => trivial

end Safety

/-! ## The policy does not show -/

theorem offered_of_targets {kb : KnowledgeBase} {p : Primitive} (policy : MissingTarget)
    (h : ∀ r ∈ p.relata, r.targetId = p.id ∨ (kb.known r.targetId).isSome) :
    kb.offered policy p = p := by
  cases policy with
  | refused => rfl
  | dropped =>
      have hself : p.restrict (fun id => id = p.id ∨ (kb.known id).isSome) = p := restrict_eq_self h
      exact hself

/-- A save of a primitive that leads to nothing unknown is the same under both policies. -/
theorem save_policy {kb : KnowledgeBase} {p : Primitive} (policy : MissingTarget)
    (h : ∀ r ∈ p.relata, r.targetId = p.id ∨ (kb.known r.targetId).isSome) :
    kb.save policy p = kb.save .refused p := by
  have hoffered : kb.offered policy p = kb.offered .refused p := offered_of_targets policy h
  unfold save
  rw [hoffered]

/-- A call of `learn_gap` means the same under both policies. -/
theorem learn_policy (kb : KnowledgeBase) (policy : MissingTarget) (call : LearnCall) :
    kb.learn policy call = kb.learn .refused call := by
  have hsafe : (sharedStore policy).Safe (Moves fun _ => True) (Saveable fun _ => True) kb
      (script call.draw call.gap call.candidate) :=
    safe_script (fun _ _ _ => trivial) ⟨fun _ _ _ _ => trivial, fun _ _ _ _ _ _ => trivial⟩
  have hsame : ∀ policy', (sharedStore policy').answer kb = (sharedStore policy).answer kb :=
    fun _ => rfl
  unfold learn Transactions.Store.run
  rw [hsame .refused]
  cases hrun : (script call.draw call.gap call.candidate).run
      ((sharedStore policy).answer kb) with
  | error exc => rfl
  | ok p =>
      have hsaveable := hsafe.run (Moves.refl _) hrun
      have hsave : kb.save policy p = kb.save .refused p :=
        save_policy policy fun r hr => Or.inr (hsaveable.targets r hr)
      simp only [sharedStore, hsave]

end KnowledgeBase

end Vre
