import Vre.Model.Interface
import Vre.Verification.Learning.Concurrency
import Vre.Verification.Metrics.Counting

/-! # Sessions on either backend

What an integrator asks of one VRE instance, request after request: checks, learning, the
repository calls of its own, and whether the declared policies are still placed. A SQLite and
a Neo4j store that know the same answer a whole session alike.
-/

namespace Vre

/-! ## Metrics as the map has them -/

namespace KnowledgeBase

variable [NameFolding]

/-- The map with the metrics of a batch. -/
def writeMetrics (kb : KnowledgeBase) (updates : OrderedDict UUID PrimitiveMetrics) :
    KnowledgeBase :=
  updates.entries.foldl (fun kb e => kb.setMetrics e.1 e.2) kb

theorem known_foldl_setMetrics (entries : List (UUID × PrimitiveMetrics)) (kb : KnowledgeBase)
    (hnodup : (entries.map Prod.fst).Nodup) (id : UUID) :
    (entries.foldl (fun kb e => kb.setMetrics e.1 e.2) kb).known id =
      (kb.known id).map fun p => match entries.find? fun e => e.1 = id with
        | some e => { p with metrics := some e.2 }
        | none => p := by
  induction entries generalizing kb with
  | nil => simp
  | cons e rest ih =>
      obtain ⟨hnew, hrest⟩ := List.nodup_cons.mp hnodup
      have hfirst : (kb.setMetrics e.1 e.2).known id =
          (kb.known id).map (Primitive.counted e.1 e.2 id) := rfl
      rw [List.foldl_cons, ih _ hrest, hfirst, Option.map_map]
      congr 1
      funext p
      by_cases hid : e.1 = id
      · have hnone : rest.find? (fun e => e.1 = id) = none := by
          apply List.find?_eq_none.mpr
          intro e' he' heq
          apply hnew
          rw [hid, ← of_decide_eq_true heq]
          exact List.mem_map_of_mem he'
        simp [hnone, hid, Primitive.counted]
      · have hne : ¬ id = e.1 := fun heq => hid heq.symm
        simp [hid, hne, Primitive.counted]

theorem known_writeMetrics (kb : KnowledgeBase) (updates : OrderedDict UUID PrimitiveMetrics)
    (id : UUID) : (kb.writeMetrics updates).known id =
      (kb.known id).map fun p => { p with metrics := (updates.get? id).or p.metrics } := by
  rw [writeMetrics, known_foldl_setMetrics _ _ updates.nodup_keys, OrderedDict.get?]
  congr 1
  funext p
  cases updates.entries.find? fun e => e.1 = id <;> rfl

/-- Batches with the same entries, in whatever order, leave the same map. -/
theorem writeMetrics_congr (kb : KnowledgeBase)
    {updates updates' : OrderedDict UUID PrimitiveMetrics}
    (h : ∀ id, updates.get? id = updates'.get? id) :
    kb.writeMetrics updates = kb.writeMetrics updates' := by
  apply ext_known
  funext id
  rw [known_writeMetrics, known_writeMetrics, h id]

end KnowledgeBase

/-! ## A check -/

namespace MetricsManager

variable [NameFolding]

/-- The primitives that a check counts: those of its closure that it names. -/
def counted (result : GroundingResult) : List Primitive :=
  result.getPrimitives.filter fun p => p.nameLower ∈ result.resolved.map foldName

/-- What a check counts for the primitive under an id. -/
def countOf (kb : KnowledgeBase) (now : Timestamp) (result : GroundingResult) (id : UUID) :
    Option PrimitiveMetrics :=
  if id ∈ (counted result).map Primitive.id then
    (kb.known id).map fun p =>
      bump now (id ∈ gapPrimitiveIds result.gaps) (p.metrics.getD .new)
  else
    none

theorem countOf_congr (kb : KnowledgeBase) (now : Timestamp) {result result' : GroundingResult}
    (h : result'.Agrees result) (id : UUID) :
    countOf kb now result' id = countOf kb now result id := by
  have hids : ((counted result').map Primitive.id).Perm ((counted result).map Primitive.id) := by
    unfold counted
    rw [h.resolved]
    exact (h.primitives.filter _).map _
  have hgaps : id ∈ gapPrimitiveIds result'.gaps ↔ id ∈ gapPrimitiveIds result.gaps := by
    simp only [gapPrimitiveIds, List.mem_dedup]
    exact (h.gaps.map _).mem_iff
  simp only [countOf, hids.mem_iff, hgaps]

/-- A check's write, after its read: one batch, unless that is empty. -/
theorem updateGrounding_of_read {ρ : Type} [Repository ρ] {repo : ρ} {draw : Draw}
    {result : GroundingResult} {current : OrderedDict UUID (Option PrimitiveMetrics)}
    (h : Repository.batchReadMetrics repo ((counted result).map Primitive.id) = .ok current) :
    let updates := metricUpdates draw.now (gapPrimitiveIds result.gaps) (counted result) current
    updateGrounding draw result repo = .ok ()
      (if updates.entries = [] then repo
       else ((RepositoryCall.batchUpdateMetrics updates).step repo).2) := by
  intro updates
  have hcounted : (result.getPrimitives.filter fun p =>
      p.nameLower ∈ result.resolved.map foldName) = counted result := rfl
  unfold updateGrounding
  simp only [hcounted, h]
  by_cases htargets : counted result = []
  · have hnone : updates.entries = [] := by
      simp only [updates, htargets]
      rfl
    simp [htargets, hnone]
  · by_cases hnone : updates.entries = []
    · simp [htargets, updates, hnone]
    · simp only [List.isEmpty_iff, htargets, updates, hnone, if_false]
      simp only [RepositoryCall.step, RepositoryCall.run]
      cases hbatch : (Repository.batchUpdateMetrics updates : Action ρ Unit) repo with
      | ok u repo' =>
          rw [Loops.bind_of_ok hbatch]
          rfl
      | error exc repo' => rw [Loops.bind_of_error hbatch]

/-- Counting a check on a backend writes what the map would have counted. -/
theorem updateGrounding_holds {ρ : Type} [Repository ρ] {wrap : Tables → ρ}
    {policy : KnowledgeBase.MissingTarget} (hreal : Realizes wrap policy) {repo : ρ}
    {kb : KnowledgeBase} (h : Holds wrap repo kb) (draw : Draw) (result : GroundingResult) :
    ∃ updates repo', updateGrounding draw result repo = .ok () repo' ∧
      Holds wrap repo' (kb.writeMetrics updates) ∧
      ∀ id, updates.get? id = countOf kb draw.now result id := by
  obtain ⟨current, hcurrent, hread⟩ :=
    (hreal.represents h).metrics ((counted result).map Primitive.id)
  refine ⟨metricUpdates draw.now (gapPrimitiveIds result.gaps) (counted result) current, _,
    updateGrounding_of_read hcurrent, ?_, ?_⟩
  · split
    · rename_i hnone
      rw [KnowledgeBase.writeMetrics, hnone]
      exact h
    · exact (hreal.step h (.batchUpdateMetrics _)).2
  · intro id
    rw [get?_metricUpdates, hread, countOf]
    by_cases hid : id ∈ (counted result).map Primitive.id
    · simp [hid, Function.comp_def]
    · simp [hid]

end MetricsManager

namespace VRE

variable {σ : Type}

theorem agrees_stampIdentity (vre : VRE σ) {result result' : GroundingResult}
    (h : result'.Agrees result) :
    (vre.stampIdentity result').Agrees (vre.stampIdentity result) := by
  refine ⟨?_, ?_, ?_, ?_, ?_⟩
  · simpa using h.grounded
  · simpa using h.resolved
  · simpa using h.gaps
  · simpa using h.trace
  · simp only [stampIdentity, h.agentId]
    split
    · rfl
    · exact h.agentId

/-- A check on a backend answers with the stamped verdict, and leaves the map with the check
counted. -/
theorem check_holds {ρ : Type} [NameFolding] [Repository ρ] (vre : VRE σ) {wrap : Tables → ρ}
    {policy : KnowledgeBase.MissingTarget} (hreal : Realizes wrap policy) {repo : ρ}
    {kb : KnowledgeBase} (h : Holds wrap repo kb) {draw : Draw} {concepts : List String}
    {minDepth : Option DepthLevel} {result : GroundingResult}
    (hground : GroundingEngine.ground draw repo concepts minDepth = .ok result) :
    ∃ updates repo', vre.check draw concepts minDepth repo =
        .ok (vre.stampIdentity result) repo' ∧
      Holds wrap repo' (kb.writeMetrics updates) ∧ ∀ id, updates.get? id =
        MetricsManager.countOf kb draw.now (vre.stampIdentity result) id := by
  obtain ⟨updates, repo', hcount, hholds, hupdates⟩ :=
    MetricsManager.updateGrounding_holds hreal h draw (vre.stampIdentity result)
  refine ⟨updates, repo', ?_, hholds, hupdates⟩
  have hread : Action.read (fun repo : ρ =>
      GroundingEngine.ground draw repo concepts minDepth) repo = .ok result repo :=
    Action.read_of_ok hground
  unfold check
  rw [Loops.bind_of_ok hread, Loops.bind_of_ok hcount]
  rfl

end VRE

/-! ## Requests -/

/-- What an integrator asks of a VRE instance and its repository. -/
inductive Request where
  | check (draw : Draw) (concepts : List String) (minDepth : Option DepthLevel)
  | learn (call : LearningEngine.LearnCall)
  | store (call : RepositoryCall)
  | placements

/-- What comes back: a value, or the class of the error raised. -/
inductive Response where
  | checked (result : Except ErrorClass GroundingResult)
  | learned (outcome : Except ErrorClass Unit)
  | stored (reply : Except ErrorClass Reply)
  | placed (orphans : Except ErrorClass (List OrphanedPlacement))

/-- Two verdicts may list things in different orders, other responses are equal. -/
inductive Response.Agrees : Response → Response → Prop where
  | checked {result result' : GroundingResult} : result'.Agrees result →
      Agrees (.checked (.ok result)) (.checked (.ok result'))
  | refl (response : Response) : Agrees response response

namespace Request

variable {σ ρ : Type} [NameFolding] [Repository ρ]

def step (vre : VRE σ) (repo : ρ) : Request → Response × ρ
  | check draw concepts minDepth =>
      match vre.check draw concepts minDepth repo with
      | .ok result repo' => (.checked (.ok result), repo')
      | .error exc repo' => (.checked (.error exc.cls), repo')
  | learn call => (.learned (call.step repo).1, (call.step repo).2)
  | store call => (.stored (call.step repo).1, (call.step repo).2)
  | placements =>
      match vre.validatePolicyPlacements repo with
      | .ok orphans => (.placed (.ok orphans), repo)
      | .error exc => (.placed (.error exc.cls), repo)

/-- Every relatum leads to the primitive itself or to a stored one. -/
def Attached (repo : ρ) (p : Primitive) : Prop :=
  ∀ r ∈ p.relata, r.targetId = p.id ∨ ∃ q, Repository.findById repo r.targetId = .ok (some q)

/-- A check draws new identifiers, and what a repository call saves has its targets stored. -/
def Admissible (repo : ρ) : Request → Prop
  | check draw _ _ => LearningEngine.UnusedIn draw repo
  | learn _ => True
  | store (.save p) => Attached repo p
  | store (.upsert p) => ∀ found, Repository.findByName repo p.name = .ok found →
      Attached repo (found.elim p fun q => { p with id := q.id })
  | store _ => True
  | placements => True

theorem Attached.targets {repo : ρ} {kb : KnowledgeBase} (hrep : Represents repo kb)
    {p : Primitive} (h : Attached repo p) :
    ∀ r ∈ p.relata, r.targetId = p.id ∨ (kb.known r.targetId).isSome := by
  intro r hr
  apply (h r hr).imp_right
  intro hstored
  obtain ⟨q, hq⟩ := hstored
  rw [hrep.byId] at hq
  rw [Except.ok.inj hq]
  rfl

/-- On what has all its targets the backends' policies do not differ. -/
theorem step_policy {repo : ρ} {kb : KnowledgeBase} (hrep : Represents repo kb)
    (policy : KnowledgeBase.MissingTarget) {call : RepositoryCall}
    (h : (store call).Admissible repo) : kb.step policy call = kb.step .refused call := by
  cases call with
  | save p => rw [KnowledgeBase.step, KnowledgeBase.step,
      KnowledgeBase.save_policy policy (Attached.targets hrep h)]
  | upsert p =>
      have hattached : Attached repo (kb.canonical p) := by
        have hfound := h _ (hrep.byName p.name)
        unfold KnowledgeBase.canonical
        cases hlookup : kb.lookup p.name with
        | none => rwa [hlookup] at hfound
        | some q => rwa [hlookup] at hfound
      rw [KnowledgeBase.step, KnowledgeBase.step,
        KnowledgeBase.save_policy policy (Attached.targets hrep hattached)]
  | delete id => rfl
  | clear => rfl
  | updateMetrics id metrics => rfl
  | batchUpdateMetrics updates => rfl

end Request

/-! ## Two repositories of one map -/

section

variable {σ ρ τ : Type} [NameFolding] [Repository ρ] [Repository τ]

/-- Placements are validated by reads alone. -/
theorem VRE.validatePolicyPlacements_congr (vre : VRE σ) {repo : ρ} {repo' : τ}
    {kb : KnowledgeBase} (h : Represents repo kb) (h' : Represents repo' kb) :
    vre.validatePolicyPlacements repo = vre.validatePolicyPlacements repo' := by
  have hgap : ∀ placement : PolicyPlacement σ,
      placementGap repo placement = placementGap repo' placement := by
    intro placement
    simp only [placementGap, h.byName, h'.byName]
  simp only [validatePolicyPlacements, hgap]

variable {wrap : Tables → ρ} {wrap' : Tables → τ} {policy policy' : KnowledgeBase.MissingTarget}
  (hreal : Realizes wrap policy) (hreal' : Realizes wrap' policy')
include hreal hreal'

/-- One request gets the same response from two repositories that hold one map, and leaves
them holding one map. -/
theorem Request.step_agrees (vre : VRE σ) {repo : ρ} {repo' : τ} {kb : KnowledgeBase}
    (h : Holds wrap repo kb) (h' : Holds wrap' repo' kb) {request : Request}
    (hadmissible : request.Admissible repo) :
    Response.Agrees (request.step vre repo).1 (request.step vre repo').1 ∧
      ∃ kb', Holds wrap (request.step vre repo).2 kb' ∧
        Holds wrap' (request.step vre repo').2 kb' := by
  have hrep := hreal.represents h
  have hrep' := hreal'.represents h'
  cases request with
  | check draw concepts minDepth =>
      have hspare := LearningEngine.UnusedIn.spare hadmissible hrep
      obtain ⟨result, result', hground, hground', hagrees⟩ :=
        GroundingEngine.ground_local hrep hrep' (.refl kb concepts) hspare hspare minDepth
      have hstamped := vre.agrees_stampIdentity hagrees
      obtain ⟨updates, after, hcheck, hholds, hupdates⟩ := vre.check_holds hreal h hground
      obtain ⟨updates', after', hcheck', hholds', hupdates'⟩ := vre.check_holds hreal' h' hground'
      have hsame : ∀ id, updates'.get? id = updates.get? id := by
        intro id
        rw [hupdates', hupdates, MetricsManager.countOf_congr kb draw.now hstamped]
      rw [kb.writeMetrics_congr hsame] at hholds'
      simp only [step, hcheck, hcheck']
      exact ⟨.checked hstamped, _, hholds, hholds'⟩
  | learn call =>
      have hlearn := LearningEngine.step_learn hreal h call
      have hlearn' := LearningEngine.step_learn hreal' h' call
      rw [KnowledgeBase.learn_policy] at hlearn hlearn'
      simp only [step, hlearn.1, hlearn'.1]
      exact ⟨.refl _, _, hlearn.2, hlearn'.2⟩
  | store call =>
      have hstep := hreal.step h call
      have hstep' := hreal'.step h' call
      rw [step_policy hrep _ hadmissible] at hstep hstep'
      simp only [step, hstep.1, hstep'.1]
      exact ⟨.refl _, _, hstep.2, hstep'.2⟩
  | placements =>
      have hsame := vre.validatePolicyPlacements_congr hrep hrep'
      simp only [step, hsame]
      cases vre.validatePolicyPlacements repo' with
      | ok orphans => exact ⟨.refl _, kb, h, h'⟩
      | error exc => exact ⟨.refl _, kb, h, h'⟩

end

/-- A SQLite and a Neo4j store that know the same. -/
def Twins [NameFolding] (db : SqliteRepository) (graph : Neo4jRepository) : Prop :=
  ∃ kb, Holds (fun t => (⟨t, none⟩ : SqliteRepository)) db kb ∧ Holds Tables.toGraph graph kb

/-- Twin stores answer a session alike, request by request, and read alike after each. -/
theorem Request.backends_serve_alike {σ : Type} [NameFolding] (vre : VRE σ) {db : SqliteRepository}
    {graph : Neo4jRepository} (htwins : Twins db graph) {requests : List Request}
    (hadmissible : Runs.EveryStep (Request.step vre)
      (fun (db : SqliteRepository) (request : Request) => request.Admissible db) db requests) :
    Runs.Lockstep (Request.step vre) (Request.step vre) Response.Agrees
      (fun db graph => ∃ kb, Represents db kb ∧ Represents graph kb) db graph requests := by
  apply Runs.lockstep_of_everyStep ?_ ?_ htwins hadmissible
  · intro db graph request htwins hadmissible
    obtain ⟨kb, hdb, hgraph⟩ := htwins
    exact Request.step_agrees Sqlite.realizes Neo4j.realizes vre hdb hgraph hadmissible
  · intro db graph htwins
    obtain ⟨kb, hdb, hgraph⟩ := htwins
    exact ⟨kb, Sqlite.realizes.represents hdb, Neo4j.realizes.represents hgraph⟩

/-- A check, a new primitive, a lesson about another one, and a look at the placements. -/
def checkAndLearn : List Request :=
  [.check ⟨fun i => i + 9, 0⟩ ["write", "paper"] none, .store (.save notes),
    .learn (LearningEngine.fillAndCreate true), .placements]

theorem Request.backends_serve_alike_writeFile : letI := asciiFolding
    Runs.Lockstep (Request.step (⟨.new, none⟩ : VRE Unit)) (Request.step (⟨.new, none⟩ : VRE Unit))
      Response.Agrees (fun db graph => ∃ kb, Represents db kb ∧ Represents graph kb)
      GroundingEngine.writeFile GroundingEngine.writeFile.tables.toGraph checkAndLearn := by
  let _ := asciiFolding
  obtain ⟨hwell, hholds⟩ := LearningEngine.holds_writeFile
  have hbelow : ∀ row ∈ GroundingEngine.writeFile.tables.primitives, row.id < 9 := by decide
  have hnotes : notes.relata = [] := rfl
  have hattached : ∀ db : SqliteRepository, Request.Attached db notes := by
    intro db r hr
    rw [hnotes] at hr
    cases hr
  exact Request.backends_serve_alike _ ⟨_, hholds, _, hwell, rfl, rfl⟩
    ⟨LearningEngine.unusedIn_above 0 hbelow, hattached _, trivial, trivial, trivial⟩

end Vre
