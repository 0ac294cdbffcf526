import Vre.Library.LineLog
import Vre.Model.Tracing
import Vre.Verification.Knowledge.PyPrimitive
import Vre.Verification.Grounding.Disclosure
import Vre.Verification.Interface.Sessions

/-! # What traces add to a session

A session of checks and of other code, with blocks under `suppress()` and blocks whose
exceptions are caught, ends as it does without traces. A trace file reads back as one line
for each check that wrote to it, exactly when no write stopped halfway.
-/

namespace Vre

/-! ## Entries -/

/-- The dumps succeed on every step, and on every gap whose primitives hold JSON values. -/
structure TraceFormat.DumpsStored (format : TraceFormat) : Prop where
  step : ∀ step, ∃ json, format.modelDumpStep step = .ok json
  gap : ∀ gap : KnowledgeGap, (∀ p ∈ gap.primitives, p.JsonValued) →
    ∃ json, format.modelDumpGap gap = .ok json

namespace GroundingEngine

theorem mem_of_get?_idToPrim {nodes : List Primitive} {id : UUID} {p : Primitive}
    (h : (idToPrim nodes).get? id = some p) : p ∈ nodes := by
  obtain ⟨p', hp', heq⟩ := List.mem_map.mp (OrderedDict.mem_of_get?_ofItems h)
  cases heq
  exact hp'

theorem mem_of_mem_reachabilityGaps {roots : List Primitive} {edges : List EpistemicStep}
    {g : ReachabilityGap} (h : .reachability g ∈ reachabilityGaps roots edges) :
    g.primitive ∈ roots := by
  unfold reachabilityGaps at h
  split at h
  · obtain ⟨r, hr, heq⟩ := List.mem_map.mp h
    cases heq
    exact List.mem_of_mem_filter hr
  · cases h

/-- What a gap carries was resolved, or is a placeholder. -/
theorem Inquiry.mem_allNodes_of_gap [NameFolding] {q : Inquiry}
    (h : q.subgraph.Coherent q.concepts) {gap : KnowledgeGap} (hgap : gap ∈ q.gaps)
    {p : Primitive} (hp : p ∈ gap.primitives) : p ∈ q.allNodes := by
  have hkind := Inquiry.mem_gaps.mp hgap
  cases gap with
  | existence g =>
      obtain ⟨n, hn, heq⟩ := List.mem_map.mp hkind
      cases heq
      cases List.mem_singleton.mp hp
      exact List.mem_of_mem_filter hn
  | depth g =>
      obtain ⟨e, -, hmap⟩ := List.mem_filterMap.mp hkind
      obtain ⟨n, hn, heq⟩ := Option.map_eq_some_iff.mp hmap
      cases heq
      cases List.mem_singleton.mp hp
      exact mem_of_get?_idToPrim hn
  | relational g =>
      obtain ⟨e, -, hbind⟩ := List.mem_filterMap.mp hkind
      obtain ⟨source, hsource, hmap⟩ := Option.bind_eq_some_iff.mp hbind
      obtain ⟨target, htarget, heq⟩ := Option.map_eq_some_iff.mp hmap
      cases heq
      rcases List.mem_cons.mp hp with rfl | hp
      · exact mem_of_get?_idToPrim hsource
      · cases List.mem_singleton.mp hp
        exact mem_of_get?_idToPrim htarget
  | reachability g =>
      have hroot : g.primitive ∈ q.roots :=
        List.mem_of_mem_filter (mem_of_mem_reachabilityGaps hkind)
      cases List.mem_singleton.mp hp
      rcases ((identifyRoots_spec h q.draw).1 _).mp hroot with htransient | hroot
      · exact List.mem_append_right _ htransient
      · exact List.mem_append_left _ (h.mem_roots.mp hroot).1

/-- The gaps of a check of stored tables are made of JSON values. -/
theorem jsonValued_gaps [NameFolding] {t : Tables} (h : t.Schema) (draw : Draw)
    (concepts : List String) (minDepth : Option DepthLevel) :
    ∀ gap ∈ (t.inquiry draw concepts minDepth).gaps, ∀ p ∈ gap.primitives, p.JsonValued := by
  intro gap hgap p hp
  rcases List.mem_append.mp (Inquiry.mem_allNodes_of_gap (h.coherent concepts) hgap hp) with
    hnode | htransient
  · obtain ⟨row, -, -, rfl⟩ := Tables.mem_closureNodes.mp hnode
    exact jsonValued_load row _
  · have hbare := (Inquiry.mem_transients (h.coherent concepts) htransient).2.2
    constructor <;> simp [hbare]

end GroundingEngine

/-! ## A check and its trace -/

/-- A check that has returned, and the surroundings of its write. -/
structure Answered where
  moment : TraceMoment
  concepts : List String
  result : GroundingResult

namespace Answered

variable (format : TraceFormat) (keys : List String) (a : Answered)

/-- The entry of a check under the policies with the keys. -/
def entry : TraceEntry where
  timestamp := a.moment.built
  operation := "check"
  concepts := a.concepts
  resolved := a.result.resolved
  grounded := a.result.grounded
  gaps := a.result.gaps.filterMap fun gap => (format.modelDumpGap gap).toOption
  steps := a.result.getPathwaySteps.filterMap fun step => (format.modelDumpStep step).toOption
  agentId := a.result.agentId.map toString
  activePolicies := keys

def path : String :=
  TraceWriter.pathForToday format a.moment.named

def line : String :=
  format.modelDumpJson (a.entry format keys) ++ "\n"

/-- What the write of the check has left. -/
def text : String :=
  match a.moment.outcome with
  | .written => a.line format keys
  | .failed kept => String.ofList ((a.line format keys).toList.take kept)

end Answered

/-- A manager after checks that wrote through it. -/
def TraceManager.record (format : TraceFormat) (keys : List String) (traces : TraceManager)
    (answers : List Answered) : TraceManager :=
  if traces.hasWriter ∧ ¬ traces.suppressed then
    { traces with dir := answers.foldl (fun dir a =>
        TraceWriter.appendTo dir (a.path format) (a.text format keys)) traces.dir }
  else
    traces

namespace TraceManager

variable (format : TraceFormat) (keys : List String) (traces : TraceManager)

@[simp] theorem record_nil : traces.record format keys [] = traces := by
  unfold record
  split <;> rfl

@[simp] theorem record_hasWriter (answers : List Answered) :
    (traces.record format keys answers).hasWriter = traces.hasWriter := by
  unfold record
  split <;> rfl

@[simp] theorem record_suppressed (answers : List Answered) :
    (traces.record format keys answers).suppressed = traces.suppressed := by
  unfold record
  split <;> rfl

theorem record_of_silent (h : ¬ (traces.hasWriter ∧ ¬ traces.suppressed))
    (answers : List Answered) : traces.record format keys answers = traces :=
  if_neg h

theorem record_of_writing (h : traces.hasWriter ∧ ¬ traces.suppressed)
    (answers : List Answered) : traces.record format keys answers =
      { traces with dir := answers.foldl (fun dir a =>
          TraceWriter.appendTo dir (a.path format) (a.text format keys)) traces.dir } :=
  if_pos h

theorem record_append (first second : List Answered) :
    traces.record format keys (first ++ second) =
      (traces.record format keys first).record format keys second := by
  by_cases hwrites : traces.hasWriter ∧ ¬ traces.suppressed
  · have hstill : (traces.record format keys first).hasWriter ∧
        ¬ (traces.record format keys first).suppressed := by simpa using hwrites
    rw [record_of_writing _ _ _ hstill, record_of_writing _ _ _ hwrites,
      record_of_writing _ _ _ hwrites, List.foldl_append]
  · rw [record_of_silent _ _ _ hwrites, record_of_silent _ _ _ hwrites,
      record_of_silent _ _ _ hwrites]

/-- The entry of a check whose gaps are made of JSON values is built. -/
theorem buildTraceEntry_eq {format : TraceFormat} (hdumps : format.DumpsStored) {a : Answered}
    (h : ∀ gap ∈ a.result.gaps, ∀ p ∈ gap.primitives, p.JsonValued) :
    buildTraceEntry format a.moment.built "check" a.concepts a.result keys =
      .ok (a.entry format keys) := by
  have hgaps := Loops.except_mapM_toOption fun gap hgap => hdumps.gap gap (h gap hgap)
  have hsteps := Loops.except_mapM_toOption (l := a.result.getPathwaySteps)
    fun step _ => hdumps.step step
  simp only [buildTraceEntry, hgaps, hsteps, Loops.ok_bind]
  rfl

/-- Such a check writes its line, or as much of it as the file system takes. -/
theorem writeCheck_eq (hdumps : format.DumpsStored) {a : Answered}
    (h : ∀ gap ∈ a.result.gaps, ∀ p ∈ gap.primitives, p.JsonValued) :
    writeCheck format a.moment a.concepts a.result keys traces =
      .ok () (traces.record format keys [a]) := by
  have hentry := buildTraceEntry_eq keys hdumps h
  have hget : (get : Action TraceManager TraceManager) traces = .ok traces traces := rfl
  unfold writeCheck
  rw [Loops.bind_of_ok hget]
  by_cases hwrites : traces.hasWriter ∧ ¬ traces.suppressed
  · rw [if_pos hwrites, Loops.bind_of_ok (Action.lift_of_ok hentry traces),
      record_of_writing _ _ _ hwrites]
    simp only [safeWrite, TraceWriter.write, List.foldl_cons, List.foldl_nil, Answered.text]
    cases a.moment.outcome <;> rfl
  · rw [if_neg hwrites, record_of_silent _ _ _ hwrites]
    rfl

end TraceManager

namespace VRE

variable {σ : Type} [NameFolding]

theorem ground_of_sound {db : SqliteRepository} (h : db.Sound) (draw : Draw)
    (concepts : List String) (minDepth : Option DepthLevel) :
    ∃ verdict, GroundingEngine.ground draw db concepts minDepth = .ok verdict ∧
      ∀ gap ∈ verdict.gaps, ∀ p ∈ gap.primitives, p.JsonValued := by
  by_cases hne : concepts = []
  · subst hne
    exact ⟨_, GroundingEngine.ground_nil draw db minDepth, by simp⟩
  · exact ⟨_, GroundingEngine.ground_eq h.2.toSchema draw hne minDepth,
      GroundingEngine.jsonValued_gaps h.2.toSchema draw concepts minDepth⟩

/-- A check of a SQLite store returns, and keeps the store sound. -/
theorem check_sound (vre : VRE σ) {db : SqliteRepository} (h : db.Sound) (draw : Draw)
    (concepts : List String) (minDepth : Option DepthLevel) :
    ∃ result db', vre.check draw concepts minDepth db = .ok result db' ∧ db'.Sound ∧
      ∀ gap ∈ result.gaps, ∀ p ∈ gap.primitives, p.JsonValued := by
  obtain ⟨verdict, hground, hgaps⟩ := ground_of_sound h draw concepts minDepth
  obtain ⟨updates, db', hcheck, hholds, -⟩ :=
    vre.check_holds Sqlite.realizes ⟨db.tables, h.2, h.eq_idle, rfl⟩ hground
  obtain ⟨t, hwell, rfl, -⟩ := hholds
  exact ⟨_, _, hcheck, ⟨rfl, hwell⟩, by simpa using hgaps⟩

/-- A check with its trace is the check, and what it has written. -/
theorem tracedCheck_eq {ρ : Type} [Repository ρ] (vre : VRE σ) {format : TraceFormat}
    (hdumps : format.DumpsStored) (moment : TraceMoment) {repo repo' : ρ} {draw : Draw}
    {concepts : List String} {minDepth : Option DepthLevel} {result : GroundingResult}
    (hcheck : vre.check draw concepts minDepth repo = .ok result repo')
    (hgaps : ∀ gap ∈ result.gaps, ∀ p ∈ gap.primitives, p.JsonValued) (traces : TraceManager) :
    vre.tracedCheck format draw concepts minDepth moment ⟨repo, traces⟩ =
      .ok result ⟨repo', traces.record format vre.policyRegistry.keys
        [⟨moment, concepts, result⟩]⟩ := by
  have hrepo : Traced.onRepo (vre.check draw concepts minDepth) ⟨repo, traces⟩ =
      .ok result ⟨repo', traces⟩ := by
    simp only [Traced.onRepo, hcheck]
  let a : Answered := ⟨moment, concepts, result⟩
  have hwrite := traces.writeCheck_eq format vre.policyRegistry.keys hdumps (a := a) hgaps
  have htraces : Traced.onTraces (TraceManager.writeCheck format moment concepts result
      vre.policyRegistry.keys) (⟨repo', traces⟩ : Traced ρ) =
        .ok () ⟨repo', traces.record format vre.policyRegistry.keys [a]⟩ := by
    simp only [Traced.onTraces]
    rw [hwrite]
  unfold tracedCheck
  rw [Loops.bind_of_ok hrepo, Loops.bind_of_ok htraces]
  rfl

/-- A dump that raises comes out of the check, when there is a writer for its entry. -/
theorem tracedCheck_of_undumped {ρ : Type} [Repository ρ] (vre : VRE σ) {format : TraceFormat}
    {moment : TraceMoment} {repo repo' : ρ} {draw : Draw} {concepts : List String}
    {minDepth : Option DepthLevel} {result : GroundingResult} {exc : PyException}
    (hcheck : vre.check draw concepts minDepth repo = .ok result repo')
    (hentry : buildTraceEntry format moment.built "check" concepts result
      vre.policyRegistry.keys = .error exc) {traces : TraceManager}
    (hwrites : traces.hasWriter ∧ ¬ traces.suppressed) :
    vre.tracedCheck format draw concepts minDepth moment ⟨repo, traces⟩ =
      .error exc ⟨repo', traces⟩ := by
  have hrepo : Traced.onRepo (vre.check draw concepts minDepth) ⟨repo, traces⟩ =
      .ok result ⟨repo', traces⟩ := by
    simp only [Traced.onRepo, hcheck]
  have hget : (get : Action TraceManager TraceManager) traces = .ok traces traces := rfl
  have hlift : (Action.lift (buildTraceEntry format moment.built "check" concepts result
      vre.policyRegistry.keys) : Action TraceManager TraceEntry) traces = .error exc traces := by
    rw [hentry]
    rfl
  have hwrite : TraceManager.writeCheck format moment concepts result vre.policyRegistry.keys
      traces = .error exc traces := by
    unfold TraceManager.writeCheck
    rw [Loops.bind_of_ok hget, if_pos hwrites, Loops.bind_of_error hlift]
  have htraces : Traced.onTraces (TraceManager.writeCheck format moment concepts result
      vre.policyRegistry.keys) (⟨repo', traces⟩ : Traced ρ) = .error exc ⟨repo', traces⟩ := by
    simp only [Traced.onTraces]
    rw [hwrite]
  unfold tracedCheck
  rw [Loops.bind_of_ok hrepo, Loops.bind_of_error htraces]

end VRE

/-! ## Sessions -/

/-- A program that checks and does other things to the repository, in blocks. -/
inductive Session where
  | finished
  | act (code : Action SqliteRepository Unit) (rest : Session)
  | check (draw : Draw) (concepts : List String) (minDepth : Option DepthLevel)
      (moment : TraceMoment) (rest : Session)
  | suppress (body rest : Session)
  | attempt (body rest : Session)

namespace Session

variable {σ : Type} [NameFolding]

/-- A block whose exceptions are caught. -/
def caught {τ : Type} (block : Action τ Unit) : Action τ Unit := fun s =>
  .ok () (Action.after (block s))

/-- The session with its traces. -/
def run (vre : VRE σ) (format : TraceFormat) : Session → Action (Traced SqliteRepository) Unit
  | finished => pure ()
  | act code rest => do
      Traced.onRepo code
      rest.run vre format
  | check draw concepts minDepth moment rest => do
      let _ ← vre.tracedCheck format draw concepts minDepth moment
      rest.run vre format
  | suppress body rest => do
      Traced.suppress (body.run vre format)
      rest.run vre format
  | attempt body rest => do
      caught (body.run vre format)
      rest.run vre format

/-- The session without traces. -/
def bare (vre : VRE σ) : Session → Action SqliteRepository Unit
  | finished => pure ()
  | act code rest => do
      code
      rest.bare vre
  | check draw concepts minDepth _ rest => do
      let _ ← vre.check draw concepts minDepth
      rest.bare vre
  | suppress body rest => do
      body.bare vre
      rest.bare vre
  | attempt body rest => do
      caught (body.bare vre)
      rest.bare vre

/-- The checks that return outside the blocks under `suppress()`, in order. -/
def answered (vre : VRE σ) : Session → SqliteRepository → List Answered
  | finished, _ => []
  | act code rest, db =>
      match code db with
      | .ok _ db' => rest.answered vre db'
      | .error _ _ => []
  | check draw concepts minDepth moment rest, db =>
      match vre.check draw concepts minDepth db with
      | .ok result db' => ⟨moment, concepts, result⟩ :: rest.answered vre db'
      | .error _ _ => []
  | suppress body rest, db =>
      match body.bare vre db with
      | .ok _ db' => rest.answered vre db'
      | .error _ _ => []
  | attempt body rest, db =>
      body.answered vre db ++ rest.answered vre (Action.after (body.bare vre db))

/-- The other code keeps the store sound. -/
def Keeps : Session → Prop
  | finished => True
  | act code rest => (∀ db : SqliteRepository, db.Sound → (Action.after (code db)).Sound) ∧
      rest.Keeps
  | check _ _ _ _ rest => rest.Keeps
  | suppress body rest => body.Keeps ∧ rest.Keeps
  | attempt body rest => body.Keeps ∧ rest.Keeps

/-- The end of a session, with the traces it leaves. -/
def withTraces (traces : TraceManager) : EStateM.Result PyException SqliteRepository Unit →
    EStateM.Result PyException (Traced SqliteRepository) Unit
  | .ok u db => .ok u ⟨db, traces⟩
  | .error e db => .error e ⟨db, traces⟩

theorem sound_bare (vre : VRE σ) {s : Session} (hkeeps : s.Keeps) {db : SqliteRepository}
    (h : db.Sound) : (Action.after (s.bare vre db)).Sound := by
  induction s generalizing db with
  | finished => exact h
  | act code rest ih =>
      have hnext := hkeeps.1 db h
      rw [bare]
      cases hcode : code db with
      | ok u db' =>
          rw [hcode] at hnext
          rw [Loops.bind_of_ok hcode]
          exact ih hkeeps.2 hnext
      | error e db' =>
          rw [hcode] at hnext
          rw [Loops.bind_of_error hcode]
          exact hnext
  | check draw concepts minDepth moment rest ih =>
      obtain ⟨result, db', hcheck, hnext, -⟩ := vre.check_sound h draw concepts minDepth
      rw [bare, Loops.bind_of_ok hcheck]
      exact ih hkeeps hnext
  | suppress body rest ihBody ih =>
      have hnext := ihBody hkeeps.1 h
      rw [bare]
      cases hbody : body.bare vre db with
      | ok u db' =>
          rw [hbody] at hnext
          rw [Loops.bind_of_ok hbody]
          exact ih hkeeps.2 hnext
      | error e db' =>
          rw [hbody] at hnext
          rw [Loops.bind_of_error hbody]
          exact hnext
  | attempt body rest ihBody ih => exact ih hkeeps.2 (ihBody hkeeps.1 h)

omit [NameFolding] in
theorem after_withTraces (traces : TraceManager)
    (r : EStateM.Result PyException SqliteRepository Unit) :
    Action.after (withTraces traces r) = ⟨Action.after r, traces⟩ := by
  cases r <;> rfl

/-- A session with traces is the session without them, and each check outside the blocks under
`suppress()` has written. -/
theorem run_eq (vre : VRE σ) {format : TraceFormat} (hdumps : format.DumpsStored) {s : Session}
    (hkeeps : s.Keeps) {db : SqliteRepository} (h : db.Sound) (traces : TraceManager) :
    s.run vre format ⟨db, traces⟩ =
      withTraces (traces.record format vre.policyRegistry.keys (s.answered vre db))
        (s.bare vre db) := by
  induction s generalizing db traces with
  | finished =>
      rw [answered, TraceManager.record_nil]
      rfl
  | act code rest ih =>
      have hnext := hkeeps.1 db h
      rw [run, bare, answered]
      cases hcode : code db with
      | ok u db' =>
          have hrepo : Traced.onRepo code ⟨db, traces⟩ = .ok u ⟨db', traces⟩ := by
            simp only [Traced.onRepo, hcode]
          rw [hcode] at hnext
          rw [Loops.bind_of_ok hrepo, Loops.bind_of_ok hcode]
          exact ih hkeeps.2 hnext traces
      | error e db' =>
          have hrepo : Traced.onRepo code ⟨db, traces⟩ = .error e ⟨db', traces⟩ := by
            simp only [Traced.onRepo, hcode]
          rw [Loops.bind_of_error hrepo, Loops.bind_of_error hcode, TraceManager.record_nil]
          rfl
  | check draw concepts minDepth moment rest ih =>
      obtain ⟨result, db', hcheck, hnext, hgaps⟩ := vre.check_sound h draw concepts minDepth
      have htraced := vre.tracedCheck_eq hdumps moment hcheck hgaps traces
      rw [run, bare, answered, Loops.bind_of_ok htraced, Loops.bind_of_ok hcheck, hcheck,
        ih hkeeps hnext, ← TraceManager.record_append]
      rfl
  | suppress body rest ihBody ih =>
      have hnext := sound_bare vre hkeeps.1 h
      have hbody := ihBody hkeeps.1 h { traces with suppressed := true }
      rw [TraceManager.record_of_silent _ _ _ (by simp)] at hbody
      rw [run, bare, answered]
      cases hbare : body.bare vre db with
      | ok u db' =>
          have hquiet : Traced.suppress (body.run vre format) ⟨db, traces⟩ =
              .ok u ⟨db', traces⟩ := by
            simp only [Traced.suppress, hbody, hbare, withTraces]
          rw [hbare] at hnext
          rw [Loops.bind_of_ok hquiet, Loops.bind_of_ok hbare]
          exact ih hkeeps.2 hnext traces
      | error e db' =>
          have hquiet : Traced.suppress (body.run vre format) ⟨db, traces⟩ =
              .error e ⟨db', traces⟩ := by
            simp only [Traced.suppress, hbody, hbare, withTraces]
          rw [Loops.bind_of_error hquiet, Loops.bind_of_error hbare, TraceManager.record_nil]
          rfl
  | attempt body rest ihBody ih =>
      have hnext := sound_bare vre hkeeps.1 h
      have hcaught : caught (body.run vre format) ⟨db, traces⟩ =
          .ok () ⟨Action.after (body.bare vre db),
            traces.record format vre.policyRegistry.keys (body.answered vre db)⟩ := by
        rw [caught, ihBody hkeeps.1 h, after_withTraces]
      have hbare : caught (body.bare vre) db = .ok () (Action.after (body.bare vre db)) := rfl
      rw [run, bare, answered, Loops.bind_of_ok hcaught, Loops.bind_of_ok hbare,
        ih hkeeps.2 hnext, TraceManager.record_append]

/-- Traces stay out of the way: a session raises what it raises without them, leaves the
repository that it leaves without them, and puts the flag back; and without a writer, or under
`suppress()`, it leaves the files alone. -/
theorem traces_stay_out (vre : VRE σ) {format : TraceFormat} (hdumps : format.DumpsStored)
    {s : Session} (hkeeps : s.Keeps) {db : SqliteRepository} (h : db.Sound)
    (traces : TraceManager) :
    ∃ traces', s.run vre format ⟨db, traces⟩ = withTraces traces' (s.bare vre db) ∧
      traces'.hasWriter = traces.hasWriter ∧ traces'.suppressed = traces.suppressed ∧
      (traces.hasWriter = false ∨ traces.suppressed = true → traces' = traces) := by
  refine ⟨_, run_eq vre hdumps hkeeps h traces, by simp, by simp, ?_⟩
  intro hsilent
  apply TraceManager.record_of_silent
  rcases hsilent with hsilent | hsilent <;> simp [hsilent]

end Session

/-- A check of `File`, under `suppress()`, then code that raises, and two more checks; the
write of the first fails. -/
def watched [NameFolding] : Session :=
  let draw : Draw := ⟨fun i => i + 5, 0⟩
  .attempt
    (.suppress (.check draw ["file"] none ⟨0, 0, .written⟩ .finished)
      (.act (Action.lift (raise .valueError "not a path")) .finished))
    (.check draw ["file"] none ⟨0, 0, .failed 0⟩
      (.check draw ["file"] none ⟨0, 0, .written⟩ .finished))

/-- The text of a grounded check of `File`. -/
def fileFormat : TraceFormat where
  modelDumpGap _ := .ok "\x7b\x7d"
  modelDumpStep _ := .ok "\x7b\x7d"
  modelDumpJson _ := "\x7b\"timestamp\":\"2026-01-01T00:00:00Z\",\"operation\":\"check\"," ++
    "\"concepts\":[\"file\"],\"resolved\":[\"File\"],\"grounded\":true,\"gaps\":[]," ++
    "\"steps\":[],\"agent_id\":null,\"active_policies\":[]\x7d"
  day _ := "2026-01-01"
  oneLine _ := by decide +kernel

theorem dumpsStored_fileFormat : fileFormat.DumpsStored :=
  ⟨fun _ => ⟨_, rfl⟩, fun _ _ => ⟨_, rfl⟩⟩

theorem keeps_watched [NameFolding] : watched.Keeps :=
  ⟨⟨trivial, fun _ h => h, trivial⟩, trivial⟩

theorem Session.traces_stay_out_watched : letI := asciiFolding
    ∃ traces', watched.run (⟨.new, none⟩ : VRE Unit) fileFormat
        ⟨GroundingEngine.writeFile, ⟨true, false, .empty⟩⟩ =
      withTraces traces' (watched.bare (⟨.new, none⟩ : VRE Unit) GroundingEngine.writeFile) ∧
      traces'.suppressed = false := by
  let _ := asciiFolding
  have hsound := GroundingEngine.sound_writeFile
  obtain ⟨traces', hrun, -, hopen, -⟩ := traces_stay_out (⟨.new, none⟩ : VRE Unit)
    dumpsStored_fileFormat keeps_watched hsound ⟨true, false, .empty⟩
  exact ⟨traces', hrun, hopen⟩

/-! ## Reading the files back -/

/-- The text of a file. -/
def TraceManager.contents (traces : TraceManager) (path : String) : String :=
  (traces.dir.get? path).getD ""

namespace Answered

variable (format : TraceFormat) (keys : List String) (a : Answered)

/-- The write stopped halfway. -/
def Torn : Prop :=
  ∃ kept, a.moment.outcome = .failed kept ∧ 0 < kept ∧ kept < (a.line format keys).length

theorem toList_line : (a.line format keys).toList =
    (format.modelDumpJson (a.entry format keys)).toList ++ ['\n'] := by
  simp [line]

theorem torn_iff : LineLog.Torn '\n' (format.modelDumpJson (a.entry format keys)).toList
    (a.text format keys).toList ↔ a.Torn format keys := by
  rw [LineLog.Torn, LineLog.Whole, ← toList_line, text, Torn]
  cases houtcome : a.moment.outcome with
  | written => simp
  | failed kept =>
      have hlength : (a.line format keys).length = (a.line format keys).toList.length :=
        String.length_toList.symm
      have hpos : 0 < (a.line format keys).toList.length := by simp [toList_line]
      rw [hlength]
      simp only [String.toList_ofList, WriteOutcome.failed.injEq, exists_eq_left']
      constructor
      · intro h
        obtain ⟨hsome, hpart⟩ := h
        constructor
        · by_contra hzero
          apply hsome
          simp [Nat.eq_zero_of_not_pos hzero]
        · by_contra hlong
          exact hpart (List.take_of_length_le (not_lt.mp hlong))
      · intro h
        obtain ⟨hsome, hpart⟩ := h
        constructor
        · apply List.ne_nil_of_length_pos
          rw [List.length_take]
          omega
        · intro heq
          have hlengths := congrArg List.length heq
          rw [List.length_take] at hlengths
          omega

end Answered

namespace TraceManager

variable (format : TraceFormat) (keys : List String)

theorem contents_appends (answers : List Answered) (dir : TraceDir) (path : String) :
    (((answers.foldl (fun dir a => TraceWriter.appendTo dir (a.path format)
        (a.text format keys)) dir).get? path).getD "").toList =
      ((dir.get? path).getD "").toList ++ (answers.filter fun a => a.path format = path).flatMap
        fun a => (a.text format keys).toList := by
  induction answers generalizing dir with
  | nil => simp
  | cons a rest ih =>
      rw [List.foldl_cons, ih, TraceWriter.appendTo, OrderedDict.get?_set]
      by_cases hpath : a.path format = path
      · simp [hpath]
      · have hne : ¬ path = a.path format := fun heq => hpath heq.symm
        simp [hpath, hne]

end TraceManager

/-- A trace file of complete lines, after a session, reads back as those lines and the entries
of the checks whose writes to it are all there, exactly when no write to it stopped halfway. -/
theorem Session.trace_reads_back_iff [NameFolding] {σ : Type} (vre : VRE σ)
    {format : TraceFormat} (hdumps : format.DumpsStored) {s : Session} (hkeeps : s.Keeps)
    {db : SqliteRepository} (h : db.Sound) (traces : TraceManager)
    (hwriter : traces.hasWriter = true) (hopen : traces.suppressed = false) (path : String)
    (hbefore : (LineLog.lines '\n' (traces.contents path).toList).2 = []) :
    let keys := vre.policyRegistry.keys
    let wrote := (s.answered vre db).filter fun a => a.path format = path
    LineLog.lines '\n'
        ((Action.after (s.run vre format ⟨db, traces⟩)).traces.contents path).toList =
      ((LineLog.lines '\n' (traces.contents path).toList).1 ++
        (wrote.filter fun a => a.text format keys = a.line format keys).map fun a =>
          (format.modelDumpJson (a.entry format keys)).toList, []) ↔
      ∀ a ∈ wrote, ¬ a.Torn format keys := by
  intro keys wrote
  have hwrites : traces.hasWriter ∧ ¬ traces.suppressed := by simp [hwriter, hopen]
  have hafter : ((Action.after (s.run vre format ⟨db, traces⟩)).traces.contents path).toList =
      (traces.contents path).toList ++ wrote.flatMap fun a => (a.text format keys).toList := by
    rw [run_eq vre hdumps hkeeps h, after_withTraces]
    simp only [TraceManager.record_of_writing _ _ _ hwrites]
    exact TraceManager.contents_appends format keys _ _ path
  let appends := wrote.map fun a =>
    ((format.modelDumpJson (a.entry format keys)).toList, (a.text format keys).toList)
  have hline : ∀ e ∈ appends, '\n' ∉ e.1 := by
    intro e he
    obtain ⟨a, -, rfl⟩ := List.mem_map.mp he
    exact format.oneLine _
  have hiff := LineLog.lines_append_iff '\n' hbefore hline
  have hwhole : LineLog.wholeLines '\n' appends =
      (wrote.filter fun a => a.text format keys = a.line format keys).map fun a =>
        (format.modelDumpJson (a.entry format keys)).toList := by
    simp only [LineLog.wholeLines, appends, List.filter_map, List.map_map]
    congr 1
    apply List.filter_congr
    intro a _
    simp only [Function.comp_apply, LineLog.Whole, ← Answered.toList_line, String.toList_inj]
  rw [hafter]
  simpa [appends, hwhole, List.flatMap_map, Answered.torn_iff] using hiff

theorem Session.trace_reads_back_iff_watched : letI := asciiFolding
    LineLog.lines '\n' ((Action.after (watched.run (⟨.new, none⟩ : VRE Unit) fileFormat
        ⟨GroundingEngine.writeFile, ⟨true, false, .empty⟩⟩)).traces.contents
          "2026-01-01.jsonl").toList =
      ([(fileFormat.modelDumpJson ⟨0, "check", ["file"], ["File"], true, [], [], none, []⟩).toList],
        []) := by
  let _ := asciiFolding
  have hsound := GroundingEngine.sound_writeFile
  have houtcomes : ∀ a ∈ (watched.answered (⟨.new, none⟩ : VRE Unit)
      GroundingEngine.writeFile), a.moment.outcome = .failed 0 ∨ a.moment.outcome = .written := by
    decide +kernel
  have hread := (trace_reads_back_iff (⟨.new, none⟩ : VRE Unit) dumpsStored_fileFormat
    keeps_watched hsound ⟨true, false, .empty⟩ rfl rfl "2026-01-01.jsonl" rfl).mpr ?_
  · refine hread.trans ?_
    decide +kernel
  · intro a ha htorn
    obtain ⟨kept, hfailed, hpos, -⟩ := htorn
    rcases houtcomes a (List.mem_of_mem_filter ha) with hnone | hwritten
    · cases hnone.symm.trans hfailed
      exact Nat.lt_irrefl 0 hpos
    · cases hwritten.symm.trans hfailed

end Vre
