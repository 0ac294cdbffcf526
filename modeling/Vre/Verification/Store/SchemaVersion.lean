import Vre.Library.Runs
import Vre.Model.SchemaVersion
import Vre.Verification.Store.Refinement

/-! # Builds of different versions on one store

Clients of any builds open one store, statement by statement, and work on it once they are
let in. Neo4j merges and returns the marker in one transaction: only builds of the version it
shows are ever let in. SQLite reads the version first and stamps an unstamped file later.
That lets in builds of two versions exactly when one stamps over the other.
-/

namespace Vre

theorem reconcileSchemaVersion_eq_ok {disk current : ℤ} :
    reconcileSchemaVersion disk current = .ok () ↔ disk = current := by
  unfold reconcileSchemaVersion
  by_cases hgt : disk > current
  · simp [hgt, hgt.ne']
  · by_cases hlt : disk < current
    · simp [hgt, hlt, hlt.ne]
    · have heq : disk = current := le_antisymm (not_lt.mp hgt) (not_lt.mp hlt)
      simp [heq]

/-! ## Clients -/

/-- How far a client has come with its constructor. -/
inductive Phase where
  | unopened
  | read (disk : ℤ)
  | opened
  | refused
  deriving DecidableEq

/-- Where a constructor ends. -/
def Phase.ofResult : Except SchemaVersionError Unit → Phase
  | .ok _ => opened
  | .error _ => refused

theorem Phase.ofResult_eq_opened {result : Except SchemaVersionError Unit} :
    ofResult result = .opened ↔ result = .ok () := by
  cases result <;> simp [ofResult]

theorem Phase.ofResult_eq_refused {result : Except SchemaVersionError Unit} :
    ofResult result = .refused ↔ result ≠ .ok () := by
  cases result <;> simp [ofResult]

theorem Phase.ofResult_ne_read {result : Except SchemaVersionError Unit} {disk : ℤ} :
    ofResult result ≠ .read disk := by
  cases result <;> simp [ofResult]

/-- A client's next statement: of its constructor, or a call of the repository. -/
inductive Access (ι : Type) where
  | connect (client : ι)
  | call (client : ι) (call : RepositoryCall)

/-- A store, and the clients that share it. -/
structure Deployment (ι σ : Type) where
  store : σ
  phase : ι → Phase

/-- No client has begun. -/
def Deployment.start (ι : Type) {σ : Type} (store : σ) : Deployment ι σ :=
  ⟨store, fun _ => .unopened⟩

variable {ι : Type} [DecidableEq ι]

theorem update_phase_eq {phase : ι → Phase} {i j : ι} {p q : Phase} :
    Function.update phase i p j = q ↔ j = i ∧ p = q ∨ j ≠ i ∧ phase j = q := by
  by_cases hji : j = i
  · subst hji
    simp
  · simp [hji]

/-- Who is at work stays so when another client moves on. -/
theorem update_phase_opened {phase : ι → Phase} {i j : ι} {p : Phase} (hi : phase i ≠ .opened)
    (hj : phase j = .opened) : Function.update phase i p j = .opened := by
  apply update_phase_eq.mpr
  apply Or.inr
  refine ⟨?_, hj⟩
  intro heq
  exact hi (heq ▸ hj)

/-! ## SQLite -/

namespace SqliteFile

/-- The version of the file tells the clients that were let in from those that were refused. -/
structure Marked (version : ι → SchemaVersion) (d : Deployment ι SqliteFile) : Prop where
  opened : ∀ i, d.phase i = .opened → d.store.userVersion = version i
  refused : ∀ i, d.phase i = .refused → d.store.userVersion ≠ version i

/-- The statement stamps no file that another build has stamped. -/
def StampsUnstamped (version : ι → SchemaVersion) (d : Deployment ι SqliteFile) :
    Access ι → Prop
  | .connect i => d.phase i = .read 0 →
      d.store.userVersion = 0 ∨ d.store.userVersion = version i
  | .call _ _ => True

/-- What was read of a stamped file still holds, and a client that read an unstamped file which
has been stamped since finds the stamper at work. -/
structure Invariant (version : ι → SchemaVersion) (d : Deployment ι SqliteFile) : Prop extends
    Marked version d where
  turned_away : ∀ i, d.phase i = .refused → d.store.userVersion ≠ 0
  kept : ∀ i disk, d.phase i = .read disk → disk ≠ 0 → d.store.userVersion = disk
  stamped : ∀ i, d.phase i = .read 0 → d.store.userVersion ≠ 0 →
    ∃ j, d.phase j = .opened ∧ d.store.userVersion = version j

theorem Invariant.read {version : ι → SchemaVersion} {d : Deployment ι SqliteFile}
    (h : Invariant version d) {i : ι} (hphase : d.phase i = .unopened) :
    Invariant version ⟨d.store, Function.update d.phase i (.read d.store.userVersion)⟩ := by
  refine ⟨⟨?_, ?_⟩, ?_, ?_, ?_⟩
  · intro j hj
    rcases update_phase_eq.mp hj with ⟨-, hj⟩ | ⟨-, hj⟩
    · cases hj
    · exact h.opened j hj
  · intro j hj
    rcases update_phase_eq.mp hj with ⟨-, hj⟩ | ⟨-, hj⟩
    · cases hj
    · exact h.refused j hj
  · intro j hj
    rcases update_phase_eq.mp hj with ⟨-, hj⟩ | ⟨-, hj⟩
    · cases hj
    · exact h.turned_away j hj
  · intro j disk hj hdisk
    rcases update_phase_eq.mp hj with ⟨-, hj⟩ | ⟨-, hj⟩
    · cases hj
      rfl
    · exact h.kept j disk hj hdisk
  · intro j hj hstamped
    rcases update_phase_eq.mp hj with ⟨-, hj⟩ | ⟨-, hj⟩
    · exact absurd (Phase.read.inj hj) hstamped
    · obtain ⟨k, hk, hversion⟩ := h.stamped j hj hstamped
      exact ⟨k, update_phase_opened (by simp [hphase]) hk, hversion⟩

theorem Invariant.stamp {version : ι → SchemaVersion} {d : Deployment ι SqliteFile}
    (h : Invariant version d) {i : ι} (hphase : d.phase i = .read 0)
    (hstamp : d.store.userVersion = 0 ∨ d.store.userVersion = version i) :
    Invariant version ⟨{ d.store with userVersion := version i },
      Function.update d.phase i .opened⟩ := by
  have hpos : ∀ j, (version j : ℤ) ≠ 0 := fun j => (version j).2.1.ne'
  -- A client that is further on has seen a version, which can only be this build's.
  have hstays : d.store.userVersion ≠ 0 → d.store.userVersion = version i :=
    fun hne => hstamp.resolve_left hne
  refine ⟨⟨?_, ?_⟩, ?_, ?_, ?_⟩
  · intro j hj
    rcases update_phase_eq.mp hj with ⟨rfl, -⟩ | ⟨-, hj⟩
    · rfl
    · have hopened := h.opened j hj
      rw [← hopened, hstays (hopened ▸ hpos j)]
  · intro j hj
    rcases update_phase_eq.mp hj with ⟨-, hj⟩ | ⟨-, hj⟩
    · cases hj
    · have hrefused := h.refused j hj
      rwa [hstays (h.turned_away j hj)] at hrefused
  · intro j _
    exact hpos i
  · intro j disk hj hdisk
    rcases update_phase_eq.mp hj with ⟨-, hj⟩ | ⟨-, hj⟩
    · cases hj
    · have hkept := h.kept j disk hj hdisk
      rw [← hkept, hstays (hkept ▸ hdisk)]
  · intro j _ _
    exact ⟨i, Function.update_self _ _ _, rfl⟩

theorem Invariant.compare {version : ι → SchemaVersion} {d : Deployment ι SqliteFile}
    (h : Invariant version d) {i : ι} {disk : ℤ} (hphase : d.phase i = .read disk)
    (hdisk : disk ≠ 0) : Invariant version ⟨d.store,
      Function.update d.phase i (.ofResult (reconcileSchemaVersion disk (version i)))⟩ := by
  have hkept := h.kept i disk hphase hdisk
  refine ⟨⟨?_, ?_⟩, ?_, ?_, ?_⟩
  · intro j hj
    rcases update_phase_eq.mp hj with ⟨rfl, hj⟩ | ⟨-, hj⟩
    · rw [Phase.ofResult_eq_opened, reconcileSchemaVersion_eq_ok] at hj
      exact hkept.trans hj
    · exact h.opened j hj
  · intro j hj
    rcases update_phase_eq.mp hj with ⟨rfl, hj⟩ | ⟨-, hj⟩
    · rw [Phase.ofResult_eq_refused, ne_eq, reconcileSchemaVersion_eq_ok] at hj
      exact hkept ▸ hj
    · exact h.refused j hj
  · intro j hj
    rcases update_phase_eq.mp hj with ⟨-, -⟩ | ⟨-, hj⟩
    · exact hkept ▸ hdisk
    · exact h.turned_away j hj
  · intro j disk' hj hdisk'
    rcases update_phase_eq.mp hj with ⟨-, hj⟩ | ⟨-, hj⟩
    · exact absurd hj Phase.ofResult_ne_read
    · exact h.kept j disk' hj hdisk'
  · intro j hj hstamped
    rcases update_phase_eq.mp hj with ⟨-, hj⟩ | ⟨-, hj⟩
    · exact absurd hj Phase.ofResult_ne_read
    · obtain ⟨k, hk, hversion⟩ := h.stamped j hj hstamped
      exact ⟨k, update_phase_opened (by simp [hphase]) hk, hversion⟩

variable [NameFolding]

/-- A client's next statement. The constructor reads the version in one, and stamps the file
or compares the version in the next. -/
def access (version : ι → SchemaVersion) (d : Deployment ι SqliteFile) :
    Access ι → Option (Except ErrorClass Reply) × Deployment ι SqliteFile
  | .connect i =>
      match d.phase i with
      | .unopened => (none, ⟨d.store, Function.update d.phase i (.read d.store.userVersion)⟩)
      | .read disk =>
          let outcome := d.store.initFrom (version i) disk
          (none, ⟨outcome.2, Function.update d.phase i (.ofResult outcome.1)⟩)
      | _ => (none, d)
  | .call i call =>
      if d.phase i = .opened then
        let outcome := call.step d.store.repository
        (some outcome.1, ⟨{ d.store with repository := outcome.2 }, d.phase⟩)
      else
        (none, d)

/-- A constructor whose two statements nothing comes between is `init`. -/
theorem access_connect_twice (version : ι → SchemaVersion) {d : Deployment ι SqliteFile} {i : ι}
    (h : d.phase i = .unopened) :
    (access version (access version d (.connect i)).2 (.connect i)).2 =
      ⟨(d.store.init (version i)).2,
        Function.update d.phase i (.ofResult (d.store.init (version i)).1)⟩ := by
  simp [access, h, init]

/-- What one statement does to the version and the phases. -/
inductive Moves (version : ι → SchemaVersion) (d : Deployment ι SqliteFile) : Access ι →
    Deployment ι SqliteFile → Prop where
  | idle {a : Access ι} : Moves version d a d
  | read {i : ι} : d.phase i = .unopened → Moves version d (.connect i)
      ⟨d.store, Function.update d.phase i (.read d.store.userVersion)⟩
  | stamp {i : ι} : d.phase i = .read 0 → Moves version d (.connect i)
      ⟨{ d.store with userVersion := version i }, Function.update d.phase i .opened⟩
  | compare {i : ι} {disk : ℤ} : d.phase i = .read disk → disk ≠ 0 → Moves version d (.connect i)
      ⟨d.store, Function.update d.phase i (.ofResult (reconcileSchemaVersion disk (version i)))⟩
  | call {i : ι} {call : RepositoryCall} (repository : SqliteRepository) :
      Moves version d (.call i call) ⟨{ d.store with repository := repository }, d.phase⟩

theorem moves_access (version : ι → SchemaVersion) (d : Deployment ι SqliteFile) (a : Access ι) :
    Moves version d a (access version d a).2 := by
  cases a with
  | connect i =>
      simp only [access]
      split
      · rename_i hphase
        exact .read hphase
      · rename_i disk hphase
        by_cases hdisk : disk = 0
        · subst hdisk
          exact .stamp hphase
        · simp only [initFrom, hdisk, if_false]
          exact .compare hphase hdisk
      · exact .idle
  | call i call =>
      simp only [access]
      split
      · exact .call _
      · exact .idle

theorem invariant_access {version : ι → SchemaVersion} {d : Deployment ι SqliteFile}
    (h : Invariant version d) {a : Access ι} (hstamp : StampsUnstamped version d a) :
    Invariant version (access version d a).2 := by
  have hmoves := moves_access version d a
  generalize (access version d a).2 = d' at hmoves
  cases hmoves with
  | idle => exact h
  | read hphase => exact h.read hphase
  | stamp hphase => exact h.stamp hphase (hstamp hphase)
  | compare hphase hdisk => exact h.compare hphase hdisk
  | call repository => exact ⟨⟨h.opened, h.refused⟩, h.turned_away, h.kept, h.stamped⟩

/-- A stamp over another build's leaves that build at work on a file of the new version. -/
theorem not_marked_access {version : ι → SchemaVersion} {d : Deployment ι SqliteFile}
    (h : Invariant version d) {a : Access ι} (hstamp : ¬ StampsUnstamped version d a) :
    ¬ Marked version (access version d a).2 := by
  cases a with
  | call i call => exact absurd trivial hstamp
  | connect i =>
      have hcases : d.phase i = .read 0 ∧ d.store.userVersion ≠ 0 ∧
          d.store.userVersion ≠ version i := by
        simpa [StampsUnstamped] using hstamp
      obtain ⟨hphase, hzero, hother⟩ := hcases
      obtain ⟨j, hj, hversion⟩ := h.stamped i hphase hzero
      have hnext : (access version d (.connect i)).2 =
          ⟨{ d.store with userVersion := version i }, Function.update d.phase i .opened⟩ := by
        simp [access, hphase, initFrom, Phase.ofResult]
      intro hmarked
      rw [hnext] at hmarked
      have hstamped : (version i : ℤ) = version j :=
        hmarked.opened j (update_phase_opened (by simp [hphase]) hj)
      exact hother (hversion.trans hstamped.symm)

/-- However builds of different versions open a database file and work on it, those at work are
at every moment the ones whose version is the file's, and those turned away the others, exactly
when no build stamps over another version. -/
theorem marked_run_iff (version : ι → SchemaVersion) (file : SqliteFile)
    (accesses : List (Access ι)) :
    Runs.EveryState (access version) (Marked version) (.start ι file) accesses ↔
      Runs.EveryStep (access version) (StampsUnstamped version) (.start ι file) accesses := by
  apply Runs.everyState_iff_everyStep (P := Invariant version)
  · intro d a h hstamp
    exact invariant_access h hstamp
  · intro d a h hstamp
    exact not_marked_access h hstamp
  · intro d h
    exact h.toMarked
  · exact ⟨⟨nofun, nofun⟩, nofun, nofun, nofun⟩

/-- Builds of one version never stamp over another. -/
theorem marked_of_one_version {version : ι → SchemaVersion} (h : ∀ i j, version i = version j)
    (file : SqliteFile) (accesses : List (Access ι)) :
    Runs.EveryState (access version) (Marked version) (.start ι file) accesses := by
  have hkept : Runs.EveryState (access version) (Invariant version) (.start ι file) accesses := by
    apply Runs.everyState_of_preserved
    · intro d a hinv
      apply invariant_access hinv
      cases a with
      | call i call => trivial
      | connect i =>
          intro hphase
          by_cases hzero : d.store.userVersion = 0
          · exact Or.inl hzero
          · obtain ⟨j, -, hversion⟩ := hinv.stamped i hphase hzero
            exact Or.inr (h i j ▸ hversion)
    · exact ⟨⟨nofun, nofun⟩, nofun, nofun, nofun⟩
  exact hkept.mono fun d hinv => hinv.toMarked

example : (SqliteFile.new.init currentSchemaVersion).2 = ⟨1, .fresh⟩ := rfl

end SqliteFile

/-! ## Neo4j -/

namespace Neo4jServer

variable [NameFolding]

/-- A client's next statement. The constructor's transaction is one. -/
def access (version : ι → SchemaVersion) (d : Deployment ι Neo4jServer) :
    Access ι → Option (Except ErrorClass Reply) × Deployment ι Neo4jServer
  | .connect i =>
      match d.phase i with
      | .unopened =>
          let outcome := d.store.ensureSchemaVersion (version i)
          (none, ⟨outcome.2, Function.update d.phase i (.ofResult outcome.1)⟩)
      | _ => (none, d)
  | .call i call =>
      if d.phase i = .opened then
        let outcome := call.step d.store.repository
        (some outcome.1, ⟨{ d.store with repository := outcome.2 }, d.phase⟩)
      else
        (none, d)

/-- The marker tells the clients that were let in from those that were refused, and is the one
that was there before, if one was. -/
structure Marked (version : ι → SchemaVersion) (before : Option ℤ)
    (d : Deployment ι Neo4jServer) : Prop where
  opened : ∀ i, d.phase i = .opened → d.store.schemaVersion = some (version i : ℤ)
  refused : ∀ i, d.phase i = .refused →
    ∃ marker, d.store.schemaVersion = some marker ∧ marker ≠ version i
  kept : ∀ marker, before = some marker → d.store.schemaVersion = some marker

/-- A marker that the store has stays. -/
theorem schemaVersion_access (version : ι → SchemaVersion) {d : Deployment ι Neo4jServer}
    (a : Access ι) {marker : ℤ} (h : d.store.schemaVersion = some marker) :
    (access version d a).2.store.schemaVersion = some marker := by
  cases a with
  | connect i =>
      simp only [access]
      split
      · simp [ensureSchemaVersion, h]
      · exact h
  | call i call =>
      simp only [access]
      split <;> exact h

/-- A client that a statement settles is told by the marker after it. -/
theorem phase_access (version : ι → SchemaVersion) (d : Deployment ι Neo4jServer) (a : Access ι)
    (i : ι) : (access version d a).2.phase i = d.phase i ∨
      ∃ marker, (access version d a).2.store.schemaVersion = some marker ∧
        (access version d a).2.phase i =
          .ofResult (reconcileSchemaVersion marker (version i)) := by
  cases a with
  | connect j =>
      simp only [access]
      split
      · by_cases hij : i = j
        · subst hij
          exact Or.inr ⟨_, rfl, Function.update_self _ _ _⟩
        · exact Or.inl (Function.update_of_ne hij _ _)
      · exact Or.inl rfl
  | call j call =>
      simp only [access]
      split <;> exact Or.inl rfl

theorem marked_access {version : ι → SchemaVersion} {before : Option ℤ}
    {d : Deployment ι Neo4jServer} (h : Marked version before d) (a : Access ι) :
    Marked version before (access version d a).2 := by
  refine ⟨?_, ?_, ?_⟩
  · intro i hi
    rcases phase_access version d a i with hsame | ⟨marker, hmarker, hphase⟩
    · exact schemaVersion_access version a (h.opened i (hsame ▸ hi))
    · rw [hphase, Phase.ofResult_eq_opened, reconcileSchemaVersion_eq_ok] at hi
      exact hi ▸ hmarker
  · intro i hi
    rcases phase_access version d a i with hsame | ⟨marker, hmarker, hphase⟩
    · obtain ⟨marker, hmarker, hne⟩ := h.refused i (hsame ▸ hi)
      exact ⟨marker, schemaVersion_access version a hmarker, hne⟩
    · rw [hphase, Phase.ofResult_eq_refused, ne_eq, reconcileSchemaVersion_eq_ok] at hi
      exact ⟨marker, hmarker, hi⟩
  · intro marker hbefore
    exact schemaVersion_access version a (h.kept marker hbefore)

/-- The deployment that the accesses lead to. -/
def run (version : ι → SchemaVersion) (server : Neo4jServer) (accesses : List (Access ι)) :
    Deployment ι Neo4jServer :=
  accesses.foldl (fun d a => (access version d a).2) (.start ι server)

/-- However builds of different versions open a graph database and work on it, at every moment
those at work are of the marker's version, those turned away are not, and a marker stays, whether
it was there at the start or has been made on the way. -/
theorem marked_run (version : ι → SchemaVersion) (server : Neo4jServer)
    (accesses : List (Access ι)) :
    Runs.EveryState (access version) (Marked version server.schemaVersion) (.start ι server)
      accesses ∧
    ∀ earlier later, accesses = earlier ++ later → ∀ marker,
      (run version server earlier).store.schemaVersion = some marker →
        Runs.EveryState (access version) (fun d => d.store.schemaVersion = some marker)
          (run version server earlier) later := by
  constructor
  · apply Runs.everyState_of_preserved
    · intro d a h
      exact marked_access h a
    · exact ⟨nofun, nofun, fun _ hbefore => hbefore⟩
  · intro earlier later _ marker hmade
    apply Runs.everyState_of_preserved
      (P := fun d : Deployment ι Neo4jServer => d.store.schemaVersion = some marker)
    · intro d a hmarker
      exact schemaVersion_access version a hmarker
    · exact hmade

end Neo4jServer

end Vre
