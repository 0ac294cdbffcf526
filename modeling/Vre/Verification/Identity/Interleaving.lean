import Vre.Library.Loops
import Vre.Library.Runs
import Vre.Model.Identity

/-! # Interleaved registrations

What a read of `agents.json` yields, what `get_or_create` does with it, and in which
interleavings of overlapping calls the registry keeps every identity it has returned: those
in which no call replaces a file that has changed since the call read it.
-/

namespace Vre

/-! ## What `_load` yields -/

/-- The value that `model_validate` accepts. -/
def AgentValue.Valid (value : AgentValue) : Prop :=
  ∃ agentId registrationKey name createdAt,
    value = .fields agentId registrationKey name createdAt

/-- The value has no default left to draw. -/
def AgentValue.Complete (value : AgentValue) : Prop :=
  ∃ identity : AgentIdentity, value = identity.modelDump

def RegistryFile.Valid : RegistryFile → Prop
  | .absent => True
  | .blank => True
  | .object data => ∀ value ∈ data.values, value.Valid
  | _ => False

/-- The identity is in the file, which can be read. -/
def RegistryFile.Holds (file : RegistryFile) (key : String) (identity : AgentIdentity) : Prop :=
  file.Valid ∧ file.get? key = some identity.modelDump

theorem RegistryFile.mem_keys_iff {file : RegistryFile} {key : String} :
    key ∈ file.keys ↔ ∃ value, file.get? key = some value := by
  cases file with
  | object data => exact data.mem_keys_iff key
  | _ => simp [keys, get?]

theorem AgentIdentity.modelDump_injective : Function.Injective AgentIdentity.modelDump := by
  intro a b h
  cases a
  cases b
  simp_all [AgentIdentity.modelDump]

theorem AgentIdentity.modelDump_valid (identity : AgentIdentity) : identity.modelDump.Valid :=
  ⟨_, _, _, _, rfl⟩

@[simp] theorem AgentIdentity.modelValidate_modelDump (draw : Draw) (i : ℕ)
    (identity : AgentIdentity) : modelValidate draw i identity.modelDump = .ok identity := rfl

/-- A value validates to one identity whatever is drawn only if it has every field. -/
theorem AgentValue.eq_modelDump {value : AgentValue} {identity : AgentIdentity}
    (h : ∀ draw : Draw, ∃ i, AgentIdentity.modelValidate draw i value = .ok identity) :
    value = identity.modelDump := by
  obtain ⟨id, key, label, date⟩ := identity
  obtain ⟨i, hi⟩ := h ⟨fun _ => id + 1, date + 1⟩
  cases value with
  | invalid error => cases hi
  | fields agentId registrationKey name createdAt =>
      obtain ⟨hid, rfl, rfl, hdate⟩ := AgentIdentity.mk.inj (Except.ok.inj hi)
      cases agentId with
      | none => exact absurd hid (Nat.succ_ne_self id)
      | some agentId =>
          cases createdAt with
          | none => exact absurd hdate (Nat.succ_ne_self date)
          | some createdAt =>
              obtain rfl : agentId = id := hid
              obtain rfl : createdAt = date := hdate
              rfl

namespace AgentRegistry

theorem identityItem_ok {draw : Draw} {item : (String × AgentValue) × ℕ}
    {found : String × AgentIdentity} (h : identityItem draw item = .ok found) :
    found.1 = item.1.1 ∧ AgentIdentity.modelValidate draw item.2 item.1.2 = .ok found.2 := by
  obtain ⟨identity, hidentity, h⟩ := Loops.except_bind_ok.mp h
  cases h
  exact ⟨rfl, hidentity⟩

theorem exists_place {l : List (String × AgentValue)} {e : String × AgentValue} (h : e ∈ l) :
    ∃ i, (e, i) ∈ l.zipIdx := by
  obtain ⟨i, hi, hget⟩ := List.mem_iff_getElem.mp h
  exact ⟨i, by simp [List.mem_zipIdx_iff_getElem?, hi, hget]⟩

theorem keys_identities {draw : Draw} {l : List (String × AgentValue)}
    {items : List (String × AgentIdentity)}
    (h : l.zipIdx.mapM (identityItem draw) = .ok items) :
    items.map Prod.fst = l.map Prod.fst := by
  have hkeys : List.Forall₂ (· = ·) (l.zipIdx.map fun item => item.1.1) (items.map Prod.fst) := by
    rw [List.forall₂_map_left_iff, List.forall₂_map_right_iff]
    exact (Loops.except_mapM_forall₂ h).imp fun _ _ hitem => (identityItem_ok hitem).1.symm
  rw [List.forall₂_eq_eq_eq] at hkeys
  rw [← hkeys, ← Function.comp_def Prod.fst Prod.fst, ← List.map_map, List.zipIdx_map_fst]

theorem load_object_ok {registry : AgentRegistry} {draw : Draw}
    {data : OrderedDict String AgentValue} {agents : OrderedDict String AgentIdentity}
    (h : registry.load draw (.object data) = .ok agents) :
    ∃ items, data.entries.zipIdx.mapM (identityItem draw) = .ok items ∧
      agents = .ofItems items := by
  simp only [load] at h
  split at h
  · exact ⟨_, ‹_›, (Except.ok.inj h).symm⟩
  · cases h

theorem valid_of_load {registry : AgentRegistry} {draw : Draw} {file : RegistryFile}
    {agents : OrderedDict String AgentIdentity} (h : registry.load draw file = .ok agents) :
    file.Valid := by
  cases file with
  | absent => trivial
  | blank => trivial
  | unreadable error => cases h
  | malformed error => cases h
  | nonObject => cases h
  | object data =>
      obtain ⟨items, hitems, -⟩ := load_object_ok h
      intro value hvalue
      obtain ⟨e, he, rfl⟩ := List.mem_map.mp hvalue
      obtain ⟨i, hmem⟩ := exists_place he
      obtain ⟨found, -, hfound⟩ := Loops.except_mapM_ok hitems _ hmem
      obtain ⟨-, hvalid⟩ := identityItem_ok hfound
      cases hval : e.2 with
      | fields agentId registrationKey name createdAt => exact ⟨_, _, _, _, rfl⟩
      | invalid error =>
          rw [hval] at hvalid
          cases hvalid

theorem exists_load (registry : AgentRegistry) (draw : Draw) {file : RegistryFile}
    (h : file.Valid) : ∃ agents, registry.load draw file = .ok agents := by
  cases file with
  | absent => exact ⟨_, rfl⟩
  | blank => exact ⟨_, rfl⟩
  | unreadable error => exact h.elim
  | malformed error => exact h.elim
  | nonObject => exact h.elim
  | object data =>
      cases hitems : data.entries.zipIdx.mapM (identityItem draw) with
      | ok items => exact ⟨.ofItems items, by simp only [load, hitems]⟩
      | error exc =>
          obtain ⟨item, hitem, herror⟩ := Loops.except_mapM_error hitems
          have hmem : item.1 ∈ data.entries := List.fst_mem_of_mem_zipIdx hitem
          obtain ⟨_, _, _, _, hval⟩ := h item.1.2 (List.mem_map_of_mem hmem)
          simp only [identityItem, hval] at herror
          cases herror

/-- The registry that a read yields has the keys of the file, each with the identity that
its value validates to. -/
theorem get?_load {registry : AgentRegistry} {draw : Draw} {file : RegistryFile}
    {agents : OrderedDict String AgentIdentity} (h : registry.load draw file = .ok agents)
    (key : String) :
    (file.get? key = none ∧ agents.get? key = none) ∨
    ∃ value i identity, file.get? key = some value ∧
      AgentIdentity.modelValidate draw i value = .ok identity ∧
      agents.get? key = some identity := by
  cases file with
  | absent =>
      cases h
      exact Or.inl ⟨rfl, rfl⟩
  | blank =>
      cases h
      exact Or.inl ⟨rfl, rfl⟩
  | unreadable error => cases h
  | malformed error => cases h
  | nonObject => cases h
  | object data =>
      obtain ⟨items, hitems, rfl⟩ := load_object_ok h
      have hkeys := keys_identities hitems
      cases hget : data.get? key with
      | none =>
          refine Or.inl ⟨hget, OrderedDict.get?_ofItems_eq_none.mpr fun identity hmem => ?_⟩
          have hkey : key ∈ data.keys := by
            rw [OrderedDict.keys, ← hkeys]
            exact List.mem_map_of_mem (f := Prod.fst) hmem
          obtain ⟨value, hvalue⟩ := (data.mem_keys_iff key).mp hkey
          simp [hget] at hvalue
      | some value =>
          obtain ⟨i, hmem⟩ := exists_place ((data.mem_entries_iff key value).mpr hget)
          obtain ⟨found, hfound, hitem⟩ := Loops.except_mapM_ok hitems _ hmem
          obtain ⟨rfl, hvalid⟩ := identityItem_ok hitem
          refine Or.inr ⟨value, i, found.2, hget, hvalid, ?_⟩
          exact OrderedDict.get?_ofItems_of_nodup (hkeys ▸ data.nodup_keys) hfound

theorem load_eq_none {registry : AgentRegistry} {draw : Draw} {file : RegistryFile}
    {agents : OrderedDict String AgentIdentity} (h : registry.load draw file = .ok agents)
    {key : String} : agents.get? key = none ↔ file.get? key = none := by
  rcases get?_load h key with ⟨hfile, hagents⟩ | ⟨value, i, identity, hfile, -, hagents⟩ <;>
    simp [hfile, hagents]

theorem load_holds {registry : AgentRegistry} {draw : Draw} {file : RegistryFile}
    {agents : OrderedDict String AgentIdentity} (h : registry.load draw file = .ok agents)
    {key : String} {identity : AgentIdentity} (hheld : file.Holds key identity) :
    agents.get? key = some identity := by
  rcases get?_load h key with ⟨hfile, -⟩ | ⟨value, i, found, hfile, hvalid, hagents⟩
  · simp [hheld.2] at hfile
  · obtain rfl : identity.modelDump = value := Option.some.inj (hheld.2.symm.trans hfile)
    rw [AgentIdentity.modelValidate_modelDump] at hvalid
    rw [hagents, Except.ok.inj hvalid]

/-! ## One call -/

theorem getOrCreate_of_hit {registry : AgentRegistry} {reading : Draw} {disk : RegistryDisk}
    {agents : OrderedDict String AgentIdentity} {key : String} {identity : AgentIdentity}
    (hload : registry.load reading disk.file = .ok agents)
    (hhit : agents.get? key = some identity) (creating : Draw) (name : Option String) :
    registry.getOrCreate reading creating key name disk = .ok identity disk := by
  have hread : Action.read (fun disk => registry.load reading disk.file) disk =
      .ok agents disk := Action.read_of_ok hload
  apply (Loops.bind_of_ok hread).trans
  simp only [hhit]
  rfl

theorem getOrCreate_of_miss {registry : AgentRegistry} {reading : Draw} {disk : RegistryDisk}
    {agents : OrderedDict String AgentIdentity} {key : String}
    (hload : registry.load reading disk.file = .ok agents) (hmiss : agents.get? key = none)
    (creating : Draw) (name : Option String) :
    registry.getOrCreate reading creating key name disk =
      (do registry.save (agents.set key (.new creating key name))
          return .new creating key name : Action RegistryDisk AgentIdentity) disk := by
  have hread : Action.read (fun disk => registry.load reading disk.file) disk =
      .ok agents disk := Action.read_of_ok hload
  apply (Loops.bind_of_ok hread).trans
  simp only [hmiss]

theorem getOrCreate_of_error {registry : AgentRegistry} {reading : Draw} {disk : RegistryDisk}
    {exc : PyException} (hload : registry.load reading disk.file = .error exc) (creating : Draw)
    (key : String) (name : Option String) :
    registry.getOrCreate reading creating key name disk = .error exc disk :=
  Loops.bind_of_error (Action.read_of_error hload)

/-- An identity is in the file exactly when the key is and every call for the key that
starts now returns the identity. -/
theorem holds_iff (registry : AgentRegistry) {disk : RegistryDisk} {key : String}
    {identity : AgentIdentity} :
    disk.file.Holds key identity ↔ key ∈ disk.file.keys ∧
      ∀ reading creating name,
        registry.getOrCreate reading creating key name disk = .ok identity disk := by
  constructor
  · intro hheld
    refine ⟨RegistryFile.mem_keys_iff.mpr ⟨_, hheld.2⟩, fun reading creating name => ?_⟩
    obtain ⟨agents, hload⟩ := registry.exists_load reading hheld.1
    exact getOrCreate_of_hit hload (load_holds hload hheld) creating name
  · rintro ⟨hkey, hcall⟩
    obtain ⟨value, hvalue⟩ := RegistryFile.mem_keys_iff.mp hkey
    have hread (draw : Draw) : ∃ agents, registry.load draw disk.file = .ok agents ∧
        agents.get? key = some identity := by
      cases hload : registry.load draw disk.file with
      | error exc =>
          have hfail := getOrCreate_of_error hload draw key none
          rw [hcall] at hfail
          cases hfail
      | ok agents =>
          rcases get?_load hload key with ⟨hnone, -⟩ | ⟨_, _, found, -, -, hfound⟩
          · simp [hvalue] at hnone
          · have hhit := getOrCreate_of_hit hload hfound draw none
            rw [hcall] at hhit
            cases hhit
            exact ⟨agents, rfl, hfound⟩
    obtain ⟨agents, hload, -⟩ := hread ⟨fun _ => 0, 0⟩
    refine ⟨valid_of_load hload, hvalue.trans (congrArg some ?_)⟩
    apply AgentValue.eq_modelDump
    intro draw
    obtain ⟨agents, hload, hget⟩ := hread draw
    rcases get?_load hload key with ⟨hnone, -⟩ | ⟨value', i, found, hvalue', hvalid, hfound⟩
    · simp [hvalue] at hnone
    · obtain rfl : value = value' := Option.some.inj (hvalue.symm.trans hvalue')
      obtain rfl : identity = found := Option.some.inj (hget.symm.trans hfound)
      exact ⟨i, hvalid⟩

/-- What the file holds is found by its identifier. -/
theorem getById_of_holds (registry : AgentRegistry) (reading : Draw) {disk : RegistryDisk}
    {key : String} {identity : AgentIdentity} (h : disk.file.Holds key identity) :
    ∃ found, registry.getById reading identity.agentId disk = .ok (some found) disk ∧
      found.agentId = identity.agentId := by
  obtain ⟨agents, hload⟩ := registry.exists_load reading h.1
  have hread : Action.read (fun disk => registry.load reading disk.file) disk =
      .ok agents disk := Action.read_of_ok hload
  have hmem : identity ∈ agents.values :=
    (agents.mem_values_iff identity).mpr ⟨key, load_holds hload h⟩
  cases hfind : agents.values.find? (fun i => i.agentId = identity.agentId) with
  | none => exact (List.find?_eq_none.mp hfind identity hmem (by simp)).elim
  | some found =>
      refine ⟨found, (Loops.bind_of_ok hread).trans ?_, by simpa using List.find?_some hfind⟩
      rw [hfind]
      rfl

end AgentRegistry

/-! ## Overlapping calls -/

/-- A pending call holds what it has read, without its key. When the file has changed since,
a key was returned that the call does not hold. -/
structure PendingCall.Tracked (registry : AgentRegistry) (file : RegistryFile)
    (returned : List (String × AgentIdentity)) (call : PendingCall) : Prop where
  loaded : ∃ draw, registry.load draw call.read = .ok call.agents
  missed : call.agents.get? call.registrationKey = none
  stale : file = call.read ∨ ∃ e ∈ returned, call.agents.get? e.1 = none

theorem PendingCall.Tracked.append {registry : AgentRegistry} {file : RegistryFile}
    {returned : List (String × AgentIdentity)} {call : PendingCall}
    (h : call.Tracked registry file returned) (e : String × AgentIdentity) :
    call.Tracked registry file (returned ++ [e]) where
  loaded := h.loaded
  missed := h.missed
  stale := by
    apply h.stale.imp_right
    rintro ⟨e, he, hnone⟩
    exact ⟨e, List.mem_append_left _ he, hnone⟩

namespace SharedRegistry

variable {ι : Type}

/-- Every key that a call has returned an identity for is in the file, and every call for it
that starts now returns this identity. -/
def Kept (registry : AgentRegistry) (s : SharedRegistry ι) : Prop :=
  ∀ e ∈ s.returned, e.1 ∈ s.disk.file.keys ∧
    ∀ reading creating name,
      registry.getOrCreate reading creating e.1 name s.disk = .ok e.2 s.disk

/-- A call starts on a key whose value in the file, if it has one, leaves no default to
draw; a call replaces the file that it has read. -/
def Undisturbed (s : SharedRegistry ι) : RegistryStep ι → Prop
  | .start _ _ registrationKey _ =>
      s.disk.file.Valid → ∀ value ∈ s.disk.file.get? registrationKey, value.Complete
  | .finish client _ =>
      s.disk.fault = none → ∀ call ∈ s.pending client, s.disk.file = call.read
  | .turn _ => True

/-- `uuid4()` does not return the identifier of an identity that was returned before. -/
def NewId (s : SharedRegistry ι) : RegistryStep ι → Prop
  | .start _ _ _ _ => True
  | .finish _ creating => ∀ e ∈ s.returned, e.2.agentId ≠ creating.uuid4 0
  | .turn _ => True

/-- What the undisturbed steps preserve. -/
structure Coherent (registry : AgentRegistry) (s : SharedRegistry ι) : Prop where
  holds : ∀ e ∈ s.returned, s.disk.file.Holds e.1 e.2
  tracked : ∀ client, ∀ call ∈ s.pending client, call.Tracked registry s.disk.file s.returned

theorem kept_iff {registry : AgentRegistry} {s : SharedRegistry ι} :
    s.Kept registry ↔ ∀ e ∈ s.returned, s.disk.file.Holds e.1 e.2 :=
  forall₂_congr fun _ _ => registry.holds_iff.symm

theorem coherent_opened (registry : AgentRegistry) (disk : RegistryDisk) :
    Coherent registry (opened disk : SharedRegistry ι) where
  holds := by simp [opened]
  tracked := by simp [opened]

theorem Coherent.record {registry : AgentRegistry} {s : SharedRegistry ι} {key : String}
    {identity : AgentIdentity} (h : s.Coherent registry)
    (hheld : s.disk.file.Holds key identity) : (s.record key identity).Coherent registry where
  holds := by
    intro e he
    rcases List.mem_append.mp he with he | he
    · exact h.holds e he
    · obtain rfl := List.mem_singleton.mp he
      exact hheld
  tracked := fun client call hcall => (h.tracked client call hcall).append (key, identity)

variable [DecidableEq ι]

theorem mem_setPending {s : SharedRegistry ι} {client client' : ι} {next : Option PendingCall}
    {call : PendingCall} (h : call ∈ (s.setPending client next).pending client') :
    call ∈ next ∨ call ∈ s.pending client' := by
  simp only [setPending, Function.update_apply] at h
  split at h
  · exact Or.inl h
  · exact Or.inr h

theorem Coherent.setPending {registry : AgentRegistry} {s : SharedRegistry ι}
    (h : s.Coherent registry) (client : ι) {next : Option PendingCall}
    (hnext : ∀ call ∈ next, call.Tracked registry s.disk.file s.returned) :
    (s.setPending client next).Coherent registry where
  holds := h.holds
  tracked := fun client' call hcall =>
    (mem_setPending hcall).elim (hnext call) (h.tracked client' call)

/-! ### The start of a call -/

/-- Every way in which a call can start. -/
theorem start_cases (registry : AgentRegistry) (s : SharedRegistry ι) (client : ι)
    (reading : Draw) (key : String) (name : Option String) :
    (∃ exc, registry.load reading s.disk.file = .error exc ∧
      s.start registry client reading key name =
        (some (.error exc), s.setPending client none)) ∨
    (∃ agents identity, registry.load reading s.disk.file = .ok agents ∧
      agents.get? key = some identity ∧
      s.start registry client reading key name =
        (some (.ok identity), (s.setPending client none).record key identity)) ∨
    ∃ agents, registry.load reading s.disk.file = .ok agents ∧ agents.get? key = none ∧
      s.start registry client reading key name =
        (none, s.setPending client (some ⟨key, name, agents, s.disk.file⟩)) := by
  cases hload : registry.load reading s.disk.file with
  | error exc => exact Or.inl ⟨exc, rfl, by simp only [start, hload]⟩
  | ok agents =>
      cases hget : agents.get? key with
      | some identity =>
          exact Or.inr (Or.inl ⟨agents, identity, rfl, hget, by simp only [start, hload, hget]⟩)
      | none => exact Or.inr (Or.inr ⟨agents, rfl, hget, by simp only [start, hload, hget]⟩)

theorem coherent_start {registry : AgentRegistry} {s : SharedRegistry ι} {client : ι}
    {reading : Draw} {key : String} {name : Option String} (h : s.Coherent registry)
    (hcond : s.Undisturbed (.start client reading key name)) :
    (s.start registry client reading key name).2.Coherent registry := by
  have hnone : (s.setPending client none).Coherent registry := h.setPending client (by simp)
  rcases start_cases registry s client reading key name with
    ⟨exc, -, hstart⟩ | ⟨agents, identity, hload, hget, hstart⟩ | ⟨agents, hload, hget, hstart⟩
  · rw [hstart]
    exact hnone
  · have hvalid := AgentRegistry.valid_of_load hload
    rcases AgentRegistry.get?_load hload key with
      ⟨-, habsent⟩ | ⟨value, i, found, hfile, hvalue, hfound⟩
    · simp [habsent] at hget
    · obtain ⟨held, rfl⟩ := hcond hvalid value hfile
      rw [AgentIdentity.modelValidate_modelDump] at hvalue
      obtain rfl : held = found := Except.ok.inj hvalue
      obtain rfl : held = identity := Option.some.inj (hfound.symm.trans hget)
      rw [hstart]
      exact hnone.record ⟨hvalid, hfile⟩
  · rw [hstart]
    apply h.setPending client
    intro call hcall
    obtain rfl := Option.some.inj hcall
    exact ⟨⟨reading, hload⟩, hget, Or.inl rfl⟩

/-- A call that starts on a value with a default left to draw returns an identity that the
file does not hold. -/
theorem lost_start {registry : AgentRegistry} {s : SharedRegistry ι} {client : ι}
    {reading : Draw} {key : String} {name : Option String}
    (hcond : ¬ s.Undisturbed (.start client reading key name)) :
    ¬ (s.start registry client reading key name).2.Kept registry := by
  rw [kept_iff]
  intro hheld
  simp only [Undisturbed, not_forall] at hcond
  obtain ⟨hvalid, value, hfile, hincomplete⟩ := hcond
  rcases start_cases registry s client reading key name with
    ⟨exc, hload, -⟩ | ⟨agents, identity, hload, hget, hstart⟩ | ⟨agents, hload, hget, -⟩
  · obtain ⟨agents, hok⟩ := registry.exists_load reading hvalid
    rw [hload] at hok
    cases hok
  · rw [hstart] at hheld
    have hholds := hheld (key, identity) (List.mem_append_right _ (List.mem_singleton_self _))
    exact hincomplete ⟨identity, Option.some.inj (hfile.symm.trans hholds.2)⟩
  · rw [AgentRegistry.load_eq_none hload, hfile] at hget
    cases hget

/-! ### The end of a call -/

/-- The state after a call has replaced the file by what it held and its new identity. -/
def replaced (s : SharedRegistry ι) (client : ι) (call : PendingCall)
    (identity : AgentIdentity) : SharedRegistry ι :=
  let agents := call.agents.set call.registrationKey identity
  { disk := ⟨.object (agents.mapValues AgentIdentity.modelDump), none⟩
    pending := Function.update s.pending client none
    returned := s.returned ++ [(call.registrationKey, identity)] }

/-- Every way in which a pending call can end. -/
theorem finish_cases (registry : AgentRegistry) (s : SharedRegistry ι) (client : ι)
    (creating : Draw) :
    (s.pending client = none ∧ s.finish registry client creating = (none, s)) ∨
    (∃ call exc, s.pending client = some call ∧ s.disk.fault ≠ none ∧
      s.finish registry client creating = (some (.error exc), s.setPending client none)) ∨
    ∃ call identity, s.pending client = some call ∧ s.disk.fault = none ∧
      identity = AgentIdentity.new creating call.registrationKey call.name ∧
      s.finish registry client creating =
        (some (.ok identity), s.replaced client call identity) := by
  cases hcall : s.pending client with
  | none => exact Or.inl ⟨rfl, by simp only [finish, hcall]⟩
  | some call =>
      cases hfault : s.disk.fault with
      | none =>
          refine Or.inr (Or.inr ⟨call, _, rfl, rfl, rfl, ?_⟩)
          simp only [finish, hcall, AgentRegistry.save, hfault]
          rfl
      | some fault =>
          refine Or.inr (Or.inl ?_)
          cases fault with
          | mkdir error =>
              refine ⟨call, ⟨.osError, error⟩, rfl, by simp, ?_⟩
              simp only [finish, hcall, AgentRegistry.save, hfault]
              rfl
          | write error =>
              refine ⟨call, ⟨.registryError, s!"Cannot write registry to {registry.path}: {error}"⟩,
                rfl, by simp, ?_⟩
              simp only [finish, hcall, AgentRegistry.save, hfault]
              rfl

theorem holds_replaced {s : SharedRegistry ι} {client : ι} {call : PendingCall}
    {identity : AgentIdentity} {key : String} {held : AgentIdentity} :
    (s.replaced client call identity).disk.file.Holds key held ↔
      (if key = call.registrationKey then some identity else call.agents.get? key) =
        some held := by
  have hvalid : (s.replaced client call identity).disk.file.Valid := by
    intro value hvalue
    obtain ⟨e, he, rfl⟩ := List.mem_map.mp hvalue
    obtain ⟨item, -, rfl⟩ := List.mem_map.mp he
    exact item.2.modelDump_valid
  have hget : (s.replaced client call identity).disk.file.get? key =
      (if key = call.registrationKey then some identity else call.agents.get? key).map
        AgentIdentity.modelDump := by
    simp only [replaced, RegistryFile.get?, OrderedDict.get?_mapValues, OrderedDict.get?_set]
  rw [RegistryFile.Holds, hget]
  refine ⟨fun h => ?_, fun h => ⟨hvalid, by rw [h]; rfl⟩⟩
  exact Option.map_injective AgentIdentity.modelDump_injective h.2

/-- A call that replaces the file it has read keeps what the file held, and leaves behind
every other call that has read the same file. -/
theorem Coherent.replaced {registry : AgentRegistry} {s : SharedRegistry ι} {client : ι}
    {call : PendingCall} (h : s.Coherent registry) (hcall : call ∈ s.pending client)
    (hfile : s.disk.file = call.read) (identity : AgentIdentity) :
    (s.replaced client call identity).Coherent registry where
  holds := by
    obtain ⟨⟨draw, hload⟩, hmissed, -⟩ := h.tracked client call hcall
    intro e he
    rw [holds_replaced]
    rcases List.mem_append.mp he with he | he
    · have hheld := h.holds e he
      rw [hfile] at hheld
      have hget := AgentRegistry.load_holds hload hheld
      have hne : e.1 ≠ call.registrationKey := by
        intro heq
        rw [heq, hmissed] at hget
        cases hget
      rw [if_neg hne, hget]
    · obtain rfl := List.mem_singleton.mp he
      exact if_pos rfl
  tracked := by
    obtain ⟨⟨draw, hload⟩, hmissed, -⟩ := h.tracked client call hcall
    intro client' call' hcall'
    have hcases : call' ∈ (none : Option PendingCall) ∨ call' ∈ s.pending client' :=
      mem_setPending hcall'
    have hcall' := hcases.resolve_left (by simp)
    obtain ⟨hloaded, hmissed', hstale⟩ := h.tracked client' call' hcall'
    refine ⟨hloaded, hmissed', Or.inr ?_⟩
    rcases hstale with hsame | ⟨e, he, hnone⟩
    · refine ⟨_, List.mem_append_right _ (List.mem_singleton_self _), ?_⟩
      -- both calls have read one file, and the key was not in it
      obtain ⟨draw', hload'⟩ := hloaded
      rw [AgentRegistry.load_eq_none hload', ← hsame, hfile]
      exact (AgentRegistry.load_eq_none hload).mp hmissed
    · exact ⟨e, List.mem_append_left _ he, hnone⟩

theorem coherent_finish {registry : AgentRegistry} {s : SharedRegistry ι} {client : ι}
    {creating : Draw} (h : s.Coherent registry) (hcond : s.Undisturbed (.finish client creating)) :
    (s.finish registry client creating).2.Coherent registry := by
  rcases finish_cases registry s client creating with
    ⟨-, hfinish⟩ | ⟨call, exc, -, -, hfinish⟩ | ⟨call, identity, hcall, hfault, -, hfinish⟩
  · rw [hfinish]
    exact h
  · rw [hfinish]
    exact h.setPending client (by simp)
  · rw [hfinish]
    exact h.replaced hcall (hcond hfault call hcall) identity

/-- A call that replaces a file other than the one it has read loses an identity that was
returned in between. -/
theorem lost_finish {registry : AgentRegistry} {s : SharedRegistry ι} {client : ι}
    {creating : Draw} (h : s.Coherent registry) (hid : s.NewId (.finish client creating))
    (hcond : ¬ s.Undisturbed (.finish client creating)) :
    ¬ (s.finish registry client creating).2.Kept registry := by
  rw [kept_iff]
  intro hheld
  simp only [Undisturbed, not_forall] at hcond
  obtain ⟨hfault, call, hcall, hchanged⟩ := hcond
  obtain ⟨e, he, hnone⟩ := (h.tracked client call hcall).stale.resolve_left hchanged
  rcases finish_cases registry s client creating with
    ⟨habsent, -⟩ | ⟨_, _, -, hfails, -⟩ | ⟨call', identity, hcall', -, rfl, hfinish⟩
  · rw [habsent] at hcall
    cases hcall
  · exact hfails hfault
  · obtain rfl : call' = call := Option.some.inj (hcall'.symm.trans hcall)
    rw [hfinish] at hheld
    have hlost := holds_replaced.mp (hheld e (List.mem_append_left _ he))
    split at hlost
    · exact hid e he (congrArg AgentIdentity.agentId (Option.some.inj hlost)).symm
    · rw [hnone] at hlost
      cases hlost

/-- A call that nothing interrupts is `get_or_create`. -/
theorem getOrCreate_eq_call (registry : AgentRegistry) (s : SharedRegistry ι) (client : ι)
    (reading creating : Draw) (key : String) (name : Option String) :
    ∃ result, (s.call registry client reading creating key name).1 = some result ∧
      registry.getOrCreate reading creating key name s.disk =
        (Action.lift result : Action RegistryDisk AgentIdentity)
          (s.call registry client reading creating key name).2.disk := by
  rcases start_cases registry s client reading key name with
    ⟨exc, hload, hstart⟩ | ⟨agents, identity, hload, hget, hstart⟩ | ⟨agents, hload, hget, hstart⟩
  · refine ⟨.error exc, by simp only [call, hstart], ?_⟩
    rw [AgentRegistry.getOrCreate_of_error hload]
    simp only [call, hstart]
    rfl
  · refine ⟨.ok identity, by simp only [call, hstart], ?_⟩
    rw [AgentRegistry.getOrCreate_of_hit hload hget]
    simp only [call, hstart]
    rfl
  · have hpending : (s.setPending client (some ⟨key, name, agents, s.disk.file⟩)).pending client =
        some ⟨key, name, agents, s.disk.file⟩ := by simp [setPending]
    rw [AgentRegistry.getOrCreate_of_miss hload hget]
    simp only [call, hstart, finish, hpending]
    have hdisk : (s.setPending client (some ⟨key, name, agents, s.disk.file⟩)).disk = s.disk := rfl
    rw [hdisk]
    cases hsave : registry.save (agents.set key (.new creating key name)) s.disk with
    | ok u disk => exact ⟨_, rfl, Loops.bind_of_ok hsave⟩
    | error exc disk => exact ⟨_, rfl, Loops.bind_of_error hsave⟩

/-! ## Whole runs -/

theorem coherent_step {registry : AgentRegistry} {s : SharedRegistry ι} {op : RegistryStep ι}
    (h : s.Coherent registry) (hcond : s.Undisturbed op) :
    (s.step registry op).2.Coherent registry := by
  cases op with
  | start client reading key name => exact coherent_start h hcond
  | finish client creating => exact coherent_finish h hcond
  | turn fault => exact ⟨h.holds, h.tracked⟩

/-- In a run of overlapping calls in which every call replaces the file that it has read,
and no identity is read with a default left to draw, every state keeps every identity
returned before it; and no other run does, as long as `uuid4()` does not repeat itself. -/
theorem run_kept (registry : AgentRegistry) (disk : RegistryDisk) (steps : List (RegistryStep ι)) :
    (Runs.EveryStep (step registry) Undisturbed (opened disk) steps →
      Runs.EveryState (step registry) (Kept registry) (opened disk) steps) ∧
    (Runs.EveryStep (step registry) NewId (opened disk) steps →
      Runs.EveryState (step registry) (Kept registry) (opened disk) steps →
      Runs.EveryStep (step registry) Undisturbed (opened disk) steps) := by
  have hopened : Coherent registry (opened disk : SharedRegistry ι) := coherent_opened registry disk
  have hgood (s : SharedRegistry ι) (op : RegistryStep ι) (h : s.Coherent registry)
      (hcond : s.Undisturbed op) : (s.step registry op).2.Coherent registry :=
    coherent_step h hcond
  constructor
  · intro hcond
    exact (Runs.everyState_of_everyStep hgood hopened hcond).mono fun s h => kept_iff.mpr h.holds
  · intro hid hkept
    refine Runs.everyStep_of_everyState hgood ?_ hopened hid hkept
    intro s op h hid hcond
    cases op with
    | start client reading key name => exact lost_start hcond
    | finish client creating => exact lost_finish h hid hcond
    | turn fault => exact absurd trivial hcond

/-- Two clients register different keys in turn, one of them again after its first write has
failed, and both keys stay. -/
theorem run_kept_in_turn :
    let registry : AgentRegistry := ⟨"agents.json"⟩
    let disk : RegistryDisk := ⟨.absent, none⟩
    let steps : List (RegistryStep Bool) :=
      [.start true ⟨fun _ => 0, 0⟩ "writer" none, .finish true ⟨fun _ => 1, 0⟩,
        .start false ⟨fun _ => 0, 0⟩ "reader" none, .turn (some (.write "disk full")),
        .finish false ⟨fun _ => 2, 0⟩, .turn none, .start false ⟨fun _ => 0, 0⟩ "reader" none,
        .finish false ⟨fun _ => 3, 0⟩]
    let s := steps.foldl (fun s op => (s.step registry op).2) (opened disk)
    s.returned = [("writer", ⟨1, "writer", none, 0⟩), ("reader", ⟨3, "reader", none, 0⟩)] ∧
      Runs.EveryState (step registry) (Kept registry) (opened disk) steps := by
  intro registry disk steps s
  refine ⟨by decide, (run_kept registry disk steps).1 ?_⟩
  simp only [steps, Runs.EveryStep]
  refine ⟨?_, ?_, ?_, trivial, ?_, trivial, ?_, ?_, trivial⟩
  · intro _ value hvalue
    cases hvalue
  · intro _ call hcall
    cases hcall
    rfl
  · intro _ value hvalue
    cases hvalue
  · intro hfault
    cases hfault
  · intro _ value hvalue
    cases hvalue
  · intro _ call hcall
    cases hcall
    rfl

/-- Two clients register different keys at once. The second replacement erases the key that
the first call has returned. -/
theorem run_kept_lost_update :
    let registry : AgentRegistry := ⟨"agents.json"⟩
    let disk : RegistryDisk := ⟨.absent, none⟩
    let steps : List (RegistryStep Bool) :=
      [.start true ⟨fun _ => 0, 0⟩ "writer" none, .start false ⟨fun _ => 0, 0⟩ "reader" none,
        .finish true ⟨fun _ => 1, 0⟩, .finish false ⟨fun _ => 2, 0⟩]
    let s := steps.foldl (fun s op => (s.step registry op).2) (opened disk)
    (("writer", ⟨1, "writer", none, 0⟩) ∈ s.returned ∧ "writer" ∉ s.disk.file.keys) ∧
      ¬ Runs.EveryState (step registry) (Kept registry) (opened disk) steps := by
  intro registry disk steps s
  have hlost : ("writer", ⟨1, "writer", none, 0⟩) ∈ s.returned ∧
      "writer" ∉ s.disk.file.keys := by decide
  refine ⟨hlost, fun hkept => hlost.2 ?_⟩
  exact (hkept.last _ hlost.1).1

end SharedRegistry

end Vre
