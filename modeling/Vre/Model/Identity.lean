import Vre.Library.OrderedDict
import Vre.Model.Knowledge

/-! # Agent identities

The file-based registry of `vre.identity`: `AgentIdentity`, `AgentRegistry`, and what clients
that share one `agents.json` do to it when their `get_or_create` calls overlap. The file is
modelled by the value its text encodes.
-/

namespace Vre

/-- A registered agent identity. -/
structure AgentIdentity where
  agentId : UUID
  registrationKey : String
  name : Option String
  createdAt : Timestamp
  deriving DecidableEq, Repr

/-- `AgentIdentity(registration_key=..., name=...)`. -/
def AgentIdentity.new (draw : Draw) (registrationKey : String) (name : Option String) :
    AgentIdentity :=
  ⟨draw.uuid4 0, registrationKey, name, draw.now⟩

/-- A value of the object in `agents.json`: the fields of an identity, of which those with a
default factory may be absent, or a value that does not validate, with what pydantic says. -/
inductive AgentValue where
  | fields (agentId : Option UUID) (registrationKey : String) (name : Option String)
      (createdAt : Option Timestamp)
  | invalid (error : String)
  deriving DecidableEq, Repr

/-- `model_dump(mode="json")`. -/
def AgentIdentity.modelDump (identity : AgentIdentity) : AgentValue :=
  .fields (some identity.agentId) identity.registrationKey identity.name (some identity.createdAt)

/-- `AgentIdentity.model_validate(value)`, for the value in place `i` of the file: an absent
identifier or date takes its default. -/
def AgentIdentity.modelValidate (draw : Draw) (i : ℕ) :
    AgentValue → Except PyException AgentIdentity
  | .fields agentId registrationKey name createdAt =>
      .ok ⟨agentId.getD (draw.uuid4 i), registrationKey, name, createdAt.getD draw.now⟩
  | .invalid error => raise .valueError error

/-! ## The file -/

/-- What a read of `agents.json` finds: no file, one that the system refuses to read, blank
text, text that is not JSON, JSON that is not an object, or an object. -/
inductive RegistryFile where
  | absent
  | unreadable (error : String)
  | blank
  | malformed (error : String)
  | nonObject
  | object (data : OrderedDict String AgentValue)

def RegistryFile.get? (file : RegistryFile) (key : String) : Option AgentValue :=
  match file with
  | .object data => data.get? key
  | _ => none

def RegistryFile.keys (file : RegistryFile) : List String :=
  match file with
  | .object data => data.keys
  | _ => []

/-- A system call of `_save` that fails: the creation of the directory, or one that writes
or renames the temporary file. -/
inductive WriteFault where
  | mkdir (error : String)
  | write (error : String)
  deriving DecidableEq, Repr

/-- The place where a registry lives. -/
structure RegistryDisk where
  file : RegistryFile
  fault : Option WriteFault

/-! ## The registry -/

structure AgentRegistry where
  path : String
  deriving DecidableEq, Repr

namespace AgentRegistry

/-- One item of the object in the file, with its place. -/
def identityItem (draw : Draw) (item : (String × AgentValue) × ℕ) :
    Except PyException (String × AgentIdentity) := do
  let identity ← AgentIdentity.modelValidate draw item.2 item.1.2
  return (item.1.1, identity)

/-- `_load`. -/
def load (registry : AgentRegistry) (draw : Draw) (file : RegistryFile) :
    Except PyException (OrderedDict String AgentIdentity) :=
  match file with
  | .absent => .ok .empty
  | .unreadable error =>
      raise .registryError s!"Cannot read registry at {registry.path}: {error}"
  | .blank => .ok .empty
  | .malformed error =>
      raise .registryError s!"Corrupt registry at {registry.path}: {error}"
  | .nonObject =>
      raise .registryError
        s!"Corrupt registry at {registry.path}: expected JSON object at top level"
  | .object data =>
      match data.entries.zipIdx.mapM (identityItem draw) with
      | .ok items => .ok (.ofItems items)
      | .error exc => raise .registryError s!"Corrupt registry at {registry.path}: {exc.message}"

/-- `_save`: a failure before the rename leaves the file as it was. -/
def save (registry : AgentRegistry) (agents : OrderedDict String AgentIdentity) :
    Action RegistryDisk Unit := fun disk =>
  match disk.fault with
  | some (.mkdir error) => .error ⟨.osError, error⟩ disk
  | some (.write error) =>
      .error ⟨.registryError, s!"Cannot write registry to {registry.path}: {error}"⟩ disk
  | none => .ok () { disk with file := .object (agents.mapValues AgentIdentity.modelDump) }

/-- `get_or_create`. `reading` is what the defaults of the file's values draw, `creating`
what those of a new identity draw. -/
def getOrCreate (registry : AgentRegistry) (reading creating : Draw) (registrationKey : String)
    (name : Option String) : Action RegistryDisk AgentIdentity := do
  let agents ← Action.read fun disk => registry.load reading disk.file
  match agents.get? registrationKey with
  | some agentIdentity => return agentIdentity
  | none =>
      let agentIdentity := AgentIdentity.new creating registrationKey name
      registry.save (agents.set registrationKey agentIdentity)
      return agentIdentity

/-- `get_by_id`. -/
def getById (registry : AgentRegistry) (reading : Draw) (agentId : UUID) :
    Action RegistryDisk (Option AgentIdentity) := do
  let agents ← Action.read fun disk => registry.load reading disk.file
  return agents.values.find? fun identity => identity.agentId = agentId

end AgentRegistry

/-! ## Clients that share the file -/

/-- A `get_or_create` call that has missed its key and not yet replaced the file: its
arguments, the registry it holds, and the file that it read this from. -/
structure PendingCall where
  registrationKey : String
  name : Option String
  agents : OrderedDict String AgentIdentity
  read : RegistryFile

/-- The file, the pending call of each client, and what calls have returned so far. -/
structure SharedRegistry (ι : Type) where
  disk : RegistryDisk
  pending : ι → Option PendingCall
  returned : List (String × AgentIdentity)

/-- One atomic step. A client starts a call, up to the end of `_load`, or finishes the call it has
pending: a client that starts anew has given its pending call up. Or the system turns, and writes
meet the fault from then on, if any. -/
inductive RegistryStep (ι : Type) where
  | start (client : ι) (reading : Draw) (registrationKey : String) (name : Option String)
  | finish (client : ι) (creating : Draw)
  | turn (fault : Option WriteFault)

namespace SharedRegistry

/-- No call has been made yet. -/
def opened {ι : Type} (disk : RegistryDisk) : SharedRegistry ι :=
  ⟨disk, fun _ => none, []⟩

def setPending {ι : Type} [DecidableEq ι] (s : SharedRegistry ι) (client : ι)
    (call : Option PendingCall) : SharedRegistry ι :=
  { s with pending := Function.update s.pending client call }

def record {ι : Type} (s : SharedRegistry ι) (registrationKey : String)
    (identity : AgentIdentity) : SharedRegistry ι :=
  { s with returned := s.returned ++ [(registrationKey, identity)] }

/-- The part of `get_or_create` up to the test for the key. -/
def start {ι : Type} [DecidableEq ι] (registry : AgentRegistry) (s : SharedRegistry ι)
    (client : ι) (reading : Draw) (registrationKey : String) (name : Option String) :
    Option (Except PyException AgentIdentity) × SharedRegistry ι :=
  match registry.load reading s.disk.file with
  | .error exc => (some (.error exc), s.setPending client none)
  | .ok agents =>
      match agents.get? registrationKey with
      | some identity =>
          (some (.ok identity), (s.setPending client none).record registrationKey identity)
      | none => (none, s.setPending client (some ⟨registrationKey, name, agents, s.disk.file⟩))

/-- The part of `get_or_create` after the test, when the key was absent. -/
def finish {ι : Type} [DecidableEq ι] (registry : AgentRegistry) (s : SharedRegistry ι)
    (client : ι) (creating : Draw) :
    Option (Except PyException AgentIdentity) × SharedRegistry ι :=
  match s.pending client with
  | none => (none, s)
  | some call =>
      let identity := AgentIdentity.new creating call.registrationKey call.name
      match registry.save (call.agents.set call.registrationKey identity) s.disk with
      | .error exc disk => (some (.error exc), { s.setPending client none with disk })
      | .ok () disk => (some (.ok identity),
          ({ s.setPending client none with disk }).record call.registrationKey identity)

/-- One step, with what the call returns or raises when the step ends it. -/
def step {ι : Type} [DecidableEq ι] (registry : AgentRegistry) (s : SharedRegistry ι) :
    RegistryStep ι → Option (Except PyException AgentIdentity) × SharedRegistry ι
  | .start client reading registrationKey name =>
      s.start registry client reading registrationKey name
  | .finish client creating => s.finish registry client creating
  | .turn fault => (none, { s with disk := { s.disk with fault } })

/-- The two steps of one client with nothing in between. -/
def call {ι : Type} [DecidableEq ι] (registry : AgentRegistry) (s : SharedRegistry ι)
    (client : ι) (reading creating : Draw) (registrationKey : String) (name : Option String) :
    Option (Except PyException AgentIdentity) × SharedRegistry ι :=
  match s.start registry client reading registrationKey name with
  | (some result, s) => (some result, s)
  | (none, s) => s.finish registry client creating

end SharedRegistry

end Vre
