import Mathlib.Data.List.Basic

/-! # Exceptions of the reasoning engine -/

namespace Vre

/-- The exception classes of `vre.core.errors`, and the classes of the standard library,
of the SQLite driver and of integrator code that pass through the modelled functions. -/
inductive ErrorClass where
  | vreError
  | graphError
  | persistenceError
  | graphIntegrityError
  | cyclicRelationshipError
  | hydrationError
  | provenanceError
  | candidateValidationError
  | gapResolvedError
  | policyPlacementError
  | registryError
  | sqliteError
  | constraintError
  | typeError
  | valueError
  | unicodeEncodeError
  | osError
  | integrator
  deriving DecidableEq, Repr

def ErrorClass.name : ErrorClass → String
  | vreError => "VREError"
  | graphError => "GraphError"
  | persistenceError => "PersistenceError"
  | graphIntegrityError => "GraphIntegrityError"
  | cyclicRelationshipError => "CyclicRelationshipError"
  | hydrationError => "HydrationError"
  | provenanceError => "ProvenanceError"
  | candidateValidationError => "CandidateValidationError"
  | gapResolvedError => "GapResolvedError"
  | policyPlacementError => "PolicyPlacementError"
  | registryError => "RegistryError"
  | sqliteError => "IntegrityError"
  | constraintError => "ConstraintError"
  | typeError => "TypeError"
  | valueError => "ValueError"
  | unicodeEncodeError => "UnicodeEncodeError"
  | osError => "OSError"
  | integrator => "Exception"

/-- A raised exception: its class and its message. -/
structure PyException where
  cls : ErrorClass
  message : String
  deriving DecidableEq, Repr

/-- How `repr` writes a character of a string that stands between these quotes. -/
def reprChar (quote c : Char) : String :=
  if c = quote ∨ c = '\\' then "\\" ++ c.toString
  else if c = '\n' then "\\n"
  else if c = '\r' then "\\r"
  else if c = '\t' then "\\t"
  else c.toString

/-- `repr` of a string: between single quotes, unless it has these and no double ones. -/
def reprStr (text : String) : String :=
  let single := Char.ofNat 39
  let double := Char.ofNat 34
  let quote := if single ∈ text.toList ∧ double ∉ text.toList then double else single
  quote.toString ++ String.join (text.toList.map (reprChar quote)) ++ quote.toString

/-- `repr(exc)`. -/
def PyException.repr (exc : PyException) : String :=
  s!"{exc.cls.name}({reprStr exc.message})"

/-- `raise cls(message)`. -/
def raise {α : Type} (cls : ErrorClass) (message : String) : Except PyException α :=
  .error ⟨cls, message⟩

/-- Stateful code that may raise. An exception leaves the state it was raised in: what a
failed operation has written stays unless the code rolls it back. -/
abbrev Action (σ α : Type) := EStateM PyException σ α

/-- Run code that reads the state and may raise, but does not write. -/
def Action.read {σ α : Type} (f : σ → Except PyException α) : Action σ α := fun s =>
  match f s with
  | .ok a => .ok a s
  | .error e => .error e s

/-- Run code that neither reads nor writes the state. -/
def Action.lift {σ α : Type} (r : Except PyException α) : Action σ α :=
  Action.read fun _ => r

/-- The state an action leaves, whether it returned or raised. -/
def Action.after {σ α : Type} : EStateM.Result PyException σ α → σ
  | .ok _ s => s
  | .error _ s => s

theorem Action.after_bind_pure {σ α β : Type} (x : Action σ α) (f : α → β) (s : σ) :
    Action.after ((x >>= fun a => pure (f a)) s) = Action.after (x s) := by
  change Action.after (EStateM.bind x (fun a => EStateM.pure (f a)) s) = _
  simp only [EStateM.bind]
  cases x s <;> rfl

theorem Action.read_of_ok {σ α : Type} {f : σ → Except PyException α} {s : σ} {a : α}
    (h : f s = .ok a) : Action.read f s = .ok a s := by
  simp only [Action.read, h]

theorem Action.read_of_error {σ α : Type} {f : σ → Except PyException α} {s : σ}
    {exc : PyException} (h : f s = .error exc) : Action.read f s = .error exc s := by
  simp only [Action.read, h]

theorem Action.lift_of_ok {σ α : Type} {r : Except PyException α} {a : α} (h : r = .ok a) (s : σ) :
    (Action.lift r : Action σ α) s = .ok a s :=
  Action.read_of_ok h

theorem Action.lift_of_error {σ α : Type} {r : Except PyException α} {exc : PyException}
    (h : r = .error exc) (s : σ) : (Action.lift r : Action σ α) s = .error exc s :=
  Action.read_of_error h

end Vre
