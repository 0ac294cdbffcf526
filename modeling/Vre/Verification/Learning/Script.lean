import Vre.Library.Loops
import Vre.Library.Transactions
import Vre.Model.Learning

/-! # `learn_gap` access by access

A call of `learn_gap` only reads until it saves: it asks for primitives, decides on what it
is told, and ends with one save. Its accesses form a transaction, and the call is that
transaction with nothing in between.
-/

namespace Vre

open Transactions (Reading)

namespace LearningEngine

/-- What a call asks of the repository. -/
inductive Question where
  | byId (id : UUID)
  | byName (name : String)
  deriving DecidableEq, Repr

abbrev Answer := Except PyException (Option Primitive)

abbrev Script (α : Type) := Reading Question Answer PyException α

def Question.answer {ρ : Type} [Repository ρ] (repo : ρ) : Question → Answer
  | .byId id => Repository.findById repo id
  | .byName name => Repository.findByName repo name

namespace Script

/-- Ask, and pass an error of the repository on. -/
def find (question : Question) : Script (Option Primitive) :=
  .ask question Reading.ofExcept

def resolveName (name : String) : Script Primitive := do
  match ← find (.byName name) with
  | none => Reading.ofExcept (raise .candidateValidationError
      s!"Cannot resolve '{name}' to a primitive ID")
  | some primitive => return primitive

def existence (draw : Draw) (candidate : ExistenceCandidate) (provenance : Provenance) :
    Script Primitive := do
  match ← find (.byName candidate.name) with
  | some _ => Reading.ofExcept (raise .gapResolvedError
      (s!"Concept '{candidate.name}' already exists — the existence gap is already resolved; "
        ++ "nothing to learn"))
  | none =>
      Reading.ofExcept (validateDepthFill candidate.d1.toList (some .existence) .identity
        {.existence} s!"ExistenceCandidate for '{candidate.name}'")
      let d0 : Depth := ⟨.existence, [("exists", .json "true")], [], some provenance⟩
      let d1 := candidate.d1.toList.map fun proposed => toDepth proposed provenance
      return ⟨draw.uuid4 0, candidate.name, d0 :: d1, some provenance, none⟩

def depthFill (primitiveId : UUID) (snapshotName : String) (requiredDepth : DepthLevel)
    (newDepths : List ProposedDepth) (provenance : Provenance) (label : String) :
    Script Primitive := do
  match ← find (.byId primitiveId) with
  | none => Reading.ofExcept (raise .candidateValidationError
      s!"Primitive '{snapshotName}' ({primitiveId}) not found")
  | some existing =>
      let liveCurrent := existing.contiguousMaxDepth
      Reading.ofExcept (raiseIfResolved existing.name liveCurrent requiredDepth)
      Reading.ofExcept (validateDepthFill newDepths liveCurrent requiredDepth
        existing.groundingLevels s!"{label} for '{existing.name}'")
      return { existing with depths := appendedDepths existing.depths newDepths provenance }

def findEndpoint (role name : String) (id : UUID) : Script Primitive := do
  match ← find (.byId id) with
  | none => Reading.ofExcept (raise .candidateValidationError s!"{role} '{name}' ({id}) not found")
  | some primitive => return primitive

def reachability (edge : EdgeProposal) (provenance : Provenance) : Script Primitive := do
  let sourceNamed ← resolveName edge.sourceName
  let targetNamed ← resolveName edge.targetName
  let source ← findEndpoint "Source" edge.sourceName sourceNamed.id
  let target ← findEndpoint "Target" edge.targetName targetNamed.id
  Reading.ofExcept (requireDepth "Source" source edge.sourceDepthLevel)
  Reading.ofExcept (requireDepth "Target" target edge.targetDepthLevel)
  let newRelatum : Relatum :=
    ⟨edge.relationType, targetNamed.id, edge.targetDepthLevel, [], some provenance⟩
  let depths := (attachRelatum edge.sourceDepthLevel newRelatum source.depths).insertionSort
    fun a b => a.level ≤ b.level
  return { source with depths := depths }

end Script

/-- The accesses of a call up to its save, and the primitive it saves. -/
def script [NameFolding] (draw : Draw) (gap : KnowledgeGap) (candidate : LearningCandidate) :
    Script Primitive :=
  let provenance := makeProvenance draw .learned
  match gap, candidate with
  | .existence _, .existence c => do
      Reading.ofExcept (c.validateForGap gap)
      Script.existence draw c provenance
  | .depth g, .depth c => do
      Reading.ofExcept (c.validateForGap gap)
      Script.depthFill g.primitive.id g.primitive.name g.requiredDepth c.newDepths provenance
        "DepthCandidate"
  | .relational g, .relational c => do
      Reading.ofExcept (c.validateForGap gap)
      Script.depthFill g.target.id g.target.name g.requiredDepth c.newDepths provenance
        "RelationalCandidate"
  | .reachability _, .reachability c => do
      let edge ← Reading.ofExcept (c.validateForGap gap)
      Script.reachability edge provenance
  | _, _ => Reading.ofExcept (raise .candidateValidationError
      (s!"Candidate kind '{candidate.kind.value}' does not match gap kind "
        ++ s!"'{gap.kind.value}'"))

/-! ## The call is its script -/

section Connection

variable {ρ : Type} [Repository ρ]

/-- A script with nothing in between its accesses. -/
def Script.toAction {α : Type} (s : Script α) : Action ρ α :=
  Action.read fun repo => s.run (Question.answer repo)

@[simp] theorem Script.toAction_bind {α β : Type} (s : Script α) (f : α → Script β) :
    ((s >>= f).toAction : Action ρ β) = s.toAction >>= fun a => (f a).toAction := by
  funext repo
  change Action.read (fun repo => (s >>= f).run (Question.answer repo)) repo = _
  simp only [Action.read, Reading.run_bind]
  cases h : s.run (Question.answer repo) with
  | ok a =>
      have hs : (s.toAction : Action ρ α) repo = .ok a repo := Action.read_of_ok h
      exact (Loops.bind_of_ok (f := fun a => (f a).toAction) hs).symm
  | error exc =>
      have hs : (s.toAction : Action ρ α) repo = .error exc repo := Action.read_of_error h
      exact (Loops.bind_of_error hs).symm

@[simp] theorem Script.toAction_pure {α : Type} (a : α) :
    ((pure a : Script α).toAction : Action ρ α) = pure a :=
  rfl

@[simp] theorem Script.toAction_ofExcept {α : Type} (x : Except PyException α) :
    (toAction (Reading.ofExcept x) : Action ρ α) = Action.lift x := by
  funext repo
  simp only [toAction, Action.lift, Action.read, Reading.run_ofExcept]

theorem Script.toAction_byId (id : UUID) : ((find (.byId id)).toAction : Action ρ _) =
    Action.read fun repo => Repository.findById repo id := by
  funext repo
  simp only [toAction, find, Reading.run, Reading.run_ofExcept, Question.answer]

theorem Script.toAction_byName (name : String) : ((find (.byName name)).toAction : Action ρ _) =
    Action.read fun repo => Repository.findByName repo name := by
  funext repo
  simp only [toAction, find, Reading.run, Reading.run_ofExcept, Question.answer]

omit [Repository ρ] in
/-- A failure stays a failure whatever was to follow. -/
theorem lift_raise_bind {α β : Type} (cls : ErrorClass) (message : String) (f : α → Action ρ β) :
    Action.lift (raise cls message) >>= f = Action.lift (raise cls message) :=
  rfl

theorem Script.toAction_resolveName (name : String) :
    ((resolveName name).toAction : Action ρ _) = LearningEngine.resolveName name := by
  simp only [resolveName, LearningEngine.resolveName, toAction_bind, toAction_byName]
  congr 1
  funext found
  cases found <;> simp

theorem Script.toAction_findEndpoint (role name : String) (id : UUID) :
    ((findEndpoint role name id).toAction : Action ρ _) =
      LearningEngine.findEndpoint role name id := by
  simp only [findEndpoint, LearningEngine.findEndpoint, toAction_bind, toAction_byId]
  congr 1
  funext found
  cases found <;> simp

theorem persistExistence_eq (draw : Draw) (candidate : ExistenceCandidate)
    (provenance : Provenance) : (persistExistence draw candidate provenance : Action ρ Unit) =
      (Script.existence draw candidate provenance).toAction >>= Repository.savePrimitive := by
  simp only [persistExistence, Script.existence, Script.toAction_bind, Script.toAction_byName,
    bind_assoc]
  congr 1
  funext found
  cases found <;> simp [lift_raise_bind]

theorem persistDepthFill_eq (primitiveId : UUID) (snapshotName : String)
    (requiredDepth : DepthLevel) (newDepths : List ProposedDepth) (provenance : Provenance)
    (label : String) :
    (persistDepthFill primitiveId snapshotName requiredDepth newDepths provenance label :
      Action ρ Unit) =
      (Script.depthFill primitiveId snapshotName requiredDepth newDepths provenance
        label).toAction >>= Repository.savePrimitive := by
  simp only [persistDepthFill, Script.depthFill, Script.toAction_bind, Script.toAction_byId,
    bind_assoc]
  congr 1
  funext found
  cases found <;> simp [lift_raise_bind, appendDepths]

theorem persistReachability_eq (edge : EdgeProposal) (provenance : Provenance) :
    (persistReachability edge provenance : Action ρ Unit) =
      (Script.reachability edge provenance).toAction >>= Repository.savePrimitive := by
  simp [persistReachability, Script.reachability, Script.toAction_resolveName,
    Script.toAction_findEndpoint, resolveNameToId]

/-- `learn_gap` is its script, then the save of what the script came to. -/
theorem learnGap_eq [NameFolding] (draw : Draw) (gap : KnowledgeGap)
    (candidate : LearningCandidate) : (learnGap draw gap candidate : Action ρ Unit) =
      (script draw gap candidate).toAction >>= Repository.savePrimitive := by
  unfold learnGap script
  cases gap <;> cases candidate <;>
    simp [KnowledgeGap.kind, LearningCandidate.kind, lift_raise_bind, persistDepth,
      persistRelational, persistExistence_eq, persistDepthFill_eq, persistReachability_eq]

/-- The repository as calls of `learn_gap` share it: a save hands back the class of the error
that refuses it, if any. -/
def sharedStore (ρ : Type) [Repository ρ] :
    Transactions.Store ρ Question Answer Primitive (Option ErrorClass) where
  answer := Question.answer
  write repo primitive :=
    match (Repository.savePrimitive primitive : Action ρ Unit) repo with
    | .ok _ repo' => (none, repo')
    | .error exc repo' => (some exc.cls, repo')

end Connection

end LearningEngine

end Vre
