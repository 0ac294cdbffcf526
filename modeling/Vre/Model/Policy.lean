import Vre.Model.Repository

/-! # Policies

The policy models, the callback contract, the registry and the gate of `vre.core.policy`.
Integrator code (a callback, a handler) is an action on a state `σ` of its own: it may
return anything, raise, and answer differently the next time.
-/

namespace Vre

/-! ## Models -/

structure PolicyCallbackResult where
  passed : Bool
  message : Option String
  deriving DecidableEq, Repr

/-- Result for a callback that could not be evaluated: it fails closed. -/
def PolicyCallbackResult.unevaluable (message : String) : PolicyCallbackResult :=
  ⟨false, some message⟩

inductive PolicyAction where
  | pass
  | block
  deriving DecidableEq, Repr

inductive Cardinality where
  | single
  | multiple
  deriving DecidableEq, Repr

/-- `Cardinality(value)`, absent when the value names no member. -/
def Cardinality.ofValue? : String → Option Cardinality
  | "single" => some single
  | "multiple" => some multiple
  | _ => none

def defaultConfirmationMessage : String :=
  "This action requires confirmation. Proceed?"

structure Policy where
  name : String
  requiresConfirmation : Bool
  triggerCardinality : Option Cardinality
  callback : Option String
  confirmationMessage : String
  metadata : Properties
  deriving DecidableEq, Repr

/-- A single triggered policy violation. -/
structure PolicyViolation where
  policy : Policy
  callbackResult : Option PolicyCallbackResult
  deriving DecidableEq, Repr

/-- The callback's message, when there is one, leads the confirmation message. -/
def PolicyViolation.message (v : PolicyViolation) : String :=
  match v.callbackResult.bind PolicyCallbackResult.message with
  | none => v.policy.confirmationMessage
  | some "" => v.policy.confirmationMessage
  | some message => s!"{message}\n{v.policy.confirmationMessage}"

def PolicyViolation.requiresConfirmation (v : PolicyViolation) : Bool :=
  v.policy.requiresConfirmation

structure PolicyResult where
  action : PolicyAction
  reason : Option String
  violations : List PolicyViolation
  deriving DecidableEq, Repr

/-! ## The callback contract -/

/-- The positional and keyword arguments of a call. -/
structure CallArgs where
  args : List PyValue
  kwargs : List (String × PyValue)
  deriving DecidableEq, Repr

structure ToolCallContext where
  toolName : String
  call : CallArgs
  deriving DecidableEq, Repr

structure GroundingContext where
  agentId : Option UUID
  resolvedConcepts : List String
  deriving DecidableEq, Repr

def GroundingContext.fromGrounding (grounding : GroundingResult) : GroundingContext :=
  ⟨grounding.agentId, grounding.resolved⟩

/-- The `APPLIES_TO` edge whose policy invoked a callback. -/
structure TriggeringEdge where
  sourceName : String
  targetName : String
  sourceDepth : DepthLevel
  targetDepth : DepthLevel
  deriving DecidableEq, Repr

structure PolicyCallContext where
  toolCall : ToolCallContext
  grounding : GroundingContext
  triggeringEdge : TriggeringEdge
  policy : Policy
  deriving DecidableEq, Repr

/-- What a callback returned: a `PolicyCallbackResult`, or a value of another type. -/
inductive CallbackValue where
  | result (r : PolicyCallbackResult)
  | other (typeName : String)

/-- A callable, its `__name__` when it has one, and the name of its class. -/
structure PolicyCallback (σ : Type) where
  call : PolicyCallContext → Action σ CallbackValue
  name : Option String
  typeName : String

/-! ## The registry -/

/-- A policy bound to one `APPLIES_TO` edge. -/
structure PolicyPlacement (σ : Type) where
  key : String
  policy : Policy
  callback : PolicyCallback σ
  source : String
  target : String
  sourceDepth : DepthLevel

structure OrphanedPlacement where
  key : String
  name : String
  source : String
  target : String
  sourceDepth : DepthLevel
  reason : String
  deriving DecidableEq, Repr

/-- The case-insensitive identity of an edge. -/
abbrev EdgeKey := String × String × DepthLevel

structure PolicyRegistry (σ : Type) where
  byKey : OrderedDict String (PolicyPlacement σ)
  byEdge : OrderedDict EdgeKey (List (PolicyPlacement σ))
  frozen : Bool

/-- The keyword arguments of `register`; `wellTyped` tells whether the models accept them. -/
structure PolicyDeclaration where
  key : Option String
  sourcePrimitive : String
  targetPrimitive : String
  sourceDepth : DepthLevel
  name : String
  confirmationMessage : String
  triggerCardinality : Option Cardinality
  requiresConfirmation : Bool
  metadata : Option Properties
  wellTyped : Bool

/-- A string that is absent or empty is false. -/
def truthy (s : Option String) : Option String :=
  s.filter fun text => text ≠ ""

namespace PolicyRegistry

def new {σ : Type} : PolicyRegistry σ :=
  ⟨.empty, .empty, false⟩

/-- `key or callback.__name__ or type(callback).__name__`. -/
def keyFor {σ : Type} (callback : PolicyCallback σ) (key : Option String) : String :=
  ((truthy key).or (truthy callback.name)).getD callback.typeName

/-- The placement a declaration builds. -/
def placementOf {σ : Type} (callback : PolicyCallback σ) (decl : PolicyDeclaration) :
    PolicyPlacement σ where
  key := keyFor callback decl.key
  policy := ⟨decl.name, decl.requiresConfirmation, decl.triggerCardinality,
    some (keyFor callback decl.key), decl.confirmationMessage, decl.metadata.getD []⟩
  callback := callback
  source := decl.sourcePrimitive
  target := decl.targetPrimitive
  sourceDepth := decl.sourceDepth

def edgeKey [NameFolding] (source target : String) (sourceDepth : DepthLevel) : EdgeKey :=
  (foldName source, foldName target, sourceDepth)

def register {σ : Type} [NameFolding] (callback : PolicyCallback σ) (decl : PolicyDeclaration) :
    Action (PolicyRegistry σ) (PolicyCallback σ) := fun reg =>
  let key := keyFor callback decl.key
  if reg.frozen then
    .error ⟨.vreError, "cannot register policies after VRE construction; "
      ++ "import policy modules before constructing VRE"⟩ reg
  else if (reg.byKey.get? key).isSome then
    .error ⟨.vreError, s!"key {reprStr key} already registered — to attach one callback to "
      ++ "multiple edges, give each placement an explicit distinct key "
      ++ "(e.g. key='protected_file', key='protected_dir')."⟩ reg
  else if !decl.wellTyped then
    .error ⟨.valueError, "validation error for PolicyPlacement"⟩ reg
  else
    let placement := placementOf callback decl
    .ok callback { reg with
      byKey := reg.byKey.set key placement
      byEdge := reg.byEdge.append
        (edgeKey decl.sourcePrimitive decl.targetPrimitive decl.sourceDepth) placement }

def placementsFor {σ : Type} [NameFolding] (reg : PolicyRegistry σ) (sourceName targetName : String)
    (sourceDepth : DepthLevel) : List (PolicyPlacement σ) :=
  (reg.byEdge.get? (edgeKey sourceName targetName sourceDepth)).getD []

def iterPlacements {σ : Type} (reg : PolicyRegistry σ) : List (PolicyPlacement σ) :=
  reg.byKey.values

def keys {σ : Type} (reg : PolicyRegistry σ) : List String :=
  reg.byKey.keys

/-- `len(registry)`. -/
def length {σ : Type} (reg : PolicyRegistry σ) : ℕ :=
  reg.byKey.entries.length

def freeze {σ : Type} (reg : PolicyRegistry σ) : PolicyRegistry σ :=
  { reg with frozen := true }

def clear {σ : Type} (_reg : PolicyRegistry σ) : PolicyRegistry σ :=
  new

end PolicyRegistry

/-! ## The gate -/

namespace PolicyGate

/-- Run a placement's callback. A missing tool call, an exception and a result of another
type all fail closed. -/
def evaluateCallback {σ : Type} (callback : PolicyCallback σ) (policy : Policy)
    (edge : TriggeringEdge) (toolCall : Option ToolCallContext) (grounding : GroundingContext) :
    Action σ PolicyCallbackResult := fun world =>
  let detail := s!"Policy {reprStr policy.name} on {edge.sourceName}->{edge.targetName} @ "
    ++ formatDepthLabel (some edge.sourceDepth)
  let raised (exc : PyException) := PolicyCallbackResult.unevaluable
    s!"{detail}: callback raised {exc.repr}; firing conservatively."
  match toolCall with
  | none => .ok (.unevaluable (s!"{detail}: callback could not be evaluated (no tool call in this "
      ++ "context); firing conservatively.")) world
  | some toolCall =>
      match callback.call ⟨toolCall, grounding, edge, policy⟩ world with
      | .ok (.result r) world => .ok r world
      | .ok (.other typeName) world => .ok (raised ⟨.typeError,
          s!"callback returned {typeName}, expected PolicyCallbackResult"⟩) world
      | .error exc world => .ok (raised exc) world

/-- Both cardinalities are known and differ. -/
def cardinalityExcludes (policy : Policy) (cardinality : Option Cardinality) : Bool :=
  match cardinality, policy.triggerCardinality with
  | some given, some trigger => trigger ≠ given
  | _, _ => false

/-- The body of the innermost loop: one placement on one edge. -/
def placementViolation {σ : Type} (cardinality : Option Cardinality)
    (toolCall : Option ToolCallContext) (grounding : GroundingContext)
    (check : TriggeringEdge × PolicyPlacement σ) : Action σ (Option PolicyViolation) := do
  let policy := check.2.policy
  if cardinalityExcludes policy cardinality then
    return none
  else
    let cbResult ← evaluateCallback check.2.callback policy check.1 toolCall grounding
    if cbResult.passed then
      return none
    else
      return some ⟨policy, some cbResult⟩

/-- The edge and placement pairs of one relatum, or the fault of an unresolvable target. -/
def relatumChecks {σ : Type} [NameFolding] (reg : PolicyRegistry σ)
    (idToName : OrderedDict UUID String) (primitive : Primitive) (depth : Depth)
    (relatum : Relatum) : Except PyException (List (TriggeringEdge × PolicyPlacement σ)) :=
  if relatum.relationType ≠ .appliesTo then
    .ok []
  else
    match idToName.get? relatum.targetId with
    | none => raise .graphIntegrityError
        (s!"APPLIES_TO relatum on {reprStr primitive.name} @ {formatDepthLabel (some depth.level)} "
          ++ s!"points to target {relatum.targetId}, absent from the trace's primitives; "
          ++ "the trace is internally inconsistent.")
    | some targetName =>
        .ok ((reg.placementsFor primitive.name targetName depth.level).map fun placement =>
          (⟨primitive.name, targetName, depth.level, relatum.targetDepth⟩, placement))

/-- `_collect_violations`. -/
def collectViolations {σ : Type} [NameFolding] (reg : PolicyRegistry σ)
    (response : EpistemicResponse) (cardinality : Option Cardinality)
    (toolCall : Option ToolCallContext) (grounding : GroundingContext) :
    Action σ (List PolicyViolation) := do
  let idToName := OrderedDict.ofItems (response.result.primitives.map fun p => (p.id, p.name))
  let violations ← response.result.primitives.mapM fun primitive => do
    let violations ← primitive.depths.mapM fun depth => do
      let violations ← depth.relata.mapM fun relatum => do
        let checks ← Action.lift (relatumChecks reg idToName primitive depth relatum)
        checks.mapM (placementViolation cardinality toolCall grounding)
      return violations.flatten
    return violations.flatten
  return violations.flatten.filterMap id

/-- Evaluate all placements against the trace and return the triggered violations. -/
def evaluate {σ : Type} [NameFolding] (reg : PolicyRegistry σ) (response : EpistemicResponse)
    (cardinality : Option Cardinality) (toolCall : Option ToolCallContext)
    (grounding : GroundingContext) : Action σ (List PolicyViolation) :=
  if reg.length = 0 then
    return []
  else
    collectViolations reg response cardinality toolCall grounding

end PolicyGate

end Vre
