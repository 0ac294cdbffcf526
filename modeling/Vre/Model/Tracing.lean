import Vre.Model.Interface

/-! # Traces

`vre.tracing`: the entry of a check, the writer that appends entries to daily JSONL files, and
the manager that a `VRE` instance writes through; and `check` as it writes. What the models make
of themselves as JSON is a parameter, and so is what the file system does with a write.
-/

namespace Vre

/-! ## Entries -/

/-- A single line of a trace file. A gap and a step are dictionaries, by their text. -/
structure TraceEntry where
  timestamp : Timestamp
  operation : String
  concepts : List String
  resolved : List String
  grounded : Bool
  gaps : List Json
  steps : List Json
  agentId : Option String
  activePolicies : List String
  deriving DecidableEq, Repr

/-- What is written of a model: `model_dump(mode="json")` of a gap and of a step, which may
raise, and the text of an entry and of a day. JSON escapes the newlines of the strings it
writes. -/
structure TraceFormat where
  modelDumpGap : KnowledgeGap → Except PyException Json
  modelDumpStep : EpistemicStep → Except PyException Json
  modelDumpJson : TraceEntry → String
  day : Timestamp → String
  oneLine : ∀ entry, '\n' ∉ (modelDumpJson entry).toList

/-- `build_trace_entry`, at a time. -/
def buildTraceEntry (format : TraceFormat) (now : Timestamp) (operation : String)
    (concepts : List String) (result : GroundingResult) (activePolicies : List String) :
    Except PyException TraceEntry := do
  let gaps ← result.gaps.mapM format.modelDumpGap
  let steps ← result.getPathwaySteps.mapM format.modelDumpStep
  return ⟨now, operation, concepts, result.resolved, result.grounded, gaps, steps,
    result.agentId.map toString, activePolicies⟩

/-! ## The writer -/

/-- What the file system does with a write: all of it, or an error after so many characters. -/
inductive WriteOutcome where
  | written
  | failed (kept : ℕ)
  deriving DecidableEq, Repr

/-- The surroundings of one write: the clock when the entry is built and when its file is
named, and what the file system does. -/
structure TraceMoment where
  built : Timestamp
  named : Timestamp
  outcome : WriteOutcome
  deriving DecidableEq, Repr

/-- The files under the trace directory. One that does not exist is empty. -/
abbrev TraceDir := OrderedDict String String

namespace TraceWriter

/-- `_path_for_today`. -/
def pathForToday (format : TraceFormat) (now : Timestamp) : String :=
  format.day now ++ ".jsonl"

/-- Append to the file at a path. -/
def appendTo (dir : TraceDir) (path text : String) : TraceDir :=
  dir.set path ((dir.get? path).getD "" ++ text)

def write (format : TraceFormat) (moment : TraceMoment) (entry : TraceEntry) :
    Action TraceDir Unit := fun dir =>
  let path := pathForToday format moment.named
  let line := format.modelDumpJson entry ++ "\n"
  match moment.outcome with
  | .written => .ok () (appendTo dir path line)
  | .failed kept => .error ⟨.osError, "write failed"⟩
      (appendTo dir path (String.ofList (line.toList.take kept)))

end TraceWriter

/-! ## The manager -/

/-- A manager: whether it has a writer, whether writes are suppressed, and the directory it
writes to. -/
structure TraceManager where
  hasWriter : Bool
  suppressed : Bool
  dir : TraceDir

namespace TraceManager

/-- `_safe_write`: a failure of the writer is swallowed. -/
def safeWrite (format : TraceFormat) (moment : TraceMoment) (entry : TraceEntry) :
    Action TraceManager Unit := fun traces =>
  match TraceWriter.write format moment entry traces.dir with
  | .ok _ dir => .ok () { traces with dir := dir }
  | .error _ dir => .ok () { traces with dir := dir }

/-- The entry is built before the handler of `_safe_write`. -/
def writeCheck (format : TraceFormat) (moment : TraceMoment) (concepts : List String)
    (result : GroundingResult) (activePolicies : List String) : Action TraceManager Unit := do
  let traces ← get
  if traces.hasWriter ∧ ¬ traces.suppressed then
    let entry ← Action.lift
      (buildTraceEntry format moment.built "check" concepts result activePolicies)
    safeWrite format moment entry

end TraceManager

/-! ## Checks that write -/

/-- A repository and the traces of the checks on it. -/
structure Traced (ρ : Type) where
  repo : ρ
  traces : TraceManager

namespace Traced

variable {ρ α : Type}

def onRepo (act : Action ρ α) : Action (Traced ρ) α := fun w =>
  match act w.repo with
  | .ok a repo => .ok a { w with repo := repo }
  | .error e repo => .error e { w with repo := repo }

def onTraces (act : Action TraceManager α) : Action (Traced ρ) α := fun w =>
  match act w.traces with
  | .ok a traces => .ok a { w with traces := traces }
  | .error e traces => .error e { w with traces := traces }

/-- A block under `suppress()`: the flag is put back however the block ends. -/
def suppress (block : Action (Traced ρ) α) : Action (Traced ρ) α := fun w =>
  let was := w.traces.suppressed
  match block { w with traces := { w.traces with suppressed := true } } with
  | .ok a w => .ok a { w with traces := { w.traces with suppressed := was } }
  | .error e w => .error e { w with traces := { w.traces with suppressed := was } }

end Traced

/-- `check`, with its trace. -/
def VRE.tracedCheck {ρ σ : Type} [NameFolding] [Repository ρ] (vre : VRE σ)
    (format : TraceFormat) (draw : Draw) (concepts : List String) (minDepth : Option DepthLevel)
    (moment : TraceMoment) : Action (Traced ρ) GroundingResult := do
  let result ← Traced.onRepo (vre.check draw concepts minDepth)
  Traced.onTraces (TraceManager.writeCheck format moment concepts result vre.policyRegistry.keys)
  return result

end Vre
