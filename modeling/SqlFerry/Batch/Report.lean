import SqlFerry.Batch.Job
import SqlFerry.Json.Value

/-! What became of the files of a batch. -/
namespace SqlFerry

structure ConvertedFile where
  input : Path
  output : Path
  diagnostics : List Diagnostic
deriving DecidableEq, Repr

structure FileFailure where
  input : Path
  phase : String
  message : String
deriving DecidableEq, Repr

inductive BatchStatus where
  | success
  | partly
  | failed
deriving DecidableEq, Repr

def BatchStatus.name : BatchStatus → String
  | success => "success"
  | partly => "partial"
  | failed => "failed"

structure BatchReport where
  converted : List ConvertedFile
  failures : List FileFailure
deriving DecidableEq, Repr

namespace FileJob

def converted? (file : FileJob) : Option ConvertedFile :=
  file.rendered?.map fun rendered => ⟨file.input, file.output, rendered.diagnostics⟩

def failure? (file : FileJob) : Option FileFailure :=
  match file.result? with
  | some (.ok _) => none
  | some (.error error) => some ⟨file.input, error.phase, error.message⟩
  | none => some ⟨file.input, "internal", "conversion did not complete"⟩

end FileJob

namespace BatchReport

def ofJob (job : Job) : BatchReport where
  converted := job.filterMap FileJob.converted?
  failures := job.filterMap FileJob.failure?

def status (r : BatchReport) : BatchStatus :=
  if r.failures.isEmpty then .success else if r.converted.isEmpty then .failed else .partly

def isSuccess (r : BatchReport) : Bool := r.status = .success

def diagnosticCount (r : BatchReport) : Nat := (r.converted.flatMap (·.diagnostics)).length

def diagnosticJson (d : Diagnostic) : JsonValue :=
  .ofMembers [("stage", .ofString d.stage), ("line", .ofNat d.line), ("column", .ofNat d.column),
    ("message", .ofString d.message)]

def convertedJson (file : ConvertedFile) : JsonValue :=
  .ofMembers [("input", .ofString file.input.text), ("output", .ofString file.output.text),
    ("diagnostics", .array (file.diagnostics.map diagnosticJson))]

def failureJson (failure : FileFailure) : JsonValue :=
  .ofMembers [("path", .ofString failure.input.text), ("phase", .ofString failure.phase),
    ("message", .ofString failure.message)]

def toJson (r : BatchReport) : JsonValue :=
  .ofMembers [("status", .ofString r.status.name),
    ("converted", .array (r.converted.map convertedJson)),
    ("failures", .array (r.failures.map failureJson))]

/-- The report in lines: diagnostics with columns counted from one, failures, and the counts. -/
def lines (r : BatchReport) : List String :=
  r.converted.flatMap (fun file => file.diagnostics.map fun d =>
    s!"{file.input.text}:{d.line}:{d.column + 1}: [{d.stage}] {d.message}") ++
  r.failures.map (fun f => s!"{f.input.text}: {f.phase} failed: {f.message}") ++
  [s!"converted {r.converted.length} file(s), {r.failures.length} failed, " ++
    s!"{r.diagnosticCount} diagnostic(s)"]

end BatchReport

namespace Batch

variable {m : Type → Type} [Monad m]

/-- Plans, converts, writes and reports. -/
def run (b : Batch) (storage : Storage m) : m (Except BatchError BatchReport) := do
  match ← (b.plan storage).run with
  | .error error => return .error error
  | .ok plan =>
    let job ← (Job.ofPlan plan).convert b storage
    return .ok (.ofJob (← job.write b storage))

end Batch

end SqlFerry
