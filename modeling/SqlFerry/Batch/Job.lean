import SqlFerry.Batch.Plan

/-! Carrying out a plan. Files are read and converted one apart from the other, so their results
may come in any order; what was converted is written once all results are there. -/
namespace SqlFerry

/-- What a file was turned into. -/
structure Rendered where
  text : String
  diagnostics : List Diagnostic
deriving DecidableEq, Repr

structure FileJob where
  assignment : Assignment
  result? : Option (Except BatchError Rendered) := none

abbrev Job := List FileJob

namespace FileJob

def input (file : FileJob) : Path := file.assignment.input

def output (file : FileJob) : Path := file.assignment.output

def rendered? (file : FileJob) : Option Rendered := file.result?.bind Except.toOption

end FileJob

/-- One line for each token: its position, kind and text. -/
def tokenTable (tokens : List (Token Tsql.Kind)) : String :=
  Text.unlines (tokens.map fun t => s!"{t.start.render}\t{t.kind.name}\t{t.text}")

namespace Batch

variable {m : Type → Type} [Monad m]

/-- What the text of a file is turned into. A conversion ends with the end of a line. -/
def renderText (b : Batch) (text : String) : Except BatchError Rendered :=
  if b.tokens then
    match Tsql.lex text with
    | .ok tokens => .ok ⟨tokenTable tokens, []⟩
    | .error error => .error (.tokens error)
  else
    match convertWith b.passes b.options text with
    | .ok conversion => .ok ⟨conversion.text ++ "\n", conversion.diagnostics⟩
    | .error error => .error (.conversion error)

def render (b : Batch) (storage : Storage m) (path : Path) : m (Except BatchError Rendered) := do
  match ← storage.read path with
  | .ok text => return b.renderText text
  | .error cause => return .error (.storage (.read path cause))

end Batch

namespace Job

variable {m : Type → Type} [Monad m]

def ofPlan (plan : List Assignment) : Job := plan.map ({ assignment := · })

/-- Takes down the result of the file at a place of the plan. -/
def record (job : Job) (place : Nat) (result : Except BatchError Rendered) : Job :=
  job.modify place fun file => { file with result? := some result }

/-- Takes down results in the order in which they come. -/
def settle (job : Job) (results : List (Nat × Except BatchError Rendered)) : Job :=
  results.foldl (fun job (place, result) => job.record place result) job

def convert (job : Job) (b : Batch) (storage : Storage m) : m Job := do
  let results ← job.zipIdx.mapM fun (file, place) =>
    return (place, ← b.render storage file.input)
  return job.settle results

/-- What was rendered, in the order of the plan. -/
def rendered (job : Job) : List (Path × Rendered) :=
  job.filterMap fun file => file.rendered?.map (file.input, ·)

/-- Writes what was rendered. A file that cannot be written has failed. -/
def writeFile (storage : Storage m) (file : FileJob) : m FileJob := do
  match file.rendered? with
  | none => return file
  | some rendered =>
    match ← (storage.replace file.output rendered.text).run with
    | .ok () => return file
    | .error error => return { file with result? := some (.error (.storage error)) }

/-- Writes all that was converted. Lists of tokens are not written. -/
def write (job : Job) (b : Batch) (storage : Storage m) : m Job :=
  if b.tokens then return job else job.mapM (writeFile storage)

end Job

end SqlFerry
