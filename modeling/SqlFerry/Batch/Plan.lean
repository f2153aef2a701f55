import SqlFerry.Batch.Error
import SqlFerry.Conversion
import SqlFerry.Dialect

/-! A batch names files and directories to convert. Its plan lists every file once, with the file
that its conversion goes to. -/
namespace SqlFerry

structure Batch where
  inputs : List Path
  outdir : Path := .here
  extension : String := ".pgsql"
  passes : List PassName := PassName.standard
  /-- Lists the tokens of each file in place of converting it. -/
  tokens : Bool := false
  options : Options := {}

structure Assignment where
  input : Path
  output : Path
deriving DecidableEq, Repr

namespace Batch

variable {m : Type → Type} [Monad m]

/-- The files that an input stands for: those of a known dialect below a directory, in order, and
otherwise the input itself. -/
def filesOf (storage : Storage m) (input : Path) : ExceptT BatchError m (List Path) := do
  if ← storage.isDirectory input then
    match ← storage.filesBelow input with
    | .ok files => return (files.filter fun file => (Dialect.ofPath file).isOk).mergeSort Path.le
    | .error error => throw (.storage error)
  else
    return [input]

/-- Each path once, where it occurs first. -/
def firstOccurrences : List Path → List Path
  | [] => []
  | path :: rest => path :: (firstOccurrences rest).filter (· ≠ path)

/-- The files that inputs stand for in normal form, without repetition. -/
def expand (storage : Storage m) (inputs : List Path) : ExceptT BatchError m (List Path) := do
  let files ← inputs.mapM (filesOf storage)
  return firstOccurrences (files.flatten.map Path.normalize)

/-- Adds a file to a plan unless another one goes to the same output. -/
def assign (b : Batch) (plan : List Assignment) (input : Path) :
    Except BatchError (List Assignment) :=
  let output := input.target b.outdir b.extension
  match plan.find? (·.output == output) with
  | some first => .error (.duplicateOutput first.input input output)
  | none => .ok (plan ++ [⟨input, output⟩])

/-- The plan for a list of files, of which there must be one. -/
def planFor (b : Batch) (files : List Path) : Except BatchError (List Assignment) :=
  if files.isEmpty then .error .noInputs else files.foldlM b.assign []

def plan (b : Batch) (storage : Storage m) : ExceptT BatchError m (List Assignment) := do
  let files ← expand storage b.inputs
  ExceptT.mk (pure (b.planFor files))

end Batch

end SqlFerry
