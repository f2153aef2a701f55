import SqlFerry.Batch.Report
import SqlFerry.CommandLine.Arguments
import SqlFerry.Json.Writer
import SqlFerry.Options.Reader

/-! The command: it converts the files that its arguments name and says what became of them. -/
namespace SqlFerry.Command

/-- What the command leaves behind, apart from files. -/
structure Output where
  exitCode : Nat
  stdout : String := ""
  stderr : String := ""
deriving DecidableEq, Repr

def programName : String := "tsql2pg"

def helpText : String := Text.unlines [
  "Convert T-SQL stored procedures to PL/pgSQL functions",
  "",
  "Usage: " ++ programName ++ " [OPTIONS] <FILES>...",
  "",
  "Arguments:",
  "  <FILES>...  Files or directories; directories are searched for .sql files",
  "",
  "Options:",
  "      --threads <THREADS>      Worker threads (0 = one per CPU) [default: 0]",
  "      --outdir <OUTDIR>        Directory converted files are written to [default: .]",
  "      --extension <EXTENSION>  Extension of converted files [default: .pgsql]",
  "      --echo                   Print converted output to stdout",
  "      --tokens                 Print each file's token stream instead of converting",
  "      --passes <PASSES>        Passes to run, comma separated",
  "      --config <CONFIG>        JSON file with conversion options",
  "      --json                   Print the batch report as JSON",
  "  -v, --verbose...             More logging (-v info, -vv debug)",
  "  -h, --help                   Print help",
  ""]

def refusal (message : String) : Output :=
  { exitCode := 2, stderr := programName ++ ": " ++ message ++ "\n" }

def usage (error : UsageError) : Output :=
  { exitCode := 2, stderr := "error: " ++ error.message ++ "\n" }

/-- A rendered file under its name, with one end of line behind it. -/
def echoed (path : Path) (rendered : Rendered) : String :=
  let text := String.ofList (Text.dropRight (· == '\n') rendered.text.toList)
  s!"-- {path.text}\n{text}\n"

def output (a : Arguments) (rendered : List (Path × Rendered)) (report : BatchReport) : Output :=
  let echo := if a.echo || a.tokens then
      String.join (rendered.map fun (path, rendered) => echoed path rendered)
    else
      ""
  let exitCode := if report.failures.isEmpty then 0 else 1
  if a.json then
    { exitCode, stdout := echo ++ report.toJson.render ++ "\n" }
  else
    { exitCode, stdout := echo, stderr := String.join (report.lines.map (· ++ "\n")) }

variable {m : Type → Type} [Monad m]

def options (storage : Storage m) : Option Path → m (Except String Options)
  | none => return .ok {}
  | some path => do
    match ← storage.read path with
    | .error cause => return .error s!"Failed to read config {path.text}: {cause.message}"
    | .ok text =>
      match Options.read? text with
      | some options => return .ok options
      | none => return .error s!"Invalid config {path.text}"

def runWith (a : Arguments) (storage : Storage m) : m Output := do
  match ← options storage a.config? with
  | .error message => return refusal message
  | .ok options =>
    let batch := a.batch options
    match ← (batch.plan storage).run with
    | .error error => return refusal error.message
    | .ok plan =>
      let job ← (Job.ofPlan plan).convert batch storage
      let rendered := job.rendered
      return output a rendered (.ofJob (← job.write batch storage))

def run (arguments : List String) (storage : Storage m) : m Output := do
  match Arguments.read? arguments with
  | .error error => return usage error
  | .ok none => return { exitCode := 0, stdout := helpText }
  | .ok (some a) => runWith a storage

end SqlFerry.Command
