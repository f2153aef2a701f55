import SqlFerry.Stage
import SqlFerry.Storage

/-! What can go wrong in a batch of conversions. -/
namespace SqlFerry

inductive BatchError where
  | noInputs
  | duplicateOutput (first second output : Path)
  | storage (error : StorageError)
  | conversion (error : StageError)
  | tokens (error : ParseError)
deriving DecidableEq, Repr

namespace BatchError

def message : BatchError → String
  | noInputs => "No input files given"
  | duplicateOutput first second output =>
    s!"Inputs {first.text} and {second.text} would both write {output.text}"
  | storage error => error.message
  | conversion error => error.message
  | tokens error => s!"Tokenizing failed: {error.message}"

/-- The part of the work in which the error arises. -/
def phase : BatchError → String
  | noInputs | duplicateOutput _ _ _ => "validate"
  | storage (.read _ _) => "read"
  | storage _ => "write"
  | conversion (.unreadable _ _) => "parse"
  | conversion (.failed _ _) => "rewrite"
  | tokens _ => "tokenize"

end BatchError

end SqlFerry
