import SqlFerry.Position

/-! Why a text cannot be read, and where. -/
namespace SqlFerry

inductive Fault where
  | openComment
  | openString
  | openBracket
  | openQuote
  | noVariableName
  | noTableName
  | character (c : Char)
  /-- The grammar did not find what it expected; `found` is missing at the end of the text. -/
  | grammar (expectation : String) (found : Option String)
  | tooDeep
deriving DecidableEq, Repr

def Fault.message : Fault → String
  | openComment => "unterminated block comment"
  | openString => "unterminated string literal"
  | openBracket => "unterminated bracketed identifier"
  | openQuote => "unterminated quoted identifier"
  | noVariableName => "expected a variable name after '@'"
  | noTableName => "expected a table name after '#'"
  | character c => s!"unexpected character '{c}'"
  | grammar expectation (some found) => s!"{expectation}, found '{found}'"
  | grammar expectation none => s!"{expectation}, found end of input"
  | tooDeep => "nested too deeply"

structure ParseError where
  position : Position
  fault : Fault
deriving DecidableEq, Repr

def ParseError.message (e : ParseError) : String :=
  s!"Parse error at {e.position.render}: {e.fault.message}"

end SqlFerry
