import SqlFerry.Pass.Declarations
import SqlFerry.Pass.Names
import SqlFerry.Pass.Parentheses
import SqlFerry.Pass.Terminator
import SqlFerry.Plpgsql.Converter
import SqlFerry.Stage

/-! Converting a text by passes that are chosen by name. -/
namespace SqlFerry

inductive PassName where
  | parenthesisRepair
  | variableNames
  | tableNames
  | singleDeclarations
  | statementTerminator
  | plpgsql
deriving DecidableEq, Repr

namespace PassName

def all : List PassName := [
  parenthesisRepair, variableNames, tableNames, singleDeclarations, statementTerminator, plpgsql]

def name : PassName → String
  | parenthesisRepair => "parenthetical-repair"
  | variableNames => "variable-names"
  | tableNames => "table-names"
  | singleDeclarations => "single-line-declaration"
  | statementTerminator => "statement-terminator"
  | plpgsql => "pgsql"

/-- Names are read without regard to case and to the blanks around them. -/
def ofText? (text : String) : Option PassName :=
  all.find? (·.name == Text.toLower (Text.trim text))

/-- What a text says that names no pass. -/
def unknownMessage (text : String) : String := "Unknown pass: " ++ text

def pass (options : Options) : PassName → Pass
  | parenthesisRepair => .parenthesisRepair
  | variableNames => .variableNames options
  | tableNames => .tableNames options
  | singleDeclarations => .singleDeclarations
  | statementTerminator => .statementTerminator
  | plpgsql => .plpgsql options

/-- The passes of a whole conversion. -/
def standard : List PassName := [
  parenthesisRepair, singleDeclarations, statementTerminator, plpgsql]

end PassName

/-- A converted text with what was found on the way. -/
structure Conversion where
  lines : List String
  diagnostics : List Diagnostic
  reports : List StageReport
deriving DecidableEq, Repr

def Conversion.text (c : Conversion) : String := Text.unlines c.lines

/-- Converts a text by some passes in order. -/
def convertWith (passes : List PassName) (options : Options) (text : String) :
    Except StageError Conversion := do
  let session ← (Session.ofText text).run (passes.map (·.pass options))
  return ⟨session.contents, session.diagnostics, session.reports⟩

def convert (options : Options) (text : String) : Except StageError Conversion :=
  convertWith PassName.standard options text

end SqlFerry
