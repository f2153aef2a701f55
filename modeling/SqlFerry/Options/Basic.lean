import SqlFerry.Table
import SqlFerry.Text.Case

/-! Settings of a conversion. -/
namespace SqlFerry

/-- How the first character of a name is cased behind the prefix of the name. -/
inductive Capitalization where
  | pascal
  | camel
  | none
deriving DecidableEq, Repr

/-- What a call of a function becomes. -/
structure FunctionRename where
  target : String
  /-- The target stands for the whole call and not only for the name. -/
  dropsArguments : Bool := false
deriving DecidableEq, Repr

structure Options where
  parameterPrefix : String := "_p"
  variablePrefix : String := "_v"
  tempTablePrefix : String := "_tmp"
  capitalization : Capitalization := .pascal
  /-- One level of indentation in the body of a function. -/
  indent : String := "\t"
  /-- Functions by their names in lower case. -/
  functions : Table FunctionRename := [
    ("getdate", ⟨"now()", true⟩),
    ("sysdatetime", ⟨"now()", true⟩),
    ("getutcdate", ⟨"(now() AT TIME ZONE 'utc')", true⟩),
    ("scope_identity", ⟨"lastval()", true⟩),
    ("newid", ⟨"gen_random_uuid()", true⟩),
    ("error_number", ⟨"SQLSTATE", true⟩),
    ("error_message", ⟨"SQLERRM", true⟩),
    ("isnull", ⟨"coalesce", false⟩),
    ("len", ⟨"length", false⟩)]
  /-- Types by their names in lower case. -/
  types : Table String := [
    ("bit", "boolean"),
    ("datetime", "timestamp"),
    ("datetime2", "timestamp"),
    ("smalldatetime", "timestamp"),
    ("datetimeoffset", "timestamptz"),
    ("nvarchar", "varchar"),
    ("nchar", "char"),
    ("ntext", "text"),
    ("sysname", "text"),
    ("tinyint", "smallint"),
    ("money", "numeric(19,4)"),
    ("smallmoney", "numeric(10,4)"),
    ("float", "double precision"),
    ("uniqueidentifier", "uuid"),
    ("varbinary", "bytea"),
    ("image", "bytea")]
  /-- System variables by their names in lower case. -/
  systemVariables : Table String := [
    ("@@identity", "lastval()"),
    ("@@spid", "pg_backend_pid()"),
    ("@@version", "version()")]
  /-- The result type of a function that returns nothing. -/
  defaultReturnType : String := "void"
deriving DecidableEq, Repr

namespace Options

def function? (options : Options) (name : String) : Option FunctionRename :=
  options.functions.find? (Text.toLower name)

def systemVariable? (options : Options) (name : String) : Option String :=
  options.systemVariables.find? (Text.toLower name)

end Options

end SqlFerry
