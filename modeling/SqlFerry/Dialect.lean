import SqlFerry.Path
import SqlFerry.Text.Case

/-! The dialects that can be read, and how files and people name them. -/
namespace SqlFerry

inductive Dialect where
  | tsql
deriving DecidableEq, Repr

namespace Dialect

def name : Dialect → String
  | tsql => "tsql"

/-- What is said of a name or an extension that stands for no dialect. -/
def unsupportedMessage (name : String) : String := "Unsupported dialect: " ++ name

/-- The dialect among `names`, or the text in lower case if it is none of them. -/
def among (names : List String) (text : String) : Except String Dialect :=
  let lower := Text.toLower text
  if names.contains lower then .ok tsql else .error lower

def ofName (text : String) : Except String Dialect :=
  among ["tsql", "t-sql", "mssql", "sqlserver"] text

/-- The dialect of files with an extension, whatever the dots in front of it. -/
def ofExtension (extension : String) : Except String Dialect :=
  among ["sql", "tsql"] (.ofList (Text.dropLeft (· == '.') extension.toList))

def ofPath (path : Path) : Except String Dialect := ofExtension (path.extension?.getD "")

end Dialect

end SqlFerry
