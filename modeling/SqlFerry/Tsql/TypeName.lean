import SqlFerry.Naming
import SqlFerry.Text.Ascii
import SqlFerry.Text.Pieces

/-! Names of T-SQL data types with their arguments, the families of types that inference tells
apart, and the types of PostgreSQL that stand for them. -/
namespace SqlFerry.Tsql

structure TypeName where
  /-- The name with its qualifiers, without delimiters. -/
  name : String
  /-- What stands between the parentheses. -/
  arguments : Option String := none
deriving DecidableEq, Repr

namespace TypeName

/-- The characters before the first `c` and those behind it. -/
def cutAtFirst (c : Char) (cs : List Char) : Option (List Char × List Char) :=
  match cs.dropWhile (· != c) with
  | [] => none
  | _ :: rest => some (cs.takeWhile (· != c), rest)

/-- The characters before the last `c`. -/
def beforeLast (c : Char) (cs : List Char) : Option (List Char) :=
  match cs.reverse.dropWhile (· != c) with
  | [] => none
  | _ :: rest => some rest.reverse

/-- A text without the double quotes at its ends. -/
def dropQuotes (s : String) : String :=
  .ofList (Text.dropRight (· == '"') (Text.dropLeft (· == '"') s.toList))

def undelimited (name : String) : String :=
  Text.join "." ((Text.splitOn '.' name).map fun part => dropQuotes (unbracket (Text.trim part)))

/-- Splits a type at its first opening and its last closing parenthesis. -/
def ofText (text : String) : TypeName :=
  let whole := Text.trim text
  match cutAtFirst '(' whole.toList with
  | none => ⟨undelimited whole, none⟩
  | some (name, rest) =>
    match beforeLast ')' rest with
    | none => ⟨undelimited whole, none⟩
    | some arguments =>
      ⟨undelimited (Text.trim (.ofList name)), some (Text.trim (.ofList arguments))⟩

/-- The last part of the name in lower case. -/
def baseName (t : TypeName) : String :=
  Text.toLower (((Text.splitOn '.' t.name).getLast?).getD "")

end TypeName

/-- Families of types. -/
inductive Family where
  | text
  | integer
  | numeric
  | boolean
  | timestamp
  | unknown
deriving DecidableEq, Repr

namespace Family

def ofTypeName (text : String) : Family :=
  match (TypeName.ofText text).baseName with
  | "char" | "varchar" | "nchar" | "nvarchar" | "text" | "ntext" | "sysname" | "xml" => .text
  | "int" | "bigint" | "smallint" | "tinyint" => .integer
  | "decimal" | "numeric" | "money" | "smallmoney" | "float" | "real" => .numeric
  | "bit" => .boolean
  | "date" | "datetime" | "datetime2" | "smalldatetime" | "datetimeoffset" | "time" => .timestamp
  | _ => .unknown

/-- The type of PostgreSQL that a result of the family has. -/
def resultType? : Family → Option String
  | text => some "text"
  | integer => some "int"
  | numeric => some "numeric"
  | boolean => some "boolean"
  | timestamp => some "timestamp"
  | unknown => none

/-- The family of an arithmetic result. -/
def widen : Family → Family → Family
  | text, _ | _, text => text
  | timestamp, _ | _, timestamp => timestamp
  | numeric, _ | _, numeric => numeric
  | integer, _ | _, integer => integer
  | _, _ => unknown

end Family

/-- The types of PostgreSQL that take a length or a precision. -/
def takesArguments (type : String) : Bool :=
  ["varchar", "char", "character", "character varying", "numeric", "decimal"].contains
    (Text.toLower type)

/-- The type of PostgreSQL for a type of T-SQL. A length of `max` gives a type without length. -/
def targetType (options : Options) (text : String) : String :=
  let type := TypeName.ofText text
  let key := Text.toLower type.name
  let mapped := options.types.find? key
  let base := mapped.getD type.name
  match type.arguments with
  | none => base
  | some arguments =>
    if Text.sameWord arguments "max" then
      if key == "varbinary" || key == "binary" then "bytea" else "text"
    else if mapped.isNone || takesArguments base then
      base ++ "(" ++ Text.join "," ((Text.splitOn ',' arguments).map Text.trim) ++ ")"
    else
      base

end SqlFerry.Tsql
