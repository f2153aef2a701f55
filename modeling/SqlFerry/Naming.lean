import SqlFerry.Options.Basic
import SqlFerry.Text.Blank

/-! Names in the converted text. -/
namespace SqlFerry

/-- A name with its first character cased by the style. -/
def styled (name : String) (style : Capitalization) : String :=
  match name.toList with
  | [] => ""
  | first :: rest =>
    let head := match style with
      | .pascal => Text.upperChar first
      | .camel => Text.lowerChar first
      | .none => [first]
    .ofList (head ++ rest)

/-- A name without the characters `mark` in front of it. -/
def dropMarks (mark : Char) (name : String) : String := .ofList (name.toList.dropWhile (· == mark))

/-- The name of a variable or of a parameter: `@count` gives `_vCount` or `_pCount`. -/
def variableName (options : Options) (isParameter : Bool) (name : String) : String :=
  (if isParameter then options.parameterPrefix else options.variablePrefix) ++
    styled (dropMarks '@' name) options.capitalization

/-- The name of a temporary table: `#orders` and `##orders` give `_tmpOrders`. -/
def tempTableName (options : Options) (name : String) : String :=
  options.tempTablePrefix ++ styled (dropMarks '#' name) options.capitalization

/-- A letter or underscore with letters, digits and underscores behind it, all in ASCII. -/
def isPlainName : List Char → Bool
  | [] => false
  | first :: rest =>
    (first.isAlpha || first == '_') && rest.all fun c => c.isAlphanum || c == '_'

/-- Brackets inside a bracketed name, where a closing one is written twice. -/
def undoubleBrackets : List Char → List Char
  | ']' :: ']' :: rest => ']' :: undoubleBrackets rest
  | c :: rest => c :: undoubleBrackets rest
  | [] => []

def doubleQuotes (cs : List Char) : List Char :=
  cs.flatMap fun c => if c == '"' then [c, c] else [c]

/-- What stands between brackets around the whole text. -/
def bracketed? (cs : List Char) : Option (List Char) :=
  match cs with
  | '[' :: rest => if rest.getLast? = some ']' then some rest.dropLast else none
  | _ => none

/-- A bracketed name without brackets, in double quotes where it is not plain; any other text as it
is. -/
def unbracket (text : String) : String :=
  match bracketed? text.toList with
  | none => text
  | some inner =>
    let name := undoubleBrackets inner
    .ofList (if isPlainName name then name else '"' :: doubleQuotes name ++ ['"'])

end SqlFerry
