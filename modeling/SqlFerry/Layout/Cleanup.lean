import SqlFerry.Text.Ascii
import SqlFerry.Text.Case
import SqlFerry.Text.Pieces

/-! Tidying the lines of a converted text: nothing stands at the end of a line that cannot be seen,
a statement ends with one semicolon, batch separators go, and blank lines stand alone, between
other lines and not at the edge of a block. -/
namespace SqlFerry.Layout

open Text (isBlankLine)

/-- One semicolon for each run of them. -/
def collapseSemicolons : List Char → List Char
  | ';' :: ';' :: rest => collapseSemicolons (';' :: rest)
  | c :: rest => c :: collapseSemicolons rest
  | [] => []

/-- A line without blanks at its end and with single semicolons; one that holds only a semicolon
becomes empty. -/
def tidyLine (line : String) : String :=
  let tidy := String.ofList (collapseSemicolons (Text.trimRight line).toList)
  if Text.trim tidy = ";" then "" else tidy

/-- `GO`, perhaps with a count behind it, and nothing else. -/
def isBatchSeparator (line : String) : Bool :=
  match Text.words line with
  | [go] => Text.sameWord go "GO"
  | [go, count] => Text.sameWord go "GO" && count.toList.all Char.isDigit
  | _ => false

/-- The line in upper case, without the blanks around it. -/
def upperTrimmed (line : String) : List Char := (Text.toUpper (Text.trim line)).toList

/-- The line ends with a word that opens a block. -/
def opensBlock (line : String) : Bool :=
  ["THEN", "LOOP", "ELSE", "BEGIN"].any fun word =>
    upperTrimmed line == word.toList || (' ' :: word.toList).isSuffixOf (upperTrimmed line)

/-- The line starts with a word that closes a block. -/
def closesBlock (line : String) : Bool :=
  ["ELSE", "END", "EXCEPTION"].any fun word =>
    upperTrimmed line == word.toList || (word.toList ++ [' ']).isPrefixOf (upperTrimmed line) ||
      (word.toList ++ [';']).isPrefixOf (upperTrimmed line)

/-- Drops blank lines behind a line that opens a block and in front of one that closes a block;
`previous` is the last line before that is not blank. -/
def dropEdgeBlanks : Option String → List String → List String
  | _, [] => []
  | previous, line :: rest =>
    if isBlankLine line then
      if previous.any opensBlock || (rest.find? (!isBlankLine ·)).any closesBlock then
        dropEdgeBlanks previous rest
      else
        line :: dropEdgeBlanks previous rest
    else
      line :: dropEdgeBlanks (some line) rest

/-- One empty line for each run of blank lines between others, and none at the ends. -/
def collapseBlankRuns : List String → List String
  | [] => []
  | line :: rest =>
    if isBlankLine line then
      collapseBlankRuns rest
    else
      match collapseBlankRuns rest with
      | [] => [line]
      | more => if rest.head?.any isBlankLine then line :: "" :: more else line :: more

def cleanup (lines : List String) : List String :=
  collapseBlankRuns (dropEdgeBlanks none ((lines.map tidyLine).filter (!isBatchSeparator ·)))

end SqlFerry.Layout
