import SqlFerry.Text.Blank

/-! Indentation of lines. -/
namespace SqlFerry.Layout

open Text (isBlankLine indentation)

inductive IndentStyle where
  | tabs
  | spaces (n : Nat)
deriving DecidableEq, Repr

/-- One level of indentation. -/
def IndentStyle.unit : IndentStyle → String
  | tabs => "\t"
  | spaces n => .ofList (List.replicate n ' ')

def leadingSpaces (line : String) : Nat := (line.toList.takeWhile (· == ' ')).length

/-- What two adjacent lines say about the style: a tab, a number of spaces, or nothing. -/
def indentVote (line next : String) : Option IndentStyle :=
  if isBlankLine next then
    none
  else if next.toList.head? = some '\t' then
    some .tabs
  else
    let step :=
      (leadingSpaces next - leadingSpaces line) + (leadingSpaces line - leadingSpaces next)
    if 1 ≤ step ∧ step ≤ 8 then some (.spaces step) else none

/-- The most frequent step of the spaces, the largest of several. -/
def commonStep (votes : List IndentStyle) : Nat :=
  let count n := votes.count (.spaces n)
  [2, 3, 4, 5, 6, 7, 8].foldl (fun best n => if count best ≤ count n then n else best) 1

/-- The style that most of the first two hundred pairs of adjacent lines vote for. Tabs win a
tie. -/
def indentStyle (lines : List String) : IndentStyle :=
  let votes := ((lines.zip lines.tail).take 200).filterMap fun (line, next) => indentVote line next
  let tabs := votes.count .tabs
  if votes.length - tabs ≤ tabs then .tabs else .spaces (commonStep votes)

/-- What two texts have in common at their start. -/
def commonStart : List Char → List Char → List Char
  | a :: as, b :: bs => if a = b then a :: commonStart as bs else []
  | _, _ => []

/-- The indentation that all lines share which are not blank. -/
def commonIndent (lines : List String) : List Char :=
  match (lines.filter (!isBlankLine ·)).map fun line => (indentation line).toList with
  | [] => []
  | first :: rest => rest.foldl commonStart first

/-- The lines without the indentation that they share; blank lines become empty. -/
def dedent (lines : List String) : List String :=
  let width := (commonIndent lines).length
  lines.map fun line => if isBlankLine line then "" else .ofList (line.toList.drop width)

end SqlFerry.Layout
