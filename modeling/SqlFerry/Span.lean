import SqlFerry.Position
import SqlFerry.Text.Column
import SqlFerry.Text.Pieces

/-! The text between two positions of a list of lines. -/
namespace SqlFerry

/-- The lines from number `first` up to number `last` with their numbers, as far as they exist.
There is no line 0, so nothing can be read from it on. -/
def numberedLines (lines : List String) (first last : Nat) : List (String × Nat) :=
  if first = 0 then [] else ((lines.zipIdx 1).drop (first - 1)).take (last + 1 - first)

/-- The text from `start` to `stop`, where `first` and `last` say at which column of the first and
of the last line it begins and ends. -/
def spanText (lines : List String) (start stop : Position) (first last : String → Nat)
    (piece : String → Nat → Nat → String := Text.slice) : String :=
  Text.unlines <| (numberedLines lines start.line stop.line).map fun (line, number) =>
    let left := if number = start.line then first line else 0
    let right := if number = stop.line then last line else Text.size line
    if left < right then piece line left right else ""

/-- The text between two positions. Columns past the end of a line stand for its end, and a piece
that would begin or end inside a character is left out. -/
def textBetween (lines : List String) (start stop : Position) : String :=
  spanText lines start stop (fun line => min start.column (Text.size line))
    (fun line => min stop.column (Text.size line))
    (fun line left right =>
      if Text.isBoundary line left && Text.isBoundary line right then
        Text.slice line left right
      else
        "")

end SqlFerry
