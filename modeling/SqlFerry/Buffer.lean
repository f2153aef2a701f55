import SqlFerry.LineNumber
import SqlFerry.Text.Pieces

/-! The lines of a text. A line may take up line ends while it is edited; `resplit` makes lines of
their own out of the pieces. -/
namespace SqlFerry

structure Buffer where
  lines : List String
deriving DecidableEq, Repr

namespace Buffer

/-- A line without a carriage return at its end. -/
def dropReturn (line : String) : String :=
  match line.toList.getLast? with
  | some '\r' => .ofList line.toList.dropLast
  | _ => line

def ofText (text : String) : Buffer := ⟨(Text.lines text).map dropReturn⟩

def lineCount (b : Buffer) : Nat := b.lines.length

def line (b : Buffer) (number : Nat) : Except EditError String := row b.lines number

/-- Changes a line. -/
def onLine (b : Buffer) (number : Nat) (f : String → String) : Except EditError Buffer := do
  let line ← b.line number
  return ⟨setRow b.lines number (f line)⟩

/-- Adds text at the end of a line. -/
def append (b : Buffer) (number : Nat) (text : String) : Except EditError Buffer :=
  b.onLine number (· ++ text)

def joined (b : Buffer) : String := Text.unlines b.lines

def resplit (b : Buffer) : List String := Text.lines b.joined

end Buffer

end SqlFerry
