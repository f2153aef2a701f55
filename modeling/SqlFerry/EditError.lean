/-! Why an edit is refused: edits stay on one line of the buffer. -/
namespace SqlFerry

inductive EditError where
  | lineOutOfRange (line lineCount : Nat)
  | crossLineSpan (first last : Nat)
  | multiLineNode (kind range : String)
deriving DecidableEq, Repr

def EditError.message : EditError → String
  | lineOutOfRange line lineCount =>
    s!"Line {line} is out of range (buffer has {lineCount} lines)"
  | crossLineSpan first last => s!"Span from line {first} to line {last} crosses a line boundary"
  | multiLineNode kind range => s!"Cannot edit {kind} at {range}: node spans multiple lines"

end SqlFerry
