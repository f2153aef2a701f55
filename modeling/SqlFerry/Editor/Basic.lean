import SqlFerry.Buffer
import SqlFerry.Ledger
import SqlFerry.Span
import SqlFerry.Tree.Basic

/-! A text under edit: its current lines, the shifts that lead from the columns of the unedited lines
to theirs, and the edits that were left out with the reason. Nodes and tokens come from a tree of the
unedited text; the editor tells what stands at their places now. -/
namespace SqlFerry

/-- Why something at a place was left as it is. -/
structure Diagnostic where
  /-- The stage that found it, once the stage is over. -/
  stage : String := ""
  line : Nat
  column : Nat
  message : String
deriving DecidableEq, Repr

structure Editor where
  buffer : Buffer
  ledger : Ledger
  diagnostics : List Diagnostic := []
deriving DecidableEq, Repr

namespace Editor

variable {κ : Type}

def ofLines (lines : List String) : Editor where
  buffer := ⟨lines⟩
  ledger := .ofLineCount lines.length

def ofText (text : String) : Editor := ofLines (Buffer.ofText text).lines

def texts (e : Editor) : List String := e.buffer.lines

/-- The current text cut into lines anew. -/
def contents (e : Editor) : List String := e.buffer.resplit

def line (e : Editor) (number : Nat) : Except EditError String := e.buffer.line number

/-- Where a position of the unedited text is now. -/
def resolve (e : Editor) (p : Position) : Position := ⟨p.line, e.ledger.resolve p.line p.column⟩

/-- The current text at a stretch of an unedited line. -/
def textAt (e : Editor) (line column length : Nat) : String :=
  match e.line line with
  | .ok current =>
    let start := Text.floorColumn current (e.ledger.resolve line column)
    let stop := Text.floorColumn current (e.ledger.resolve line (columnBehind column length))
    if start < stop then Text.slice current start stop else ""
  | .error _ => ""

/-- What stands now between two positions of the unedited text. -/
def textSpan (e : Editor) (start stop : Position) : String :=
  if start.line = stop.line then
    e.textAt start.line start.column (stop.column - start.column)
  else
    spanText e.texts start stop (fun line => Text.floorColumn line (e.resolve start).column)
      (fun line => Text.floorColumn line (e.resolve stop).column)

def textOfToken (e : Editor) (token : Token κ) : String := e.textSpan token.start token.stop

def textOf (e : Editor) (node : Node κ) : String := e.textSpan node.start node.stop

/-- What stands now between the end of one token and the start of another. -/
def textBetweenTokens (e : Editor) (first last : Token κ) : String :=
  e.textSpan first.stop last.start

/-- No edit has changed what stands at the node's place. -/
def isUntouched (e : Editor) (tree : Tree κ) (node : Node κ) : Bool :=
  tree.text node == e.textOf node

/-- The blanks at the start of the node's first line. -/
def indentationOf (e : Editor) (node : Node κ) : String :=
  ((row? e.texts node.start.line).map Text.indentation).getD ""

end Editor

end SqlFerry
