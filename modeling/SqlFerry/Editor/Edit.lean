import SqlFerry.Editor.Basic
import SqlFerry.Text.Blank
import SqlFerry.Text.Column
import SqlFerry.Text.Letter

/-! Edits change an editor or fail, and an edit that fails keeps what was done before. A line is edited
in two steps: its new text is written, and a shift is recorded for it, which can fail by itself.
Edits are given in columns of the unedited line. -/
namespace SqlFerry

abbrev Edit := EStateM EditError Editor

namespace Edit

variable {κ : Type}

/-- The current text of a line. -/
def lineAt (line : Nat) : Edit String := do
  MonadExcept.ofExcept ((← get).line line)

/-- Changes the text of a line, whose shift is recorded afterwards. -/
def rewriteLine (line : Nat) (f : String → String) : Edit Unit := do
  let buffer ← MonadExcept.ofExcept ((← get).buffer.onLine line f)
  modify fun e => { e with buffer }

def record (line reference : Nat) (delta : Int) : Edit Unit := do
  let ledger ← MonadExcept.ofExcept ((← get).ledger.record line reference delta)
  modify fun e => { e with ledger }

/-- Puts `text` in the place of the current columns from `start` to `stop`. -/
def splice (line start stop : Nat) (text : String) : Edit Unit := do
  rewriteLine line fun current => Text.splice current start stop text
  record line stop ((Text.size text : Int) - ((stop : Int) - start))

/-- The blank that stays where blanks are eaten: one space if two words would run together. -/
def gapBetween (before after : Option Char) : List Char :=
  if before.any Text.isWordChar && after.any Text.isWordChar then [' '] else []

/-- Eats the spaces and tabs at a current column and tells how many bytes went. -/
def eat (line column : Nat) : Edit Nat := do
  let current ← lineAt line
  let start := Text.floorColumn current column
  let before := Text.takeBytes start current.toList
  let behind := Text.dropBytes start current.toList
  let run := behind.takeWhile Text.isIndent
  let after := behind.dropWhile Text.isIndent
  let kept := gapBetween before.getLast? after.head?
  let removed := run.length - kept.length
  if removed = 0 then
    return 0
  else
    rewriteLine line fun _ => .ofList (before ++ kept ++ after)
    record line (start + run.length) (-removed)
    return removed

/-- Replaces `length` bytes at a column of the unedited line. The shift is put behind the replaced
text, and after that the blanks behind the new text may be eaten. -/
def replace (line column length : Nat) (text : String) (eats : Bool := false) : Edit Unit := do
  let current ← lineAt line
  let ledger := (← get).ledger
  let start := Text.floorColumn current (ledger.resolve line column)
  let stop := Text.floorColumn current (ledger.resolve line (columnBehind column length))
  splice line start (max start stop) text
  if eats then
    let _ ← eat line (start + Text.size text)

def insert (line column : Nat) (text : String) (eats : Bool := false) : Edit Unit :=
  replace line column 0 text eats

/-- Puts `indent` in front of every line from `first` to `last`. -/
def indentRegion (first last : Nat) (indent : String) : Edit Unit :=
  indentLines first (last + 1 - first)
where
  indentLines (line : Nat) : Nat → Edit Unit
    | 0 => return
    | n + 1 => do
      splice line 0 0 indent
      indentLines (line + 1) n

def replaceToken [ToString κ] (token : Token κ) (text : String) (eats : Bool := false) :
    Edit Unit :=
  if token.stop.line = token.line then
    replace token.line token.column token.size text eats
  else
    throw (.multiLineNode (toString token.kind) (Position.renderRange token.start token.stop))

def removeToken [ToString κ] (token : Token κ) (eats : Bool := true) : Edit Unit :=
  replaceToken token "" eats

/-- Replaces everything from the start of one token to the end of another. -/
def replaceTokens (first last : Token κ) (text : String) (eats : Bool := false) : Edit Unit :=
  if last.stop.line = first.line then
    replace first.line first.column (last.stop.column - first.column) text eats
  else
    throw (.crossLineSpan first.line last.stop.line)

/-- Removes what stands strictly between two tokens. -/
def removeBetween (first last : Token κ) (eats : Bool := false) : Edit Unit :=
  if first.stop.line = last.line then
    if first.stop.column < last.column then
      replace last.line first.stop.column (last.column - first.stop.column) "" eats
    else
      return
  else
    throw (.crossLineSpan first.stop.line last.line)

def insertBeforeToken (token : Token κ) (text : String) (eats : Bool := false) : Edit Unit :=
  insert token.line token.column text eats

def insertAfterToken (token : Token κ) (text : String) (eats : Bool := false) : Edit Unit :=
  insert token.stop.line token.stop.column text eats

def replaceNode [ToString κ] (node : Node κ) (text : String) (eats : Bool := false) : Edit Unit :=
  if node.isSingleLine then
    replaceTokens node.startToken node.stopToken text eats
  else
    throw (.multiLineNode (toString node.kind) node.range)

def insertBefore (node : Node κ) (text : String) (eats : Bool := false) : Edit Unit :=
  insertBeforeToken node.startToken text eats

def insertAfter (node : Node κ) (text : String) (eats : Bool := false) : Edit Unit :=
  insertAfterToken node.stopToken text eats

/-- Notes that something at the node is left as it is. -/
def skip (node : Node κ) (message : String) : Edit Unit :=
  modify fun e => { e with diagnostics := e.diagnostics ++
    [{ line := node.start.line, column := node.start.column, message }] }

/-- Replaces a node of the tree unless an earlier edit has changed its text. -/
def replaceUntouched [ToString κ] (tree : Tree κ) (node : Node κ) (text : String)
    (eats : Bool := false) : Edit Bool := do
  let e ← get
  if e.isUntouched tree node then
    replaceNode node text eats
    return true
  else
    skip node s!"expected '{tree.text node}' but found '{e.textOf node}'"
    return false

/-- Removes a leaf, or a rule that stands on one line, in one edit. -/
def removeWhole [ToString κ] (node : Node κ) : Edit Unit :=
  match node with
  | .leaf _ _ token => removeToken token
  | .rule _ _ _ _ => replaceNode node "" true

def removeFirstToken [ToString κ] (node : Node κ) : Edit Unit := removeToken node.startToken

/-! Edits token by token, for what may span lines. Only a token that itself spans lines cannot be
edited. -/

/-- Removes tokens one by one, each with the gap in front of it where it stands on one line with
the token before. -/
def removeFollowing [ToString κ] (before : Option (Token κ)) : List (Token κ) → Edit Unit
  | [] => return
  | token :: rest => do
    match before with
    | some previous =>
      if previous.stop.line = token.line ∧ token.stop.line = token.line then
        replace token.line previous.stop.column (token.stop.column - previous.stop.column) ""
      else
        removeToken token
    | none => removeToken token
    removeFollowing (some token) rest

/-- Removes a node together with the gap to the sibling before it. -/
def removeWithGap [ToString κ] (site : Site κ) : Edit Unit :=
  removeFollowing (site.before.map (·.stopToken)) site.node.tokens

/-- Removes the tokens of a node and the blanks behind each. -/
def removeTokens [ToString κ] (node : Node κ) : Edit Unit :=
  node.tokens.forM (removeToken ·)

/-- Puts `text` in the place of the first token and removes the others. -/
def replaceTokenwise [ToString κ] (node : Node κ) (text : String) : Edit Unit :=
  match node.tokens with
  | [] => return
  | first :: rest => do
    replaceToken first text
    removeFollowing (some first) rest

/-- Removes a whole statement, in one edit if it stands on one line. -/
def removeStatement [ToString κ] (node : Node κ) : Edit Unit :=
  if node.isSingleLine then replaceNode node "" true else removeTokens node

end Edit

end SqlFerry
