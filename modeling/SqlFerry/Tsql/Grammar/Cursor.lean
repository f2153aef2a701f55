import SqlFerry.ParseError
import SqlFerry.Tree.Builder
import SqlFerry.Tsql.Kind

/-! The state of reading tokens into a tree, and the questions that can be asked of it. -/
namespace SqlFerry.Tsql

structure Cursor where
  /-- The tokens still to be read. -/
  rest : List (Token Kind)
  /-- Where the last token that was read ends. -/
  last : Position := .origin
  builder : Builder Kind

namespace Cursor

/-- Moves the next token into the innermost open node; at the end of the tokens nothing happens. -/
def take (c : Cursor) : Cursor :=
  match c.rest with
  | [] => c
  | token :: rest => ⟨rest, token.stop, c.builder.token token⟩

def error (c : Cursor) (expectation : String) : ParseError :=
  match c.rest with
  | [] => ⟨c.last, .grammar expectation none⟩
  | token :: _ => ⟨token.start, .grammar expectation (some token.text)⟩

def startNode (c : Cursor) (kind : Kind) : Cursor :=
  { c with builder := c.builder.startNode kind }

def startNodeAt (c : Cursor) (mark : Checkpoint) (kind : Kind) : Cursor :=
  { c with builder := c.builder.startNodeAt mark kind }

def finishNode (c : Cursor) : Cursor := { c with builder := c.builder.finishNode.1 }

@[simp] theorem rest_startNode (c : Cursor) (kind : Kind) : (c.startNode kind).rest = c.rest := rfl

@[simp] theorem rest_startNodeAt (c : Cursor) (mark : Checkpoint) (kind : Kind) :
    (c.startNodeAt mark kind).rest = c.rest := rfl

@[simp] theorem rest_finishNode (c : Cursor) : c.finishNode.rest = c.rest := rfl

theorem rest_take (c : Cursor) : c.take.rest = c.rest.tail := by
  unfold take; split <;> simp_all

end Cursor

/-- A test on the tokens ahead. -/
inductive Look where
  /-- The token `n` places ahead has the kind. -/
  | kind (n : Nat) (kind : Kind)
  /-- The token `n` places ahead is a keyword or plain name that reads as the word. -/
  | word (n : Nat) (word : String)
  /-- The next token stands on the line where the last one ended. -/
  | sameLine
  /-- No token is left. -/
  | atEnd
  | not (l : Look)
  | and (l r : Look)
  | or (l r : Look)

namespace Look

instance : AndOp Look := ⟨and⟩
instance : OrOp Look := ⟨or⟩
instance : Complement Look := ⟨not⟩

def holds : Look → Cursor → Bool
  | kind n k, c => c.rest[n]?.any (·.kind == k)
  | word n w, c => c.rest[n]?.any fun t => t.kind.isWord && t.isWord w
  | sameLine, c => c.rest.head?.any (·.line == c.last.line)
  | atEnd, c => c.rest.isEmpty
  | not l, c => !l.holds c
  | and l r, c => l.holds c && r.holds c
  | or l r, c => l.holds c || r.holds c

/-- The next token has the kind. -/
def sees (k : Kind) : Look := kind 0 k

/-- The next token reads as the word. -/
def on (w : String) : Look := word 0 w

/-- One of the tests holds. -/
def any (looks : List Look) : Look := looks.foldr or (atEnd.and (not atEnd))

/-- The next token reads as one of the words. -/
def onAny (words : List String) : Look := any (words.map on)

/-- `l` if `test` holds and `r` if it does not. -/
def branch (test l r : Look) : Look := (test &&& l) ||| (~~~test &&& r)

end Look

end SqlFerry.Tsql
