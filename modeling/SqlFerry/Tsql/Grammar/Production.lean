import SqlFerry.Tsql.Grammar.Cursor

/-! Productions say how a rule of the grammar reads tokens. They choose by looking ahead and never
go back, so reading a token is final. `group` remembers the place where it starts, and `adopt` wraps
what has been read since that place into a node, which makes binary operators nest to the left. -/
namespace SqlFerry.Tsql

/-- How a rule reads tokens, over the names `ρ` of rules. -/
inductive Production (ρ : Type) where
  | done
  | take
  | fail (expectation : String)
  | seq (p q : Production ρ)
  | branch (test : Look) (p q : Production ρ)
  | loop (test : Look) (p : Production ρ)
  | node (kind : Kind) (p : Production ρ)
  | group (p : Production ρ)
  | adopt (kind : Kind) (p : Production ρ)
  | rule (name : ρ)

/-- Repeats `step` while `test` holds, at most once for each of some tokens. -/
def iterate (test : Look) (step : Cursor → Except ParseError Cursor) :
    List (Token Kind) → Cursor → Except ParseError Cursor
  | [], c => .ok c
  | _ :: rest, c => if test.holds c then step c >>= iterate test step rest else .ok c

namespace Production

variable {ρ : Type}

/-- Runs a production, where `call` runs the rules it names. Every round of a loop reads a token,
so a loop has at most as many rounds as there are tokens left. -/
def exec (call : ρ → Cursor → Except ParseError Cursor) :
    Production ρ → Checkpoint → Cursor → Except ParseError Cursor
  | done, _, c => .ok c
  | take, _, c => .ok c.take
  | fail expectation, _, c => .error (c.error expectation)
  | seq p q, mark, c => p.exec call mark c >>= q.exec call mark
  | branch test p q, mark, c => if test.holds c then p.exec call mark c else q.exec call mark c
  | loop test p, mark, c => iterate test (p.exec call mark) c.rest c
  | node kind p, _, c => Cursor.finishNode <$> p.exec call ⟨0⟩ (c.startNode kind)
  | group p, _, c => p.exec call c.builder.checkpoint c
  | adopt kind p, mark, c => Cursor.finishNode <$> p.exec call ⟨0⟩ (c.startNodeAt mark kind)
  | rule name, _, c => call name c

def steps (ps : List (Production ρ)) : Production ρ := ps.foldr seq done

/-- Runs `p` only if the test holds. -/
def whenever (test : Look) (p : Production ρ) : Production ρ := branch test p done

/-- Runs `p` only if the test fails. -/
def ifNot (test : Look) (p : Production ρ) : Production ρ := branch test done p

/-- The first production whose test holds. -/
def choose (choices : List (Look × Production ρ)) (otherwise : Production ρ) : Production ρ :=
  choices.foldr (fun choice rest => branch choice.1 choice.2 rest) otherwise

/-- Reads the next token if it is the word. -/
def skim (word : String) : Production ρ := whenever (.on word) take

/-- Reads the first of the words that stands next, if one does. -/
def skimAny (words : List String) : Production ρ := whenever (.onAny words) take

def expect (kind : Kind) (what : String) : Production ρ :=
  branch (.sees kind) take (fail s!"expected {what}")

def expectWord (word : String) : Production ρ := branch (.on word) take (fail s!"expected {word}")

/-- One or more items with commas between them. -/
def list (item : Production ρ) : Production ρ :=
  seq item (loop (.sees .comma) (seq take item))

end Production

end SqlFerry.Tsql
