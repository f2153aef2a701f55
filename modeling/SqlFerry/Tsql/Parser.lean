import SqlFerry.Tsql.Grammar.Rules
import SqlFerry.Tsql.Lexer

/-! Reading T-SQL into a tree. -/
namespace SqlFerry.Tsql

/-- Reads by a rule, with at most `depth` rules one inside the other. -/
def readRule : Nat → Rule → Cursor → Except ParseError Cursor
  | 0, _, c => .error ⟨c.last, .tooDeep⟩
  | depth + 1, rule, c => (Grammar.production rule).exec (readRule depth) ⟨0⟩ c

/-- No rule comes back to itself without having read a token, so between two tokens at most one
rule of each name is under way. -/
def depthFor (tokens : List (Token Kind)) : Nat := 80 * (tokens.length + 1)

def parseTokens (source : String) (tokens : List (Token Kind)) :
    Except ParseError (Tree Kind) := do
  let start : Cursor := { rest := tokens, builder := .ofText source }
  let stop ← readRule (depthFor tokens) .compileUnit start
  return stop.builder.finish

/-- The tree of a text. A text without tokens has no root. -/
def parse (source : String) : Except ParseError (Tree Kind) := do
  parseTokens source (← lex source)

end SqlFerry.Tsql
