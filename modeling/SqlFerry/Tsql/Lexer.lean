import SqlFerry.ParseError
import SqlFerry.Token
import SqlFerry.Text.Letter
import SqlFerry.Tsql.Kind

/-! Tokens of T-SQL. The text is cut into pieces from left to right; a piece is a token or part of
a gap, where gaps hold blanks, line comments and block comments, which nest. Each piece is measured
by the number of characters that belong to it behind its first one, so the pieces cover the text
without loss by construction.

Words start with a letter or an underscore and go on with word characters; those on the list
`reserved` are keywords. A quote inside a string, or a closing delimiter inside a delimited name, is
written twice. Strings may run over several lines, delimited names may not. -/
namespace SqlFerry.Tsql

open Text

/-- Words that are never names. -/
def reserved : List String := [
  "ADD", "ALL", "ALTER", "AND", "ANY", "AS", "ASC", "BEGIN", "BETWEEN", "BREAK", "BY",
  "CASCADE", "CASE", "CHECK", "CLOSE", "COLLATE", "COLUMN", "COMMIT", "CONSTRAINT",
  "CONTINUE", "CONVERT", "CREATE", "CROSS", "CURSOR", "DEALLOCATE", "DECLARE", "DEFAULT",
  "DELETE", "DESC", "DISTINCT", "DROP", "ELSE", "END", "EXCEPT", "EXEC", "EXECUTE",
  "EXISTS", "FETCH", "FOR", "FOREIGN", "FROM", "FULL", "FUNCTION", "GOTO", "GRANT", "GROUP",
  "HAVING", "IDENTITY", "IF", "IN", "INDEX", "INNER", "INSERT", "INTERSECT", "INTO", "IS",
  "JOIN", "KEY", "LEFT", "LIKE", "MERGE", "NOT", "NULL", "OF", "OFF", "ON", "OPEN",
  "OPTION", "OR", "ORDER", "OUTER", "PERCENT", "PRIMARY", "PRINT", "PROC", "PROCEDURE",
  "RAISERROR", "REFERENCES", "RETURN", "RIGHT", "ROLLBACK", "SAVE", "SELECT", "SET",
  "TABLE", "THEN", "THROW", "TOP", "TRAN", "TRANSACTION", "TRUNCATE", "UNION", "UNIQUE",
  "UPDATE", "USE", "VALUES", "VIEW", "WAITFOR", "WHEN", "WHERE", "WHILE", "WITH"]

def isReserved (word : String) : Bool := reserved.any (sameWord word)

/-- Characters that separate tokens: blanks, line ends and the byte order mark. -/
def isGapChar (c : Char) : Bool :=
  c == ' ' || c == '\t' || c == '\r' || c == '\n' || c == '\ufeff'

/-- How many characters satisfy `p` before the first that does not. -/
def runLength (p : Char → Bool) (cs : List Char) : Nat := (cs.takeWhile p).length

/-- The length of the rest of a block comment in which `depth` comments are open. -/
def commentTail : Nat → List Char → Option Nat
  | 0, _ => some 0
  | _ + 1, [] => none
  | depth + 1, '/' :: '*' :: cs => (commentTail (depth + 2) cs).map (· + 2)
  | depth + 1, '*' :: '/' :: cs => (commentTail depth cs).map (· + 2)
  | depth + 1, _ :: cs => (commentTail (depth + 1) cs).map (· + 1)

/-- The length of the rest of a string literal, its closing quote included. -/
def stringTail : List Char → Option Nat
  | [] => none
  | '\'' :: '\'' :: cs => (stringTail cs).map (· + 2)
  | '\'' :: _ => some 1
  | _ :: cs => (stringTail cs).map (· + 1)

/-- The length of the rest of a delimited name, its closing delimiter included. -/
def delimitedTail (close : Char) : List Char → Option Nat
  | [] => none
  | [c] => if c == close then some 1 else none
  | c :: d :: cs =>
    if c == close then
      if d == close then (delimitedTail close cs).map (· + 2) else some 1
    else if c == '\n' then none
    else (delimitedTail close (d :: cs)).map (· + 1)

/-- The length of an exponent, or 0 where there is none. -/
def exponentLength : List Char → Nat
  | e :: sign :: cs =>
    if (e == 'e' || e == 'E') && (sign.isDigit || sign == '+' || sign == '-') then
      2 + runLength Char.isDigit cs
    else 0
  | _ => 0

/-- The length of digits with an optional exponent behind them. -/
def digitsLength (cs : List Char) : Nat :=
  let digits := runLength Char.isDigit cs
  digits + exponentLength (cs.drop digits)

/-- The length of the rest of a number whose first character is a digit. -/
def numberTail (cs : List Char) : Nat :=
  let digits := runLength Char.isDigit cs
  match cs.drop digits with
  | '.' :: rest => digits + 1 + digitsLength rest
  | rest => digits + exponentLength rest

/-- The kind of an operator or punctuation mark and how many characters belong to it behind the
first. -/
def operator (c : Char) (next : Option Char) : Except Fault (Kind × Nat) :=
  match c, next with
  | '<', some '>' | '!', some '=' => .ok (.notEquals, 1)
  | '<', some '=' | '!', some '>' => .ok (.lessEquals, 1)
  | '>', some '=' | '!', some '<' => .ok (.greaterEquals, 1)
  | '<', _ => .ok (.less, 0)
  | '>', _ => .ok (.greater, 0)
  | '=', _ => .ok (.equals, 0)
  | '(', _ => .ok (.leftParen, 0)
  | ')', _ => .ok (.rightParen, 0)
  | ',', _ => .ok (.comma, 0)
  | ';', _ => .ok (.semicolon, 0)
  | '.', _ => .ok (.dot, 0)
  | '+', _ => .ok (.plus, 0)
  | '-', _ => .ok (.minus, 0)
  | '*', _ => .ok (.star, 0)
  | '/', _ => .ok (.slash, 0)
  | '%', _ => .ok (.percent, 0)
  | '&', _ => .ok (.ampersand, 0)
  | '|', _ => .ok (.pipe, 0)
  | '^', _ => .ok (.caret, 0)
  | '~', _ => .ok (.tilde, 0)
  | other, _ => .error (.character other)

/-- A token whose end has to be found, else the text has a fault. -/
def endedBy (kind : Kind) (fault : Fault) : Option Nat → Except Fault (Kind × Nat)
  | some n => .ok (kind, n)
  | none => .error fault

/-- The variable behind an at sign, where a second one marks the variables of the system. -/
def variableTail (cs : List Char) : Except Fault (Kind × Nat) :=
  if cs.head? == some '@' then
    if cs.tail.head?.any isWordStart then
      .ok (.systemVariable, runLength isWordChar cs.tail + 1)
    else .error .noVariableName
  else if cs.head?.any isWordStart then
    .ok (.userVariable, runLength isWordChar cs)
  else .error .noVariableName

/-- The temporary table behind a number sign, which may stand more than once. -/
def tempTableTail (cs : List Char) : Except Fault (Kind × Nat) :=
  let hashes := runLength (· == '#') cs
  if (cs.drop hashes).head?.any isWordChar then
    .ok (.tempTable, hashes + runLength isWordChar (cs.drop hashes))
  else .error .noTableName

/-- The word that starts with `c`. -/
def word (c : Char) (cs : List Char) : Kind × Nat :=
  let n := runLength isWordChar cs
  (if isReserved (.ofList (c :: cs.take n)) then .keyword else .identifier, n)

/-- The kind of the token that starts with `c` and how many of the characters `cs` belong to it. -/
def tokenPiece (c : Char) (cs : List Char) : Except Fault (Kind × Nat) :=
  let next := cs.head?
  if c == '\'' then
    endedBy .stringLiteral .openString (stringTail cs)
  else if (c == 'N' || c == 'n') && next == some '\'' then
    endedBy .stringLiteral .openString ((stringTail cs.tail).map (· + 1))
  else if c == '[' then
    endedBy .quotedIdentifier .openBracket (delimitedTail ']' cs)
  else if c == '"' then
    endedBy .quotedIdentifier .openQuote (delimitedTail '"' cs)
  else if c == '@' then
    variableTail cs
  else if c == '#' then
    tempTableTail cs
  else if c == '0' && (next == some 'x' || next == some 'X') then
    .ok (.binaryLiteral, runLength isHexDigit cs.tail + 1)
  else if c.isDigit then
    .ok (.numberLiteral, numberTail cs)
  else if c == '.' && next.any Char.isDigit then
    .ok (.numberLiteral, digitsLength cs)
  else if isWordStart c then
    .ok (word c cs)
  else
    operator c next

/-- The kind of the token that starts with `c`, or none for part of a gap, and how many of the
characters `cs` belong to it. -/
def piece (c : Char) (cs : List Char) : Except Fault (Option Kind × Nat) :=
  if isGapChar c then
    .ok (none, 0)
  else if c == '-' && cs.head? == some '-' then
    .ok (none, runLength (· != '\n') cs)
  else if c == '/' && cs.head? == some '*' then
    match commentTail 1 cs.tail with
    | some n => .ok (none, n + 1)
    | none => .error .openComment
  else
    match tokenPiece c cs with
    | .ok (kind, n) => .ok (some kind, n)
    | .error fault => .error fault

/-- The tokens of a text that starts at `p`. -/
def lexFrom (p : Position) : List Char → Except ParseError (List (Token Kind))
  | [] => .ok []
  | c :: cs =>
    match piece c cs with
    | .error fault => .error ⟨p, fault⟩
    | .ok (kind?, n) =>
      let text := c :: cs.take n
      match lexFrom (p.advance text) (cs.drop n) with
      | .error e => .error e
      | .ok tokens =>
        match kind? with
        | none => .ok tokens
        | some kind => .ok (⟨kind, .ofList text, p.line, p.column⟩ :: tokens)
termination_by cs => cs.length
decreasing_by simp only [List.length_drop, List.length_cons]; omega

def lex (source : String) : Except ParseError (List (Token Kind)) :=
  lexFrom .origin source.toList

end SqlFerry.Tsql
