import SqlFerry.Proofs.Tsql.Steady

/-! What the rules of the grammar notice of changes behind them. The tables say for each rule what its
callers know and how many tokens it reads; that they are right is decided from the productions. By them
the rules which read no statements are steady in two settings: where statements that come later are
changed behind their first words, and where a semicolon or a closing parenthesis comes next. -/
namespace SqlFerry.Tsql

/-! How many tokens the rules read. -/

namespace Rule

/-- How many tokens are ahead wherever the rule is called. The callers have looked at them. -/
def awaits : Rule → Nat
  | setVariable | createTable | dropTable | tryCatch => 2
  | declare | setOption | createIndex | truncate | topClause | fromClause | tableHint | whereClause
  | orderByClause | insert | outputClause | update | delete | ifStatement | whileStatement | block
  | transaction | returnStatement | print | raiseError | execute | otherStatement | otherPart
  | nameOrCall | caseExpression | castExpression | convertExpression => 1
  | _ => 0

/-- How many tokens the rule reads at least, as far as it matters. -/
def least : Rule → Nat
  | compileUnit | statement | tableElement | tableConstraint | .alias | caseTail => 0
  | createTable | createIndex => 4
  | leaves | declare | declaration | setVariable | setOption | tableElements | dropTable | truncate
  | select | selectCore | topClause | fromClause | tableHint | joinClause | whereClause
  | orderByClause | insert | outputClause | valuesRow | update | updateAssignment | delete
  | print | raiseError | execute | comparisonTail | functionArguments | subquery | caseExpression
  | castExpression | convertExpression => 2
  | _ => 1

/-- The rules that come to the function `LEFT` or `RIGHT` if they are called at such a word. -/
def isSided : Rule → Bool
  | executeArgument | expression | conjunction | negation | comparison | additive | multiplicative
  | unary | primary => true
  | _ => false

end Rule

def sides : List String := ["LEFT", "RIGHT"]

/-- The next token is one of the words that are functions where an argument list follows. -/
def View.sided (v : View) : Bool :=
  match v.glimpse 0 with
  | .opener words => words == sides
  | _ => false

def View.atSide : View := ⟨[.opener sides], .free⟩

def Rule.budget : Budget Rule where
  needs := awaits
  least v rule := if v.sided && rule.isSided then 2 else rule.least

theorem production_least (rule : Rule) :
    rule.least ≤ (Grammar.production rule).least Rule.budget .blank rule.awaits := by
  cases rule <;> decide

theorem production_sided (rule : Rule) (isSided : rule.isSided = true) :
    2 ≤ (Grammar.production rule).least Rule.budget .atSide rule.awaits := by
  revert isSided
  cases rule <;> decide

theorem View.Shows.atSide {v : View} {s d : Place} (shows : v.Shows s d) (isSided : v.sided = true) :
    View.atSide.Shows s s := by
  refine ⟨fun n => ?_, rfl⟩
  cases n with
  | zero =>
    have first := shows.tokens 0
    unfold View.sided at isSided
    split at isSided
    · next words isOpener =>
      rw [isOpener, eq_of_beq isSided] at first
      exact ⟨rfl, first.2⟩
    · cases isSided
  | succ n => exact trivial

theorem RuleCourse.least_le {depth : Nat} {rule : Rule} {v : View} {s s' d : Place}
    {ys : List (Node Kind)} (course : RuleCourse depth rule s ys s') (shows : v.Shows s d)
    (enough : rule.awaits ≤ s.rest.length) :
    s'.rest.length + Rule.budget.least v rule ≤ s.rest.length := by
  induction depth generalizing rule v s s' d ys with
  | zero => exact course.elim
  | succ depth ih =>
    have called (name : Rule) (v : View) (s : Place) (ys : List (Node Kind)) (s' d : Place)
        (course : RuleCourse depth name s ys s') (shows : v.Shows s d)
        (enough : Rule.budget.needs name ≤ s.rest.length) :
        s'.rest.length + Rule.budget.least v name ≤ s.rest.length := ih course shows enough
    have forward (name : Rule) (s : Place) (ys : List (Node Kind)) (s' : Place)
        (course : RuleCourse depth name s ys s') : s'.rest <:+ s.rest := course.suffix
    change _ + (if v.sided && rule.isSided then 2 else rule.least) ≤ _
    split
    · next both =>
      obtain ⟨isSided, sidedRule⟩ := Bool.and_eq_true_iff.mp both
      have read := Course.least_le called forward course (shows.atSide isSided) enough
      have := production_sided rule sidedRule
      omega
    · have read := Course.least_le called forward course (View.shows_blank s) enough
      have := production_least rule
      omega

/-! Ways in which a text may go on. -/

/-- The words with which statements begin that may be changed behind their first word. -/
def heads : List String := ["RETURN", "BREAK", "CONTINUE", "SELECT", "INSERT", "UPDATE", "DELETE",
  "DECLARE", "SET", "CREATE", "ALTER", "DROP", "TRUNCATE", "PRINT", "RAISERROR", "EXEC", "EXECUTE",
  "IF", "WHILE"]

/-- The words that tests look for together with what stands behind them, where no statement begins. -/
def guards : List String := ["WITH", "NOT", "OVER", "LEFT", "RIGHT", "AS", "TABLE"]

/-- The kinds of tokens that are put behind parts of statements. -/
def closingKinds : List Kind := [.semicolon, .rightParen]

namespace Outlook

def far : Outlook := ⟨⟨[.same, .same, .same, .same], .free⟩, none⟩

/-- A statement that is changed begins behind `n` tokens. -/
def opening (n : Nat) : Outlook where
  view := ⟨List.replicate n .same ++ [.other guards], .free⟩
  within := some n

/-- The next token is of one of the kinds. -/
def closing (kinds : List Kind) : Outlook := ⟨⟨[.met kinds], .free⟩, some 0⟩

/-- A token of one of the kinds stands behind a token of which something is known and `n` others. -/
def headed (kinds : List Kind) (g : Glimpse) (n : Nat) : Outlook where
  view := ⟨g :: (List.replicate n .same ++ [.met kinds]), .free⟩
  within := some (n + 1)

end Outlook

namespace Rule

def isCompound : Rule → Bool
  | compileUnit | statement | statementBody | createProcedure | ifStatement | whileStatement | block
  | tryCatch => true
  | _ => false

/-- How many tokens have to be left in front of a token that closes when the rule is done, for the rules
that read parts of what is closed. -/
def owes : Rule → Option Nat
  | compileUnit | statement | statementBody | createProcedure | ifStatement | whileStatement | block
  | tryCatch | procedureOption | setOption | transaction | otherStatement | otherPart | caseTail => none
  | tableElement | columnDefinition | tableConstraint => some 1
  | _ => some 0

/-- The rules that read as before for a reason of their own: in a name two dots may follow one another, at
the end of a text the last part of a type and an option may be missing, and the options of an index go on
up to a semicolon. -/
def isLoose : Rule → Bool
  | qualifiedName | dataType | raiseError | createIndex => true
  | _ => false

end Rule

/-- Statements that come later are changed behind their first words. -/
def Setting.later : Setting Rule where
  outlooks := .far :: [0, 1, 2, 3].map .opening
  scope rule := if rule.isCompound then none else some 0
  ended := false

/-- A token of one of the kinds comes next. Of the next token it is known whether it is one of the words. -/
def Setting.closing (kinds : List Kind) (words : List String) : Setting Rule where
  outlooks := [.far, .closing kinds] ++ [0, 1, 2].flatMap fun n =>
    [.headed kinds (.opener words) n, .headed kinds (.other words) n, .headed kinds .named n]
  scope rule := if rule = .createIndex ∧ kinds ≠ [.semicolon] then none else rule.owes
  ended := true

theorem production_steady_later (rule : Rule) (plain : rule.isCompound = false) :
    (Grammar.production rule).steady Rule.budget .later Setting.later.outlooks rule.awaits 0 = true := by
  revert plain
  cases rule <;> decide

theorem production_steady_closing (rule : Rule) {o : Nat} (owes : rule.owes = some o)
    (tight : rule.isLoose = false) :
    (Grammar.production rule).steady Rule.budget (.closing closingKinds sides)
      (Setting.closing closingKinds sides).outlooks rule.awaits o = true := by
  have all : (rule.owes.all fun o => rule.isLoose ||
      (Grammar.production rule).steady Rule.budget (.closing closingKinds sides)
        (Setting.closing closingKinds sides).outlooks rule.awaits o) = true := by
    cases rule <;> decide
  simpa [owes, tight] using all

theorem createIndex_steady_semicolon :
    (Grammar.production .createIndex).steady Rule.budget (.closing [.semicolon] sides)
      (Setting.closing [.semicolon] sides).outlooks (Rule.awaits .createIndex) 0 = true := by
  decide

end SqlFerry.Tsql
