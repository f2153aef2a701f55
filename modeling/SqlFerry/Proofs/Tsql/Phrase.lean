import SqlFerry.Proofs.Text.Ascii
import SqlFerry.Proofs.Tsql.Reading

/-! The grammar of operators. A phrase is a derivation in it: its levels are those of the grammar's
nonterminals, from disjunctions down to atoms, and its leaves are lexemes. Derivations say which tokens
stand in an expression and which tree it stands for, where the steps from one level to the next leave
no node. -/
namespace SqlFerry.Tsql

/-- A text that is read as one token. -/
structure Lexeme where
  kind : Kind
  text : String
  lexes : lex text = .ok [⟨kind, text, 1, 0⟩]

namespace Lexeme

def face (l : Lexeme) : Kind × String := (l.kind, l.text)

def leaf (l : Lexeme) : Shape Kind := .leaf l.kind l.text

theorem standalone (l : Lexeme) : Standalone l.kind l.text :=
  standalone_of_lexFrom l.lexes _ (List.mem_singleton_self _)

theorem isReserved_eq_false (l : Lexeme) (name : l.kind = .identifier) :
    isReserved l.text = false :=
  (name ▸ l.standalone).isReserved

end Lexeme

/-- Lexemes that are written with single blanks between them are read again. -/
theorem lex_spaced (lexemes : List Lexeme) :
    ∃ tokens, lex (" ".intercalate (lexemes.map Lexeme.text)) = .ok tokens ∧
      tokens.map face = lexemes.map Lexeme.face := by
  have alone : ∀ face ∈ lexemes.map Lexeme.face, Standalone face.1 face.2 := by
    intro face member
    obtain ⟨l, -, rfl⟩ := List.mem_map.mp member
    exact l.standalone
  obtain ⟨tokens, lexed, same⟩ := lexFrom_spaced .origin alone
  refine ⟨tokens, ?_, same⟩
  rw [lex, String.toList_intercalate]
  simpa [List.map_map, Function.comp_def, Lexeme.face] using lexed

/-- A lexeme that passes a test. -/
abbrev Terminal (test : Lexeme → Bool) : Type := { l : Lexeme // test l = true }

/-- The lexemes of a terminal that may be left out. -/
def optional {test : Lexeme → Bool} (terminal : Option (Terminal test)) : List Lexeme :=
  (terminal.map (·.1)).toList

/-- A word of the language, in capitals or not. -/
abbrev Word (w : String) : Type := Terminal fun l => l.kind.isWord && Text.sameWord l.text w

abbrev Mark (kinds : List Kind) : Type := Terminal fun l => kinds.contains l.kind

/-- The levels on which operators stand between operands and nest to the left. -/
inductive Chain where
  | disjunction | conjunction | sum | product

inductive Level where
  | chain (chain : Chain)
  | negation | comparison | unary | atom
  /-- What follows the left side and `NOT` in tests that have a name. -/
  | tail
  /-- The list in a membership test. -/
  | items

/-- The levels whose phrases are expressions. -/
def Level.isExpression : Level → Bool
  | tail | items => false
  | _ => true

abbrev Level.disjunction : Level := .chain .disjunction

abbrev Level.sum : Level := .chain .sum

namespace Chain

def operand : Chain → Level
  | disjunction => .chain .conjunction
  | conjunction => .negation
  | sum => .chain .product
  | product => .unary

def node : Chain → Kind
  | disjunction => .orExpression
  | conjunction => .andExpression
  | sum => .additiveExpression
  | product => .multiplicativeExpression

def additive : List Kind := [.plus, .minus, .ampersand, .pipe, .caret]

def multiplicative : List Kind := [.star, .slash, .percent]

def Operator : Chain → Type
  | disjunction => Word "OR"
  | conjunction => Word "AND"
  | sum => Mark additive
  | product => Mark multiplicative

def Operator.lexeme : {chain : Chain} → chain.Operator → Lexeme
  | disjunction, op | conjunction, op | sum, op | product, op => op.1

end Chain

/-- The derivations of the operator grammar. -/
inductive Phrase : Level → Type where
  | binary {chain : Chain} (left : Phrase (.chain chain)) (op : chain.Operator)
      (right : Phrase chain.operand) : Phrase (.chain chain)
  | operand {chain : Chain} (e : Phrase chain.operand) : Phrase (.chain chain)
  | not (word : Word "NOT") (e : Phrase .negation) : Phrase .negation
  | positive (e : Phrase .comparison) : Phrase .negation
  | plain (e : Phrase .sum) : Phrase .comparison
  | compare (left : Phrase .sum)
      (op : Mark [.equals, .notEquals, .less, .greater, .lessEquals, .greaterEquals])
      (right : Phrase .sum) : Phrase .comparison
  | test (left : Phrase .sum) (negation : Option (Word "NOT")) (tail : Phrase .tail) :
      Phrase .comparison
  | isNull (left : Phrase .sum) (word : Word "IS") (negation : Option (Word "NOT"))
      (null : Word "NULL") : Phrase .comparison
  | like (word : Word "LIKE") (pattern : Phrase .sum) : Phrase .tail
  | likeEscape (word : Word "LIKE") (pattern : Phrase .sum) (escape : Word "ESCAPE")
      (character : Phrase .sum) : Phrase .tail
  | isIn (word : Word "IN") (left : Mark [.leftParen]) (items : Phrase .items)
      (right : Mark [.rightParen]) : Phrase .tail
  | between (word : Word "BETWEEN") (low : Phrase .sum) (conjunction : Word "AND")
      (high : Phrase .sum) : Phrase .tail
  | single (e : Phrase .disjunction) : Phrase .items
  | more (items : Phrase .items) (comma : Mark [.comma]) (e : Phrase .disjunction) : Phrase .items
  | signed (sign : Mark [.minus, .plus, .tilde]) (e : Phrase .unary) : Phrase .unary
  | unsigned (e : Phrase .atom) : Phrase .unary
  | literal (value : Mark [.numberLiteral, .stringLiteral, .userVariable, .systemVariable]) :
      Phrase .atom
  | column (name : Mark [.identifier]) : Phrase .atom
  | null (word : Word "NULL") : Phrase .atom
  | paren (left : Mark [.leftParen]) (e : Phrase .disjunction) (right : Mark [.rightParen]) :
      Phrase .atom

namespace Phrase

def lexemes {level : Level} : Phrase level → List Lexeme
  | binary left op right => left.lexemes ++ op.lexeme :: right.lexemes
  | operand e | positive e | plain e | single e | unsigned e => e.lexemes
  | not word e => word.1 :: e.lexemes
  | compare left op right => left.lexemes ++ op.1 :: right.lexemes
  | test left negation tail => left.lexemes ++ optional negation ++ tail.lexemes
  | isNull left word negation value =>
    left.lexemes ++ word.1 :: (optional negation ++ [value.1])
  | like word pattern => word.1 :: pattern.lexemes
  | likeEscape word pattern escape character =>
    word.1 :: pattern.lexemes ++ escape.1 :: character.lexemes
  | isIn word left items right => word.1 :: left.1 :: items.lexemes ++ [right.1]
  | between word low conjunction high => word.1 :: low.lexemes ++ conjunction.1 :: high.lexemes
  | more items comma e => items.lexemes ++ comma.1 :: e.lexemes
  | signed sign e => sign.1 :: e.lexemes
  | literal value => [value.1]
  | column name => [name.1]
  | null word => [word.1]
  | paren left e right => left.1 :: e.lexemes ++ [right.1]

/-- What a phrase adds to the tree: one node for an expression, and the parts of a comparison for
what follows its left side. -/
def shapes {level : Level} : Phrase level → List (Shape Kind)
  | @binary chain left op right => [.rule chain.node (left.shapes ++ op.lexeme.leaf :: right.shapes)]
  | operand e | positive e | plain e | single e | unsigned e => e.shapes
  | not word e => [.rule .notExpression (word.1.leaf :: e.shapes)]
  | compare left op right =>
    [.rule .comparisonExpression (left.shapes ++ op.1.leaf :: right.shapes)]
  | test left negation tail =>
    [.rule .comparisonExpression
      (left.shapes ++ (optional negation).map Lexeme.leaf ++ tail.shapes)]
  | isNull left word negation value =>
    [.rule .comparisonExpression
      (left.shapes ++ word.1.leaf :: ((optional negation).map Lexeme.leaf ++ [value.1.leaf]))]
  | like word pattern => word.1.leaf :: pattern.shapes
  | likeEscape word pattern escape character =>
    word.1.leaf :: pattern.shapes ++ escape.1.leaf :: character.shapes
  | isIn word left items right => word.1.leaf :: left.1.leaf :: items.shapes ++ [right.1.leaf]
  | between word low conjunction high =>
    word.1.leaf :: low.shapes ++ conjunction.1.leaf :: high.shapes
  | more items comma e => items.shapes ++ comma.1.leaf :: e.shapes
  | signed sign e => [.rule .unaryExpression (sign.1.leaf :: e.shapes)]
  | literal value => [value.1.leaf]
  | column name => [.rule .columnRef [name.1.leaf]]
  | null word => [word.1.leaf]
  | paren left e right => [.rule .parenExpression (left.1.leaf :: e.shapes ++ [right.1.leaf])]

def faces {level : Level} (e : Phrase level) : List (Kind × String) := e.lexemes.map Lexeme.face

end Phrase

/-- Tests see no difference between two spellings of a word. -/
theorem Look.foresees_spelling {text w : String} (same : Text.sameWord text w = true) (kind : Kind)
    (front rest : List (Kind × String)) (look : Look) :
    look.foresees (front ++ (kind, text) :: rest) = look.foresees (front ++ (kind, w) :: rest) := by
  have each (n : Nat) {p : Kind × String → Bool} (agree : p (kind, text) = p (kind, w)) :
      (front ++ (kind, text) :: rest)[n]?.any p = (front ++ (kind, w) :: rest)[n]?.any p := by
    rw [List.getElem?_append, List.getElem?_append]
    split
    · rfl
    · cases n - front.length with
      | zero => exact agree
      | succ n => rfl
  induction look with
  | kind n k => exact each n rfl
  | word n word => exact each n (congrArg (kind.isWord && ·) (Text.sameWord_congr same word))
  | sameLine => rfl
  | atEnd => cases front <;> rfl
  | not l ih => rw [foresees, foresees, ih]
  | and l r ihl ihr => rw [foresees, foresees, ihl, ihr]
  | or l r ihl ihr => rw [foresees, foresees, ihl, ihr]

theorem Word.foresees {w : String} (word : Word w) {look : Look} {rest : List (Kind × String)}
    {answer : Bool} (keyword : look.foresees ((.keyword, w) :: rest) = answer)
    (name : look.foresees ((.identifier, w) :: rest) = answer) :
    look.foresees (word.1.face :: rest) = answer := by
  obtain ⟨⟨kind, text, lexes⟩, spells⟩ := word
  obtain ⟨isWord, same⟩ := Bool.and_eq_true_iff.mp spells
  refine (Look.foresees_spelling same kind [] rest look).trans ?_
  cases kind with
  | keyword => exact keyword
  | identifier => exact name
  | _ => cases isWord

theorem Mark.foresees {kinds : List Kind} (mark : Mark kinds) {look : Look}
    {rest : List (Kind × String)} {answer : Bool}
    (each : ∀ text, kinds.all (fun kind => look.foresees ((kind, text) :: rest) == answer) = true) :
    look.foresees (mark.1.face :: rest) = answer := by
  obtain ⟨⟨kind, text, lexes⟩, member⟩ := mark
  have same := List.all_eq_true.mp (each text) kind (List.contains_iff_mem.mp member)
  exact beq_iff_eq.mp same

theorem Lexeme.reads_eq_false (l : Lexeme) {w : String} (name : l.kind = .identifier)
    (known : w ∈ reserved) : Look.reads w l.face = false := by
  have free := List.any_eq_false.mp (l.isReserved_eq_false name) w known
  simp [Look.reads, face, Bool.eq_false_iff.mpr free]

theorem Word.kind_eq_keyword {w : String} (word : Word w) (known : w ∈ reserved) :
    word.1.kind = .keyword := by
  obtain ⟨isWord, same⟩ := Bool.and_eq_true_iff.mp word.2
  cases kind : word.1.kind with
  | keyword => rfl
  | identifier =>
    have free := word.1.reads_eq_false kind known
    exact absurd free (by simp [Look.reads, Lexeme.face, isWord, same])
  | _ => simp [kind, Kind.isWord] at isWord

theorem Word.foresees_keyword {w : String} (word : Word w) (known : w ∈ reserved) (look : Look)
    (rest : List (Kind × String)) :
    look.foresees (word.1.face :: rest) = look.foresees ((.keyword, w) :: rest) := by
  rw [Lexeme.face, word.kind_eq_keyword known]
  exact Look.foresees_spelling (Bool.and_eq_true_iff.mp word.2).2 _ [] rest look

/-- Words that no phrase of the level starts with. -/
def Level.neverStarts : Level → List String
  | .chain .disjunction | .chain .conjunction | .negation | .items => ["SELECT"]
  | .chain .sum | .chain .product | .comparison | .unary | .atom | .tail => ["SELECT", "NOT"]

theorem Chain.neverStarts_operand (chain : Chain) :
    ∀ w ∈ (Level.chain chain).neverStarts, w ∈ chain.operand.neverStarts := by
  cases chain <;> decide

/-- A phrase starts with a token that is none of the words. -/
def Starts (words : List String) (faces : List (Kind × String)) : Prop :=
  ∃ first rest, faces = first :: rest ∧ ∀ w ∈ words, Look.reads w first = false

theorem Starts.append {words : List String} {faces : List (Kind × String)}
    (starts : Starts words faces) (more : List (Kind × String)) : Starts words (faces ++ more) := by
  obtain ⟨first, rest, rfl, none⟩ := starts
  exact ⟨first, rest ++ more, rfl, none⟩

theorem Starts.weaken {words fewer : List String} {faces : List (Kind × String)}
    (starts : Starts words faces) (subset : ∀ w ∈ fewer, w ∈ words) : Starts fewer faces := by
  obtain ⟨first, rest, rfl, none⟩ := starts
  exact ⟨first, rest, rfl, fun w member => none w (subset w member)⟩

theorem starts_word {w : String} (word : Word w) {words : List String}
    (others : words.all (fun other => !Text.sameWord w other) = true)
    (rest : List (Kind × String)) : Starts words (word.1.face :: rest) := by
  refine ⟨word.1.face, rest, rfl, fun other member => ?_⟩
  have different := List.all_eq_true.mp others other member
  have same := Text.sameWord_congr (Bool.and_eq_true_iff.mp word.2).2 other
  simp only [Bool.not_eq_true'] at different
  simp [Look.reads, Lexeme.face, same, different]

theorem starts_mark {kinds : List Kind} (mark : Mark kinds)
    (others : kinds.all (fun kind => !kind.isWord) = true) (words : List String)
    (rest : List (Kind × String)) : Starts words (mark.1.face :: rest) := by
  refine ⟨mark.1.face, rest, rfl, fun other _ => ?_⟩
  have different := List.all_eq_true.mp others _ (List.contains_iff_mem.mp mark.2)
  simp only [Bool.not_eq_true'] at different
  simp [Look.reads, Lexeme.face, different]

theorem Phrase.starts {level : Level} (e : Phrase level) : Starts level.neverStarts e.faces := by
  induction e with
  | @binary chain left op right ihl ihr => simpa [faces, lexemes] using ihl.append _
  | @operand chain e ih => exact ih.weaken chain.neverStarts_operand
  | not word e ih => exact starts_word word (by decide) _
  | positive e ih => exact ih.weaken (by decide)
  | plain e ih => exact ih
  | compare left op right ihl ihr =>
    simpa [faces, lexemes, Level.neverStarts] using ihl.append _
  | test left negation tail ihl iht =>
    simpa [faces, lexemes, Level.neverStarts] using ihl.append _
  | isNull left word negation value ih =>
    simpa [faces, lexemes, Level.neverStarts] using ih.append _
  | like word pattern ih => exact starts_word word (by decide) _
  | likeEscape word pattern escape character ihp ihc => exact starts_word word (by decide) _
  | isIn word left items right ih => exact starts_word word (by decide) _
  | between word low conjunction high ihl ihh => exact starts_word word (by decide) _
  | single e ih => exact ih
  | more items comma e ihi ihe => simpa [faces, lexemes] using ihi.append _
  | signed sign e ih => exact starts_mark sign (by decide) _ _
  | unsigned e ih => exact ih
  | literal value => exact starts_mark value (by decide) _ _
  | column name =>
    have kind : name.1.kind = .identifier := by simpa using name.2
    refine ⟨name.1.face, [], rfl, fun w member => name.1.reads_eq_false kind ?_⟩
    exact (by decide : ∀ w ∈ Level.atom.neverStarts, w ∈ reserved) w member
  | null word => exact starts_word word (by decide) _
  | paren left e right ih => exact starts_mark left (by decide) _ _

end SqlFerry.Tsql
