import SqlFerry.Proofs.Tree.Nodes
import SqlFerry.Proofs.Tsql.Derivation
import SqlFerry.Proofs.Tsql.Spacing

/-! What the nodes of a tree look like. A leaf has the kind of a token, and those that name variables
and temporary tables stand on one line. A rule never has the kind of a token; inside an expression
stand only expressions, names, types and leaves; a call starts with the name that it calls; and a
conversion has the parts that it is written with. These facts are read off the grammar by an analysis
that counts, as far as needed, the nodes since the checkpoint. -/
namespace SqlFerry.Tsql

section Leaves

open Text (isWordChar)

theorem tokenPiece_cases {c : Char} {cs : List Char} {kind : Kind} {n : Nat}
    (found : tokenPiece c cs = .ok (kind, n)) :
    kind ∈ [.stringLiteral, .quotedIdentifier, .binaryLiteral, .numberLiteral] ∨
    (c = '@' ∧ variableTail cs = .ok (kind, n)) ∨ (c = '#' ∧ tempTableTail cs = .ok (kind, n)) ∨
    word c cs = (kind, n) ∨ operator c cs.head? = .ok (kind, n) := by
  rcases ite_eq_iff.mp found with ⟨-, string⟩ | ⟨-, found⟩
  · simp [← endedBy_kind string]
  rcases ite_eq_iff.mp found with ⟨-, string⟩ | ⟨-, found⟩
  · simp [← endedBy_kind string]
  rcases ite_eq_iff.mp found with ⟨-, name⟩ | ⟨-, found⟩
  · simp [← endedBy_kind name]
  rcases ite_eq_iff.mp found with ⟨-, name⟩ | ⟨-, found⟩
  · simp [← endedBy_kind name]
  rcases ite_eq_iff.mp found with ⟨sign, user⟩ | ⟨-, found⟩
  · exact .inr (.inl ⟨beq_iff_eq.mp sign, user⟩)
  rcases ite_eq_iff.mp found with ⟨sign, table⟩ | ⟨-, found⟩
  · exact .inr (.inr (.inl ⟨beq_iff_eq.mp sign, table⟩))
  rcases ite_eq_iff.mp found with ⟨-, number⟩ | ⟨-, found⟩
  · cases number; simp
  rcases ite_eq_iff.mp found with ⟨-, number⟩ | ⟨-, found⟩
  · cases number; simp
  rcases ite_eq_iff.mp found with ⟨-, number⟩ | ⟨-, found⟩
  · cases number; simp
  rcases ite_eq_iff.mp found with ⟨-, found⟩ | ⟨-, found⟩
  · exact .inr (.inr (.inr (.inl (Except.ok.inj found))))
  · exact .inr (.inr (.inr (.inr found)))

theorem variableTail_cases {cs : List Char} {kind : Kind} {n : Nat}
    (found : variableTail cs = .ok (kind, n)) :
    kind = .systemVariable ∨ (kind = .userVariable ∧ n = runLength isWordChar cs) := by
  unfold variableTail at found
  split at found <;> split at found <;> cases found <;> simp

theorem tempTableTail_cases {cs : List Char} {kind : Kind} {n : Nat}
    (found : tempTableTail cs = .ok (kind, n)) : kind = .tempTable ∧
      n = runLength (· == '#') cs + runLength isWordChar (cs.drop (runLength (· == '#') cs)) := by
  rcases ite_eq_iff.mp found with ⟨-, found⟩ | ⟨-, found⟩
  · cases found; exact ⟨rfl, rfl⟩
  · cases found

theorem word_kind {c : Char} {cs : List Char} {kind : Kind} {n : Nat} (found : word c cs = (kind, n)) :
    kind = .keyword ∨ kind = .identifier := by
  obtain ⟨rfl, -⟩ := Prod.mk.inj found
  split <;> simp

theorem operator_kind {c : Char} {next : Option Char} {kind : Kind} {n : Nat}
    (found : operator c next = .ok (kind, n)) :
    kind.isToken = true ∧ kind ≠ .userVariable ∧ kind ≠ .tempTable := by
  unfold operator at found
  split at found <;> cases found <;> decide

theorem isToken_of_tokenPiece {c : Char} {cs : List Char} {kind : Kind} {n : Nat}
    (found : tokenPiece c cs = .ok (kind, n)) : kind.isToken = true := by
  rcases tokenPiece_cases found with literal | ⟨-, user⟩ | ⟨-, table⟩ | name | sign
  · have literals : ∀ kind ∈ [Kind.stringLiteral, .quotedIdentifier, .binaryLiteral, .numberLiteral],
        kind.isToken = true := by decide
    exact literals kind literal
  · rcases variableTail_cases user with rfl | ⟨rfl, -⟩ <;> rfl
  · obtain ⟨rfl, -⟩ := tempTableTail_cases table
    rfl
  · rcases word_kind name with rfl | rfl <;> rfl
  · exact (operator_kind sign).1

theorem not_mem_take_runLength {p : Char → Bool} {c : Char} (refused : p c = false) (cs : List Char) :
    c ∉ cs.take (runLength p cs) := by
  rw [take_runLength]
  intro member
  have passed := List.all_eq_true.mp List.all_takeWhile c member
  rw [refused] at passed
  cases passed

theorem flat_of_tokenPiece {c : Char} {cs : List Char} {kind : Kind} {n : Nat}
    (found : tokenPiece c cs = .ok (kind, n)) (isName : kind = .userVariable ∨ kind = .tempTable) :
    '\n' ∉ c :: cs.take n := by
  have lineEnd : isWordChar '\n' = false := refuses_isWordChar '\n' rfl
  rcases tokenPiece_cases found with literal | ⟨rfl, user⟩ | ⟨rfl, table⟩ | name | sign
  · rcases isName with rfl | rfl <;> simp at literal
  · rcases variableTail_cases user with rfl | ⟨rfl, rfl⟩
    · simp at isName
    · simpa using not_mem_take_runLength lineEnd cs
  · obtain ⟨rfl, rfl⟩ := tempTableTail_cases table
    rw [List.take_add]
    have hashes : '\n' ∉ cs.take (runLength (· == '#') cs) :=
      not_mem_take_runLength (by decide) cs
    have rest := not_mem_take_runLength lineEnd (cs.drop (runLength (· == '#') cs))
    simp [hashes, rest]
  · rcases word_kind name with rfl | rfl <;> simp at isName
  · obtain ⟨-, notUser, notTable⟩ := operator_kind sign
    rcases isName with rfl | rfl
    · exact absurd rfl notUser
    · exact absurd rfl notTable

theorem paren_of_tokenPiece {c : Char} {cs : List Char} {kind : Kind} {n : Nat}
    (found : tokenPiece c cs = .ok (kind, n)) :
    (kind = .leftParen → c = '(' ∧ n = 0) ∧ (kind = .rightParen → c = ')' ∧ n = 0) := by
  rcases tokenPiece_cases found with literal | ⟨-, user⟩ | ⟨-, table⟩ | name | sign
  · constructor <;> rintro rfl <;> simp at literal
  · rcases variableTail_cases user with rfl | ⟨rfl, -⟩ <;> simp
  · obtain ⟨rfl, -⟩ := tempTableTail_cases table
    simp
  · rcases word_kind name with rfl | rfl <;> simp
  · unfold operator at sign
    split at sign <;> cases sign <;> simp

theorem tokenPiece_of_piece {c : Char} {cs : List Char} {kind : Kind} {n : Nat}
    (found : piece c cs = .ok (some kind, n)) : tokenPiece c cs = .ok (kind, n) := by
  unfold piece at found
  split at found
  · cases found
  split at found
  · cases found
  split at found
  · split at found <;> cases found
  · split at found
    · next cut => cases found; exact cut
    · cases found

theorem mem_lexFrom {p : Position} {cs : List Char} {tokens : List (Token Kind)}
    (lexed : lexFrom p cs = .ok tokens) : ∀ t ∈ tokens, ∃ c rest n,
      tokenPiece c rest = .ok (t.kind, n) ∧ t.text.toList = c :: rest.take n := by
  induction size : cs.length using Nat.strongRecOn generalizing p cs tokens with
  | ind length ih =>
  cases cs with
  | nil =>
    obtain rfl : [] = tokens := by simpa [lexFrom] using lexed
    simp
  | cons c cs =>
    obtain ⟨kind?, n, rest, found, lexedRest, rfl⟩ := lexFrom_cons lexed
    have shorter : (cs.drop n).length < length := by
      rw [← size, List.length_drop, List.length_cons]; omega
    intro t member
    rcases List.mem_append.mp member with here | later
    · cases kind? with
      | none => cases here
      | some kind =>
        obtain rfl := List.mem_singleton.mp here
        exact ⟨c, cs, n, tokenPiece_of_piece found, by simp⟩
    · exact ih _ shorter lexedRest rfl t later

end Leaves

/-- The kinds of expressions that are made of others. -/
def Kind.isExpression : Kind → Bool
  | orExpression | andExpression | notExpression | comparisonExpression | additiveExpression
  | multiplicativeExpression | unaryExpression | parenExpression | functionCall
  | convertExpression | castExpression | caseExpression | subquery | existsExpression
  | columnRef => true
  | _ => false

def Kind.isOperand (kind : Kind) : Bool :=
  kind.isExpression || kind == .qualifiedName || kind == .dataType

/-- Whether the test holds where no token is left. -/
def Look.holdsAtEnd : Look → Bool
  | kind _ _ | word _ _ | sameLine => false
  | atEnd => true
  | not l => !l.holdsAtEnd
  | and l r => l.holdsAtEnd && r.holdsAtEnd
  | or l r => l.holdsAtEnd || r.holdsAtEnd

theorem Look.holds_at_end {c : Cursor} (empty : c.rest = []) (test : Look) :
    test.holds c = test.holdsAtEnd := by
  induction test with
  | kind => simp [holds, holdsAtEnd, empty]
  | word => simp [holds, holdsAtEnd, empty]
  | sameLine => simp [holds, holdsAtEnd, empty]
  | atEnd => simp [holds, holdsAtEnd, empty]
  | not l ih => rw [holds, holdsAtEnd, ih]
  | and l r ihl ihr => rw [holds, holdsAtEnd, ihl, ihr]
  | or l r ihl ihr => rw [holds, holdsAtEnd, ihl, ihr]

namespace Production

variable {ρ : Type} {p : Production ρ} {calls : ρ → Cursor → List (Node Kind) → Cursor → Prop}
  {c c' : Cursor} {xs ys : List (Node Kind)}

/-- The production fails where no token is left, if the rules it calls do as told. -/
def failsAtEnd (rules : ρ → Bool) : Production ρ → Bool
  | done | take | loop _ _ => false
  | fail _ => true
  | seq p q => p.failsAtEnd rules || q.failsAtEnd rules
  | branch test p q => if test.holdsAtEnd then p.failsAtEnd rules else q.failsAtEnd rules
  | node _ p | group p | adopt _ p => p.failsAtEnd rules
  | rule r => rules r

theorem derives_left {rules : ρ → Bool}
    (called : ∀ name c ys c', calls name c ys c' → rules name = true → c.rest ≠ [])
    (forward : ∀ name c ys c', calls name c ys c' → c'.rest <:+ c.rest)
    (derives : Derives calls p c xs c' ys) (fails : p.failsAtEnd rules = true) : c.rest ≠ [] := by
  intro empty
  induction derives with
  | done => cases fails
  | take => cases fails
  | stay => cases fails
  | seq first _ ihp ihq =>
    have shorter := first.suffix forward
    rw [empty] at shorter
    rcases Bool.or_eq_true_iff.mp fails with failsP | failsQ
    · exact ihp failsP empty
    · exact ihq failsQ (List.suffix_nil.mp shorter)
  | holds holds _ ih =>
    rw [Look.holds_at_end empty] at holds
    rw [failsAtEnd, if_pos holds] at fails
    exact ih fails empty
  | fails failed _ ih =>
    rw [Look.holds_at_end empty] at failed
    rw [failsAtEnd, failed, if_neg Bool.false_ne_true] at fails
    exact ih fails empty
  | stop => cases fails
  | round => cases fails
  | node _ _ ih => exact ih fails empty
  | group _ ih => exact ih fails empty
  | adopt _ _ ih => exact ih fails empty
  | rule ran => exact called _ _ _ _ ran fails empty

theorem derives_at_end (called : ∀ name c ys c', calls name c ys c' → c.rest = [] → ys = [])
    (forward : ∀ name c ys c', calls name c ys c' → c'.rest <:+ c.rest)
    (derives : Derives calls p c xs c' ys) (empty : c.rest = []) (none : xs = []) : ys = [] := by
  induction derives with
  | done => exact none
  | take id index next => simp [empty] at next
  | stay => exact none
  | seq first _ ihp ihq =>
    have shorter := first.suffix forward
    rw [empty] at shorter
    exact ihq (List.suffix_nil.mp shorter) (ihp empty none)
  | holds _ _ ih => exact ih empty none
  | fails _ _ ih => exact ih empty none
  | stop => exact none
  | round _ first _ ihp ihq =>
    have shorter := first.suffix forward
    rw [empty] at shorter
    exact ihq (List.suffix_nil.mp shorter) (ihp empty none)
  | node id _ ih => rw [none, ih empty rfl]; rfl
  | group _ ih => rw [none, ih empty rfl]; rfl
  | adopt id _ ih => rw [ih empty none]; rfl
  | rule ran => rw [none, called _ _ _ _ ran empty]; rfl

theorem closed_ne_nil {id : Nat} {kind : Kind} (some : ys ≠ []) : closed id kind ys ≠ [] := by
  cases ys <;> simp_all [closed]

theorem derives_ne_nil (derives : Derives calls p c xs c' ys) (some : xs ≠ []) : ys ≠ [] := by
  induction derives with
  | done => exact some
  | take => simp
  | stay => exact some
  | seq _ _ ihp ihq => exact ihq (ihp some)
  | holds _ _ ih => exact ih some
  | fails _ _ ih => exact ih some
  | stop => exact some
  | round _ _ _ ihp ihq => exact ihq (ihp some)
  | node => exact List.append_ne_nil_of_left_ne_nil some _
  | group => exact List.append_ne_nil_of_left_ne_nil some _
  | adopt _ _ ih => exact closed_ne_nil (ih some)
  | rule => exact List.append_ne_nil_of_left_ne_nil some _

/-- A production that adopts nothing only adds to what was there. -/
theorem derives_prefix (derives : Derives calls p c xs c' ys) (isContained : p.contained = true) :
    ∃ zs, ys = xs ++ zs := by
  induction derives with
  | done => exact ⟨[], by simp⟩
  | take => exact ⟨_, rfl⟩
  | stay => exact ⟨[], by simp⟩
  | seq _ _ ihp ihq =>
    obtain ⟨first, second⟩ := Bool.and_eq_true_iff.mp isContained
    obtain ⟨zs, rfl⟩ := ihp first
    obtain ⟨ws, rfl⟩ := ihq second
    exact ⟨zs ++ ws, by simp⟩
  | holds _ _ ih => exact ih (Bool.and_eq_true_iff.mp isContained).1
  | fails _ _ ih => exact ih (Bool.and_eq_true_iff.mp isContained).2
  | stop => exact ⟨[], by simp⟩
  | round _ _ _ ihp ihq =>
    obtain ⟨zs, rfl⟩ := ihp isContained
    obtain ⟨ws, rfl⟩ := ihq isContained
    exact ⟨zs ++ ws, by simp⟩
  | node => exact ⟨_, rfl⟩
  | group => exact ⟨_, rfl⟩
  | adopt => cases isContained
  | rule => exact ⟨_, rfl⟩

/-- What is known about the nodes since the checkpoint. -/
inductive Tally where
  /-- This place is never reached. -/
  | never
  /-- There are none yet, and a token is left. -/
  | fresh
  /-- There is one, a name. -/
  | name
  | one
  | some
  | any
deriving DecidableEq

namespace Tally

def join : Tally → Tally → Tally
  | never, n | n, never => n
  | fresh, fresh => fresh
  | fresh, _ | _, fresh | any, _ | _, any => any
  | name, name => name
  | some, _ | _, some => some
  | one, _ | _, one => one

/-- The tally describes the nodes since the checkpoint. -/
def Means : Tally → Cursor → List (Node Kind) → Prop
  | never, _, _ => False
  | fresh, c, xs => xs = [] ∧ c.rest ≠ []
  | name, _, xs => ∃ x, xs = [x] ∧ x.kind = .qualifiedName ∧ x.isLeaf = false
  | one, _, xs => ∃ x, xs = [x]
  | some, _, xs => xs ≠ []
  | any, _, _ => True

theorem Means.join_left {n : Tally} (means : n.Means c xs) (m : Tally) : (n.join m).Means c xs := by
  cases n <;> cases m <;> simp_all [Tally.join, Means]
  case name.one => obtain ⟨x, rfl, -⟩ := means; exact ⟨x, rfl⟩
  case name.some => obtain ⟨x, rfl, -⟩ := means; simp
  case one.some => obtain ⟨x, rfl⟩ := means; simp

theorem join_comm (n m : Tally) : n.join m = m.join n := by cases n <;> cases m <;> rfl

theorem Means.join_right {m : Tally} (means : m.Means c xs) (n : Tally) :
    (n.join m).Means c xs := by
  rw [join_comm]
  exact means.join_left n

def more : Tally → Tally
  | never => never
  | fresh | any => any
  | name | one | some => some

/-- The tally of a node of the kind, made of nodes with a tally. -/
def closed (kind : Kind) : Tally → Tally
  | never => never
  | fresh | any => any
  | name | one | some => if kind = .qualifiedName then name else one

end Tally

open Tally

/-- What a production makes of a tally, given what the rules add where nothing has been read. -/
def tally (rules : ρ → Tally) : Production ρ → Tally → Tally
  | done, n => n
  | take, n => if n = fresh then one else n.more
  | fail _, _ => never
  | seq p q, n => q.tally rules (p.tally rules n)
  | branch _ p q, n => (p.tally rules n).join (q.tally rules n)
  | loop _ p, n => if n.join (p.tally rules n) = n then n else n.more
  | node kind p, n => if n = fresh then (p.tally rules fresh).closed kind else n.more
  | group p, n => if n = fresh then p.tally rules fresh else n.more
  | adopt kind p, n => (p.tally rules n).closed kind
  | rule r, n => if n = fresh then rules r else n.more

theorem means_more {n : Tally} (means : n.Means c xs) (kept : xs ≠ [] → ys ≠ []) :
    n.more.Means c' ys := by
  cases n with
  | never => exact means
  | fresh => trivial
  | name => obtain ⟨x, rfl, -⟩ := means; exact kept (by simp)
  | one => obtain ⟨x, rfl⟩ := means; exact kept (by simp)
  | some => exact kept means
  | any => trivial

theorem means_closed {n : Tally} (means : n.Means c xs) (id : Nat) (kind : Kind) :
    (n.closed kind).Means c' (Tsql.closed id kind xs) := by
  cases xs with
  | nil => cases n <;> simp_all [Tally.closed, Means]
  | cons x xs =>
    have made : (if kind = .qualifiedName then name else one).Means c'
        (Tsql.closed id kind (x :: xs)) := by
      split
      · next isName => exact ⟨_, rfl, isName, rfl⟩
      · exact ⟨_, rfl⟩
    cases n <;> simp_all [Tally.closed, Means]

theorem tally_loop_tally (tallies : ρ → Tally) (test : Look) (p : Production ρ) (n : Tally) :
    (loop test p).tally tallies ((loop test p).tally tallies n) = (loop test p).tally tallies n := by
  have twice : n.more.more = n.more := by cases n <;> rfl
  by_cases kept : n.join (p.tally tallies n) = n
  · simp [tally, kept]
  · simp [tally, kept, twice]

theorem means_loop {rules : ρ → Tally} {n : Tally} (means : n.Means c xs) (test : Look)
    (p : Production ρ) : ((loop test p).tally rules n).Means c xs := by
  rw [tally]
  split
  · exact means
  · exact means_more means id

theorem means_round {rules : ρ → Tally} {n : Tally} (means : n.Means c xs) (test : Look)
    (round : (p.tally rules n).Means c' ys) (kept : xs ≠ [] → ys ≠ []) :
    ((loop test p).tally rules n).Means c' ys := by
  rw [tally]
  split
  · next same =>
    rw [← same]
    exact round.join_right n
  · exact means_more means kept

/-- The analysis is right about every derivation. -/
theorem derives_tally {rules : ρ → Tally}
    (called : ∀ name c ys c', calls name c ys c' → c.rest ≠ [] → (rules name).Means c' ys)
    (derives : Derives calls p c xs c' ys) {n : Tally} (means : n.Means c xs) :
    (p.tally rules n).Means c' ys := by
  induction derives generalizing n with
  | done => exact means
  | take id index next =>
    rw [tally]
    split
    · next isFresh =>
      subst isFresh
      exact ⟨_, by rw [means.1]; rfl⟩
    · exact means_more means fun _ => by simp
  | stay empty =>
    rw [tally]
    split
    · next isFresh =>
      subst isFresh
      exact absurd empty means.2
    · exact means_more means id
  | seq _ _ ihp ihq => exact ihq (ihp means)
  | holds _ _ ih => exact (ih means).join_left _
  | fails _ _ ih => exact (ih means).join_right _
  | stop => exact means_loop means _ _
  | @round test p c c' c'' xs ys zs _ first later ihp ihq =>
    have stays := ihq (means_round means test (ihp means) (derives_ne_nil first))
    rwa [tally_loop_tally] at stays
  | @node kind p c c' xs ys id body ih =>
    rw [tally]
    split
    · next isFresh =>
      subst isFresh
      obtain ⟨rfl, left⟩ := means
      have start : fresh.Means (c.startNode kind) [] := ⟨rfl, left⟩
      exact means_closed (ih start) id kind
    · exact means_more means fun some => List.append_ne_nil_of_left_ne_nil some _
  | group body ih =>
    rw [tally]
    split
    · next isFresh =>
      subst isFresh
      obtain ⟨rfl, left⟩ := means
      exact ih ⟨rfl, left⟩
    · exact means_more means fun some => List.append_ne_nil_of_left_ne_nil some _
  | @adopt kind p mark c c' xs ys id body ih =>
    have start : n.Means (c.startNodeAt mark kind) xs := by cases n <;> exact means
    exact means_closed (ih start) id kind
  | rule ran =>
    rw [tally]
    split
    · next isFresh =>
      subst isFresh
      obtain ⟨rfl, left⟩ := means
      exact called _ _ _ _ ran left
    · exact means_more means fun some => List.append_ne_nil_of_left_ne_nil some _

end Production

/-- What a rule adds where a token is left. -/
def Rule.tally : Rule → Production.Tally
  | .qualifiedName => .name
  | .dataType | .expression | .conjunction | .negation | .comparison | .additive | .multiplicative
  | .unary | .primary | .nameOrCall | .subquery | .caseExpression | .castExpression
  | .convertExpression => .one
  | _ => .any

theorem production_tally (rule : Rule) :
    rule.tally.join ((Grammar.production rule).tally Rule.tally .fresh) = rule.tally := by
  cases rule <;> decide

theorem reads_at_end {depth : Nat} {rule : Rule} {c c' : Cursor} {ys : List (Node Kind)}
    (reads : Reads depth rule c ys c') (empty : c.rest = []) : ys = [] := by
  induction depth generalizing rule c c' ys with
  | zero => exact reads.elim
  | succ depth ih =>
    exact Production.derives_at_end (fun _ _ _ _ reads => ih reads) (fun _ _ _ _ => Reads.suffix)
      reads empty rfl

theorem reads_tally {depth : Nat} {rule : Rule} {c c' : Cursor} {ys : List (Node Kind)}
    (reads : Reads depth rule c ys c') (left : c.rest ≠ []) : rule.tally.Means c' ys := by
  induction depth generalizing rule c c' ys with
  | zero => exact reads.elim
  | succ depth ih =>
    have means := Production.derives_tally (fun _ _ _ _ reads left => ih reads left) reads
      (show Production.Tally.fresh.Means c [] from ⟨rfl, left⟩)
    rw [← production_tally rule]
    exact means.join_right _

/-- A node that may stand inside an expression. -/
def InExpression (node : Node Kind) : Prop := node.isLeaf = true ∨ node.kind.isOperand = true

/-- The children of a conversion: in the parentheses behind the keyword stand a type, a value and
maybe a style. -/
def IsConversion (children : List (Node Kind)) : Prop :=
  ∃ keyword left type comma value style right,
    children = [keyword, left, type, comma, value] ++ style ++ [right] ∧
    (∀ node ∈ [keyword, left, comma, right], node.isLeaf = true) ∧
    left.kind = .leftParen ∧ comma.kind = .comma ∧ right.kind = .rightParen ∧
    type.kind = .dataType ∧ type.isLeaf = false ∧
    (style = [] ∨ ∃ separator code, style = [separator, code] ∧ separator.isLeaf = true ∧
      separator.kind = .comma)

/-- What the grammar says about a node and its children. -/
def Fits : Node Kind → Prop
  | .leaf _ _ _ => True
  | .rule _ kind first rest =>
    kind.isToken = false ∧
    (kind.isOperand = true → kind ≠ .subquery → ∀ child ∈ first :: rest, InExpression child) ∧
    (kind = .functionCall → first.kind = .qualifiedName ∧ first.isLeaf = false) ∧
    (kind = .convertExpression → IsConversion (first :: rest))

def AllFit (node : Node Kind) : Prop := ∀ below ∈ node.descendants, Fits below

theorem mem_descendantsOf {nodes : List (Node Kind)} {below : Node Kind} :
    below ∈ Node.descendantsOf nodes ↔ ∃ node ∈ nodes, below ∈ node.descendants := by
  induction nodes with
  | nil => simp [Node.descendantsOf]
  | cons node nodes ih => simp [Node.descendantsOf, ih]

theorem allFit_rule {id : Nat} {kind : Kind} {first : Node Kind} {rest : List (Node Kind)} :
    AllFit (.rule id kind first rest) ↔
      Fits (.rule id kind first rest) ∧ ∀ child ∈ first :: rest, AllFit child := by
  have below (node : Node Kind) : node ∈ (Node.rule id kind first rest).descendants ↔
      node = .rule id kind first rest ∨ ∃ child ∈ first :: rest, node ∈ child.descendants := by
    rw [← mem_descendantsOf]
    simp [Node.descendants, Node.descendantsOf]
  constructor
  · intro all
    exact ⟨all _ ((below _).mpr (.inl rfl)),
      fun child member node inside => all node ((below _).mpr (.inr ⟨child, member, inside⟩))⟩
  · rintro ⟨root, children⟩ node member
    rcases (below node).mp member with rfl | ⟨child, member, inside⟩
    · exact root
    · exact children child member node inside

theorem allFit_leaf (id index : Nat) (token : Token Kind) : AllFit (.leaf id index token) := by
  intro below member
  obtain rfl : below = .leaf id index token := by simpa [Node.descendants] using member
  trivial

namespace Production

open Tally

variable {ρ : Type} {p : Production ρ} {calls : ρ → Cursor → List (Node Kind) → Cursor → Prop}
  {c c' : Cursor} {xs ys : List (Node Kind)}

/-- All that is added may stand inside an expression. -/
def plain (rules : ρ → Bool) : Production ρ → Bool
  | done | take | fail _ => true
  | seq p q => p.plain rules && q.plain rules
  | branch _ p q => p.plain rules && q.plain rules
  | loop _ p => p.plain rules
  | group p => p.plain rules
  | node kind _ => kind.isOperand
  | adopt kind _ => kind.isOperand
  | rule r => rules r

theorem derives_plain {rules : ρ → Bool}
    (called : ∀ name c ys c', calls name c ys c' → rules name = true → ∀ y ∈ ys, InExpression y)
    (derives : Derives calls p c xs c' ys) (isPlain : p.plain rules = true)
    (start : ∀ x ∈ xs, InExpression x) : ∀ y ∈ ys, InExpression y := by
  have added {xs zs : List (Node Kind)} (start : ∀ x ∈ xs, InExpression x)
      (more : ∀ z ∈ zs, InExpression z) : ∀ y ∈ xs ++ zs, InExpression y := fun y member =>
    (List.mem_append.mp member).elim (start y) (more y)
  have made {kind : Kind} (isOperand : kind.isOperand = true) (id : Nat) (ys : List (Node Kind)) :
      ∀ y ∈ closed id kind ys, InExpression y := by
    intro y member
    cases ys with
    | nil => cases member
    | cons first rest =>
      obtain rfl := List.mem_singleton.mp member
      exact .inr isOperand
  induction derives with
  | done => exact start
  | take id index next => exact added start (by simp [InExpression, Node.isLeaf])
  | stay => exact start
  | seq _ _ ihp ihq =>
    obtain ⟨first, second⟩ := Bool.and_eq_true_iff.mp isPlain
    exact ihq second (ihp first start)
  | holds _ _ ih => exact ih (Bool.and_eq_true_iff.mp isPlain).1 start
  | fails _ _ ih => exact ih (Bool.and_eq_true_iff.mp isPlain).2 start
  | stop => exact start
  | round _ _ _ ihp ihq => exact ihq isPlain (ihp isPlain start)
  | node id _ _ => exact added start (made isPlain id _)
  | group _ ih => exact added start (ih isPlain (by simp))
  | adopt id _ _ => exact made isPlain id _
  | rule ran => exact added start (called _ _ _ _ ran isPlain)

/-- A node of the kind may have children of which it is known whether all of them may stand in an
expression. -/
def mayHold (kind : Kind) (inner : Bool) : Bool :=
  !kind.isToken && (!kind.isOperand || kind == .subquery || inner)

/-- Every node that the production makes is as the grammar says. The first argument tells whether all
nodes since the checkpoint may stand in an expression, the second one how many there are. Conversions
are left to an analysis of their own. -/
def sound (rules : ρ → Bool) (tallies : ρ → Tally) : Production ρ → Bool → Tally → Bool
  | done, _, _ | take, _, _ | fail _, _, _ | rule _, _, _ => true
  | seq p q, inner, n =>
    p.sound rules tallies inner n && q.sound rules tallies inner (p.tally tallies n)
  | branch _ p q, inner, n => p.sound rules tallies inner n && q.sound rules tallies inner n
  | loop test p, inner, n => p.sound rules tallies inner ((loop test p).tally tallies n)
  | node kind p, _, _ =>
    mayHold kind (p.plain rules) && kind != .functionCall && kind != .convertExpression &&
      p.sound rules tallies (p.plain rules) fresh
  | group p, _, _ => p.sound rules tallies (p.plain rules) fresh
  | adopt kind p, inner, n =>
    mayHold kind (inner && p.plain rules) &&
      (kind != .functionCall || (n == name && p.contained)) && kind != .convertExpression &&
      p.sound rules tallies (inner && p.plain rules) n

theorem mayHold_iff {kind : Kind} {inner : Bool} : mayHold kind inner = true ↔
    kind.isToken = false ∧ (kind.isOperand = true → kind ≠ .subquery → inner = true) := by
  simp only [mayHold, Bool.and_eq_true, Bool.or_eq_true, Bool.not_eq_true', beq_iff_eq]
  grind

theorem allFit_closed {kind : Kind} {inner : Bool} {id : Nat} (holds : mayHold kind inner = true)
    (children : ∀ y ∈ ys, AllFit y) (plain : inner = true → ∀ y ∈ ys, InExpression y)
    (call : kind = .functionCall → ∃ x zs, ys = x :: zs ∧ x.kind = .qualifiedName ∧
      x.isLeaf = false)
    (conversion : kind = .convertExpression → IsConversion ys) :
    ∀ y ∈ closed id kind ys, AllFit y := by
  intro y member
  cases ys with
  | nil => cases member
  | cons first rest =>
    obtain rfl := List.mem_singleton.mp member
    obtain ⟨notToken, inside⟩ := mayHold_iff.mp holds
    refine allFit_rule.mpr ⟨⟨notToken, ?_, ?_, conversion⟩, children⟩
    · intro isOperand notSubquery
      exact plain (inside isOperand notSubquery)
    · intro isCall
      obtain ⟨x, zs, shape, isName⟩ := call isCall
      obtain ⟨rfl, -⟩ := List.cons.inj shape
      exact isName

section Sound

variable {rules : ρ → Bool} {tallies : ρ → Tally}
  (ended : ∀ name c ys c', calls name c ys c' → c.rest = [] → ys = [])
  (forward : ∀ name c ys c', calls name c ys c' → c'.rest <:+ c.rest)
  (counted : ∀ name c ys c', calls name c ys c' → c.rest ≠ [] → (tallies name).Means c' ys)
  (plainly : ∀ name c ys c', calls name c ys c' → rules name = true → ∀ y ∈ ys, InExpression y)
  (called : ∀ name c ys c', calls name c ys c' → ∀ y ∈ ys, AllFit y)

include ended forward counted plainly called

theorem derives_allFit (derives : Derives calls p c xs c' ys) {inner : Bool} {n : Tally}
    (isSound : p.sound rules tallies inner n = true) (means : n.Means c xs)
    (isPlain : inner = true → p.plain rules = true ∧ ∀ x ∈ xs, InExpression x)
    (start : ∀ x ∈ xs, AllFit x) : ∀ y ∈ ys, AllFit y := by
  have added {xs zs : List (Node Kind)} (start : ∀ x ∈ xs, AllFit x)
      (more : ∀ z ∈ zs, AllFit z) : ∀ y ∈ xs ++ zs, AllFit y := fun y member =>
    (List.mem_append.mp member).elim (start y) (more y)
  induction derives generalizing inner n with
  | done => exact start
  | take id index next => exact added start (by simp [allFit_leaf])
  | stay => exact start
  | seq first _ ihp ihq =>
    obtain ⟨soundP, soundQ⟩ := Bool.and_eq_true_iff.mp isSound
    have plainBoth (h : inner = true) := Bool.and_eq_true_iff.mp (isPlain h).1
    refine ihq soundQ (derives_tally counted first means) (fun h => ⟨(plainBoth h).2, ?_⟩)
      (ihp soundP means (fun h => ⟨(plainBoth h).1, (isPlain h).2⟩) start)
    exact derives_plain plainly first (plainBoth h).1 (isPlain h).2
  | holds _ _ ih =>
    refine ih (Bool.and_eq_true_iff.mp isSound).1 means (fun h => ⟨?_, (isPlain h).2⟩) start
    exact (Bool.and_eq_true_iff.mp (isPlain h).1).1
  | fails _ _ ih =>
    refine ih (Bool.and_eq_true_iff.mp isSound).2 means (fun h => ⟨?_, (isPlain h).2⟩) start
    exact (Bool.and_eq_true_iff.mp (isPlain h).1).2
  | stop => exact start
  | @round test p c c' c'' xs ys zs holds first _ ihp ihq =>
    have means' : ((loop test p).tally tallies n).Means c xs := means_loop means test p
    have again : ((loop test p).tally tallies n).Means c' ys :=
      means_round means test (derives_tally counted first means) (derives_ne_nil first)
    have soundAgain : (loop test p).sound rules tallies inner ((loop test p).tally tallies n) =
        true := by
      rw [sound, tally_loop_tally]
      exact isSound
    exact ihq soundAgain again
      (fun h => ⟨(isPlain h).1, derives_plain plainly first (isPlain h).1 (isPlain h).2⟩)
      (ihp isSound means' isPlain start)
  | @node kind p c c' xs ys id body ih =>
    simp only [sound, Bool.and_eq_true, bne_iff_ne] at isSound
    obtain ⟨⟨⟨holds, notCall⟩, notConversion⟩, soundBody⟩ := isSound
    refine added start ?_
    by_cases empty : c.rest = []
    · rw [derives_at_end ended forward body empty rfl]
      simp [closed]
    · refine allFit_closed holds
        (ih soundBody ⟨rfl, empty⟩ (fun isPlain => ⟨isPlain, by simp⟩) (by simp))
        (fun isPlain => derives_plain plainly body isPlain (by simp))
        (fun isCall => absurd isCall notCall) (fun isConversion => absurd isConversion notConversion)
  | @group p c c' xs ys body ih =>
    refine added start ?_
    by_cases empty : c.rest = []
    · rw [derives_at_end ended forward body empty rfl]
      simp
    · exact ih isSound ⟨rfl, empty⟩ (fun isPlain => ⟨isPlain, by simp⟩) (by simp)
  | @adopt kind p mark c c' xs ys id body ih =>
    simp only [sound, Bool.and_eq_true, bne_iff_ne, Bool.or_eq_true, beq_iff_eq] at isSound
    obtain ⟨⟨⟨holds, call⟩, notConversion⟩, soundBody⟩ := isSound
    have means' : n.Means (c.startNodeAt mark kind) xs := by cases n <;> exact means
    have inside (h : (inner && p.plain rules) = true) :
        p.plain rules = true ∧ ∀ x ∈ xs, InExpression x :=
      ⟨(Bool.and_eq_true_iff.mp h).2, (isPlain (Bool.and_eq_true_iff.mp h).1).2⟩
    refine allFit_closed holds (ih soundBody means' inside start)
      (fun h => derives_plain plainly body (inside h).1 (inside h).2) ?_
      (fun isConversion => absurd isConversion notConversion)
    intro isCall
    obtain ⟨rfl, isContained⟩ := call.resolve_left fun notCall => notCall isCall
    obtain ⟨x, rfl, isName⟩ := means
    obtain ⟨zs, rfl⟩ := derives_prefix body isContained
    exact ⟨x, zs, rfl, isName⟩
  | rule ran => exact added start (called _ _ _ _ ran)

end Sound

end Production

/-- The rules that add only what may stand inside an expression. -/
def Rule.plain : Rule → Bool
  | .qualifiedName | .tableName | .dataType | .leaves | .expression | .expressionList
  | .conjunction | .negation | .comparison | .comparisonTail | .additive | .multiplicative
  | .unary | .primary | .nameOrCall | .functionArguments | .subquery | .caseExpression
  | .castExpression | .convertExpression => true
  | _ => false

theorem production_plain (rule : Rule) (isPlain : rule.plain = true) :
    (Grammar.production rule).plain Rule.plain = true := by
  revert isPlain
  cases rule <;> decide

theorem reads_plain {depth : Nat} {rule : Rule} {c c' : Cursor} {ys : List (Node Kind)}
    (reads : Reads depth rule c ys c') (isPlain : rule.plain = true) : ∀ y ∈ ys, InExpression y := by
  induction depth generalizing rule c c' ys with
  | zero => exact reads.elim
  | succ depth ih =>
    have derives : Derives (Reads depth) (Grammar.production rule) c [] c' ys := reads
    refine Production.derives_plain ?_ derives (production_plain rule isPlain) (by simp)
    exact fun _ _ _ _ reads isPlain => ih reads isPlain

theorem production_sound (rule : Rule) : rule = .convertExpression ∨
    (Grammar.production rule).sound Rule.plain Rule.tally false .fresh = true := by
  cases rule <;> decide

section Readings

variable {depth : Nat} {c c' : Cursor} {ys : List (Node Kind)}

/-- The rules for operands fail where no token is left. -/
def Rule.needsToken : Rule → Bool
  | .dataType | .expression | .conjunction | .negation | .comparison | .additive
  | .multiplicative | .unary | .primary => true
  | _ => false

theorem production_failsAtEnd (rule : Rule) (needs : rule.needsToken = true) :
    (Grammar.production rule).failsAtEnd Rule.needsToken = true := by
  revert needs
  cases rule <;> decide

theorem reads_left {rule : Rule} (reads : Reads depth rule c ys c')
    (needs : rule.needsToken = true) : c.rest ≠ [] := by
  induction depth generalizing rule c c' ys with
  | zero => exact reads.elim
  | succ depth ih =>
    have derives : Derives (Reads depth) (Grammar.production rule) c [] c' ys := reads
    refine Production.derives_left ?_ (fun _ _ _ _ => Reads.suffix) derives
      (production_failsAtEnd rule needs)
    exact fun _ _ _ _ reads needs => ih reads needs

theorem reads_expression (reads : Reads depth .expression c ys c') : ∃ value, ys = [value] :=
  reads_tally reads (reads_left reads rfl)

theorem reads_dataType (reads : Reads depth .dataType c ys c') :
    ∃ type, ys = [type] ∧ type.kind = .dataType ∧ type.isLeaf = false := by
  have left := reads_left reads rfl
  cases depth with
  | zero => exact reads.elim
  | succ depth =>
    cases reads with
    | holds sees derives =>
      cases derives with
      | node id body =>
        obtain ⟨middle, zs, first, later⟩ := derives_seq.mp body
        obtain ⟨leafId, index, token, -, -, rfl⟩ := first.taken left
        obtain ⟨head, rest, rfl⟩ :=
          List.exists_cons_of_ne_nil (Production.derives_ne_nil later (by simp))
        exact ⟨_, rfl, rfl, rfl⟩
    | fails _ derives => cases derives

theorem derives_style {xs : List (Node Kind)} (derives : Derives (Reads depth)
      (.whenever (.sees .comma) (.steps [.take, Grammar.call .expression])) c xs c' ys) :
    ∃ style, ys = xs ++ style ∧ (style = [] ∨
      ∃ separator code, style = [separator, code] ∧ separator.isLeaf = true ∧
        separator.kind = .comma) := by
  cases derives with
  | fails _ nothing =>
    obtain ⟨-, rfl⟩ := derives_done.mp nothing
    exact ⟨[], by simp, .inl rfl⟩
  | holds sees style =>
    obtain ⟨c₁, xs₁, taken, style⟩ := derives_seq.mp style
    obtain ⟨c₂, xs₂, read, done⟩ := derives_seq.mp style
    obtain ⟨rfl, rfl⟩ := derives_done.mp done
    have expected : Derives (Reads depth) (.expect .comma "") c xs c₁ xs₁ := .holds sees taken
    obtain ⟨id, index, token, -, isComma, rfl, rfl⟩ := expected.expected
    obtain ⟨codes, readCode, rfl⟩ := derives_rule.mp read
    obtain ⟨code, rfl⟩ := reads_expression readCode
    exact ⟨[.leaf id index token, code], by simp, .inr ⟨_, _, rfl, rfl, isComma⟩⟩

theorem derives_conversion {p : Production Rule} {parts : List (Node Kind)}
    (shape : Grammar.production .convertExpression = .node .convertExpression p)
    (body : Derives (Reads depth) p c [] c' parts) : IsConversion parts := by
  obtain ⟨-, rfl⟩ := Production.node.inj shape
  obtain ⟨c₁, xs₁, keyword, body⟩ := derives_seq.mp body
  obtain ⟨c₂, xs₂, left, body⟩ := derives_seq.mp body
  obtain ⟨c₃, xs₃, type, body⟩ := derives_seq.mp body
  obtain ⟨c₄, xs₄, comma, body⟩ := derives_seq.mp body
  obtain ⟨c₅, xs₅, value, body⟩ := derives_seq.mp body
  obtain ⟨c₆, xs₆, style, body⟩ := derives_seq.mp body
  obtain ⟨c₇, xs₇, right, done⟩ := derives_seq.mp body
  obtain ⟨rfl, rfl⟩ := derives_done.mp done
  obtain ⟨id₂, index₂, token₂, next₂, kind₂, rfl, rfl⟩ := left.expected
  have present : c.rest ≠ [] := by
    intro empty
    have shorter := keyword.suffix (fun _ _ _ _ => Reads.suffix)
    rw [empty, List.suffix_nil] at shorter
    simp [shorter] at next₂
  obtain ⟨id₁, index₁, token₁, -, -, rfl⟩ := keyword.taken present
  obtain ⟨types, readType, rfl⟩ := derives_rule.mp type
  obtain ⟨typeNode, rfl, typeKind, typeRule⟩ := reads_dataType readType
  obtain ⟨id₄, index₄, token₄, -, kind₄, rfl, rfl⟩ := comma.expected
  obtain ⟨values, readValue, rfl⟩ := derives_rule.mp value
  obtain ⟨valueNode, rfl⟩ := reads_expression readValue
  obtain ⟨id₇, index₇, token₇, -, kind₇, rfl, rfl⟩ := right.expected
  obtain ⟨styles, rfl, isStyle⟩ := derives_style style
  refine ⟨.leaf id₁ index₁ token₁, .leaf id₂ index₂ token₂, typeNode, .leaf id₄ index₄ token₄,
    valueNode, styles, .leaf id₇ index₇ token₇, rfl, ?_, kind₂, kind₄, kind₇, typeKind, typeRule,
    isStyle⟩
  simp [Node.isLeaf]

theorem reads_allFit {rule : Rule} (reads : Reads depth rule c ys c') : ∀ y ∈ ys, AllFit y := by
  induction depth generalizing rule c c' ys with
  | zero => exact reads.elim
  | succ depth ih =>
    have fits {p : Production Rule} {c c' : Cursor} {ys : List (Node Kind)} {inner : Bool}
        (derives : Derives (Reads depth) p c [] c' ys) (left : c.rest ≠ [])
        (isSound : p.sound Rule.plain Rule.tally inner .fresh = true)
        (isPlain : inner = true → p.plain Rule.plain = true) : ∀ y ∈ ys, AllFit y := by
      have start : Production.Tally.fresh.Means c [] := ⟨rfl, left⟩
      refine Production.derives_allFit ?_ ?_ ?_ ?_ ?_ derives isSound start
        (fun h => ⟨isPlain h, by simp⟩) (by simp)
      · exact fun _ _ _ _ => reads_at_end
      · exact fun _ _ _ _ => Reads.suffix
      · exact fun _ _ _ _ => reads_tally
      · exact fun _ _ _ _ => reads_plain
      · exact fun _ _ _ _ => ih
    by_cases empty : c.rest = []
    · rw [reads_at_end reads empty]
      simp
    rcases production_sound rule with rfl | isSound
    · cases reads with
      | node id body =>
        refine Production.allFit_closed (by decide : Production.mayHold _ true = true)
          (fits body empty (by decide : Production.sound _ _ _ true _ = true) fun _ => by decide)
          (fun _ => ?_) nofun (fun _ => derives_conversion rfl body)
        have isPlain (name : Rule) (c : Cursor) (ys : List (Node Kind)) (c' : Cursor)
            (reads : Reads depth name c ys c') := reads_plain reads
        exact Production.derives_plain isPlain body (by decide) (by simp)
    · exact fits reads empty isSound nofun

end Readings

/-- Every node of a tree is as the grammar says. -/
theorem parse_allFit {source : String} {tree : Tree Kind} (parsed : parse source = .ok tree) :
    ∀ node ∈ tree.descendants, Fits node := by
  intro node member
  cases isRoot : tree.root with
  | none => simp [Tree.descendants, isRoot] at member
  | some root =>
    obtain ⟨depth, c, c', reads⟩ := parse_derives parsed isRoot
    rw [Tree.descendants, isRoot] at member
    exact reads_allFit reads root List.mem_cons_self node member

theorem isLeaf_eq_false {source : String} {tree : Tree Kind} (parsed : parse source = .ok tree) {node : Node Kind}
    (member : node ∈ tree.descendants) (isRule : node.kind.isToken = false) : node.isLeaf = false := by
  cases node with
  | rule => rfl
  | leaf id index token =>
    obtain ⟨lexed, -, same⟩ := parse_tree parsed
    cases isRoot : tree.root with
    | none => simp [Tree.descendants, isRoot] at member
    | some root =>
      rw [isRoot] at same
      rw [Tree.descendants, isRoot] at member
      have isToken : token ∈ tree.tokens := same ▸ (Node.tokens_among root member).subset (by simp [Node.tokens])
      obtain ⟨c, rest, n, found, -⟩ := mem_lexFrom lexed token isToken
      have known : token.kind.isToken = true := isToken_of_tokenPiece found
      rw [Node.kind] at isRule
      rw [known] at isRule
      cases isRule

end SqlFerry.Tsql
