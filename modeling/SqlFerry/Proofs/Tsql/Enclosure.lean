import SqlFerry.Proofs.Tsql.Choice
import SqlFerry.Proofs.Tsql.Expression
import SqlFerry.Proofs.Tsql.Structure

/-! Expressions in parentheses. An expression in front of a statement is read again when it is put in
parentheses, since no statement begins with an operator. -/
namespace SqlFerry.Tsql

section Single

variable {depth : Nat} {rule : Rule} {s s' : Place} {ys : List (Node Kind)}

/-- Each course is that of a reading, up to the numbers of nodes. -/
theorem RuleCourse.exists_reads (course : RuleCourse depth rule s ys s') :
    ∃ c c' zs, Reads depth rule c zs c' ∧ zs.map Node.shape = ys.map Node.shape := by
  let start : Cursor := ⟨s.rest, ⟨s.line, 0⟩, (Builder.ofText "").startNode .compileUnit⟩
  have holds : start.Holds s [] start.builder.around := ⟨rfl, rfl, rfl⟩
  obtain ⟨c', ran, holds'⟩ := course.exec holds
  obtain ⟨zs, reads, opened⟩ := readRule_derives (show Open .compileUnit [] [] start from rfl) ran
  refine ⟨start, c', zs, reads, ?_⟩
  have children : c'.builder.children = zs := by
    unfold Open at opened
    simp [Builder.children, opened]
  have shapes := holds'.shapes
  rwa [Builder.shapes, children, List.nil_append] at shapes

theorem RuleCourse.expression_single (course : RuleCourse depth .expression s ys s') :
    ∃ value, ys = [value] := by
  obtain ⟨c, c', zs, reads, shapes⟩ := course.exists_reads
  obtain ⟨value, rfl⟩ := reads_expression reads
  have length := congrArg List.length shapes
  rw [List.length_map, List.length_map, List.length_singleton] at length
  exact List.length_eq_one_iff.mp length.symm

end Single

/-! What does not ask for lines reads the same wherever the line before ends. -/

/-- The rules that do not ask whether tokens stand on one line. -/
def Rule.isLineless : Rule → Bool
  | setOption | transaction => false
  | rule => !rule.isCompound

def Production.lineless : Production Rule → Bool
  | done | take | fail _ => true
  | seq p q => p.lineless && q.lineless
  | branch test p q => test.lineless && p.lineless && q.lineless
  | loop test p => test.lineless && p.lineless
  | node _ p | group p | adopt _ p => p.lineless
  | rule name => name.isLineless

theorem production_lineless (rule : Rule) (plain : rule.isLineless = true) :
    (Grammar.production rule).lineless = true := by
  revert plain
  cases rule <;> decide

theorem Look.answer_relined {test : Look} (plain : test.lineless = true) (rest : List (Token Kind))
    (line line' : Nat) : test.answer ⟨rest, line⟩ = test.answer ⟨rest, line'⟩ := by
  induction test with
  | kind | word | atEnd => rfl
  | sameLine => cases plain
  | not l ih => rw [answer, answer, ih plain]
  | and l r ihl ihr | or l r ihl ihr =>
    obtain ⟨first, second⟩ := Bool.and_eq_true_iff.mp plain
    rw [answer, answer, ihl first, ihr second]

section Relined

variable {calls : Rule → Place → List (Node Kind) → Place → Prop} {p : Production Rule} {s s' : Place}
  {xs ys : List (Node Kind)} {depth : Nat} {rule : Rule}

theorem Course.relined
    (called : ∀ name s ys s', name.isLineless = true → calls name s ys s' → ∀ line, ∃ line',
      calls name ⟨s.rest, line⟩ ys ⟨s'.rest, line'⟩)
    (course : Course calls p s xs s' ys) (plain : p.lineless = true) (line : Nat) :
    ∃ line', Course calls p ⟨s.rest, line⟩ xs ⟨s'.rest, line'⟩ ys := by
  induction course generalizing line with
  | done => exact ⟨line, .done⟩
  | @take token _ _ _ id index => exact ⟨token.stop.line, .take id index⟩
  | stay => exact ⟨line, .stay⟩
  | seq _ _ ihp ihq =>
    obtain ⟨plainP, plainQ⟩ := Bool.and_eq_true_iff.mp plain
    obtain ⟨middle, first⟩ := ihp plainP line
    obtain ⟨line', second⟩ := ihq plainQ middle
    exact ⟨line', .seq first second⟩
  | holds answer _ ih =>
    simp only [Production.lineless, Bool.and_eq_true] at plain
    obtain ⟨line', inner⟩ := ih plain.1.2 line
    exact ⟨line', .holds ((Look.answer_relined plain.1.1 ..).trans answer) inner⟩
  | fails answer _ ih =>
    simp only [Production.lineless, Bool.and_eq_true] at plain
    obtain ⟨line', inner⟩ := ih plain.2 line
    exact ⟨line', .fails ((Look.answer_relined plain.1.1 ..).trans answer) inner⟩
  | stop answer =>
    exact ⟨line, .stop ((Look.answer_relined (Bool.and_eq_true_iff.mp plain).1 ..).trans answer)⟩
  | round answer _ _ ihp ihq =>
    obtain ⟨plainTest, plainP⟩ := Bool.and_eq_true_iff.mp plain
    obtain ⟨middle, first⟩ := ihp plainP line
    obtain ⟨line', second⟩ := ihq plain middle
    exact ⟨line', .round ((Look.answer_relined plainTest ..).trans answer) first second⟩
  | node id _ ih =>
    obtain ⟨line', inner⟩ := ih plain line
    exact ⟨line', .node id inner⟩
  | group _ ih =>
    obtain ⟨line', inner⟩ := ih plain line
    exact ⟨line', .group inner⟩
  | adopt id _ ih =>
    obtain ⟨line', inner⟩ := ih plain line
    exact ⟨line', .adopt id inner⟩
  | rule ran =>
    obtain ⟨line', ran'⟩ := called _ _ _ _ plain ran line
    exact ⟨line', .rule ran'⟩

theorem RuleCourse.relined (course : RuleCourse depth rule s ys s') (plain : rule.isLineless = true)
    (line : Nat) :
    RuleCourse depth rule ⟨s.rest, line⟩ ys ⟨s'.rest, lineBehind line (Node.tokensOf ys)⟩ := by
  obtain ⟨line', again⟩ : ∃ line', RuleCourse depth rule ⟨s.rest, line⟩ ys ⟨s'.rest, line'⟩ := by
    induction depth generalizing rule s ys s' line with
    | zero => exact course.elim
    | succ depth ih =>
      exact Course.relined (fun _ _ _ _ plain course => ih course plain) course
        (production_lineless rule plain) line
  have isLine : line' = lineBehind line (Node.tokensOf ys) := again.line
  rwa [← isLine]

end Relined

/-- What is read does not depend on what was read before. -/
theorem Course.rebase {calls : Rule → Place → List (Node Kind) → Place → Prop} {p : Production Rule}
    {s s' : Place} {xs ys : List (Node Kind)} (course : Course calls p s xs s' ys)
    (contained : p.contained = true) :
    ∃ zs, ys = xs ++ zs ∧ ∀ ws, Course calls p s ws s' (ws ++ zs) := by
  induction course with
  | done => exact ⟨[], by simp, fun ws => by rw [List.append_nil]; exact .done⟩
  | take id index => exact ⟨_, rfl, fun ws => .take id index⟩
  | stay => exact ⟨[], by simp, fun ws => by rw [List.append_nil]; exact .stay⟩
  | seq _ _ ihp ihq =>
    obtain ⟨containedP, containedQ⟩ := Bool.and_eq_true_iff.mp contained
    obtain ⟨front, rfl, first⟩ := ihp containedP
    obtain ⟨back, rfl, second⟩ := ihq containedQ
    refine ⟨front ++ back, by simp, fun ws => .seq (first ws) ?_⟩
    rw [← List.append_assoc]
    exact second _
  | holds answer _ ih =>
    obtain ⟨zs, isZs, inner⟩ := ih (Bool.and_eq_true_iff.mp contained).1
    exact ⟨zs, isZs, fun ws => .holds answer (inner ws)⟩
  | fails answer _ ih =>
    obtain ⟨zs, isZs, inner⟩ := ih (Bool.and_eq_true_iff.mp contained).2
    exact ⟨zs, isZs, fun ws => .fails answer (inner ws)⟩
  | stop answer => exact ⟨[], by simp, fun ws => by rw [List.append_nil]; exact .stop answer⟩
  | round answer _ _ ihp ihq =>
    obtain ⟨front, rfl, first⟩ := ihp contained
    obtain ⟨back, rfl, second⟩ := ihq contained
    refine ⟨front ++ back, by simp, fun ws => .round answer (first ws) ?_⟩
    rw [← List.append_assoc]
    exact second _
  | node id inner => exact ⟨_, rfl, fun ws => .node id inner⟩
  | group inner => exact ⟨_, rfl, fun ws => .group inner⟩
  | adopt => cases contained
  | rule ran => exact ⟨_, rfl, fun ws => .rule ran⟩

/-! What stands behind the condition of a statement. -/

/-- The words with which statements begin that are understood. -/
def statementWords : List String := ["CREATE", "ALTER", "DROP", "TRUNCATE", "SELECT", "INSERT", "UPDATE", "DELETE",
  "DECLARE", "SET", "IF", "WHILE", "BEGIN", "COMMIT", "ROLLBACK", "SAVE", "RETURN", "PRINT", "RAISERROR",
  "EXEC", "EXECUTE", "BREAK", "CONTINUE"]

/-- The token is one with which a statement begins that is understood. -/
def IsStarter (token : Token Kind) : Prop :=
  token.kind = .semicolon ∨ token.kind = .keyword ∧ ∃ word ∈ statementWords, token.isWord word = true

theorem Look.answer_of_view {v : View} {s d : Place} (shows : v.Shows s d) {test : Look} {b : Bool}
    (all : (List.all (test.answers v) fun pair => pair.2 == b) = true) : test.answer d = b :=
  eq_of_beq (List.all_eq_true.mp all _ (Look.mem_answers shows test))

/-- No expression goes on with the first token of a statement. -/
theorem IsStarter.ends_expression {token : Token Kind} (starter : IsStarter token) (rest : List (Token Kind))
    (line : Nat) : afterDisjunction.answer ⟨token :: rest, line⟩ = false := by
  rcases starter with isSemicolon | ⟨keyword, word, isStarter, reads⟩
  · have shows := @View.shows_met (token :: rest) rest line [.semicolon] token (by simpa using isSemicolon)
    exact Look.answer_of_view shows (by decide)
  · have shows : View.Shows ⟨[.opener statementWords], .free⟩ ⟨token :: rest, line⟩ ⟨token :: rest, line⟩ :=
      View.shows_first ⟨rfl, token, rfl, keyword, word, isStarter, reads⟩
    exact Look.answer_of_view shows (by decide)

section Statement

variable {depth : Nat} {s s' : Place} {ys : List (Node Kind)}

theorem body_without_other :
    ((Grammar.production .statementBody).without (· == .otherStatement)).barred (fun _ => false)
      ⟨[.named], .free⟩ = true ∧
    ((Grammar.production .statementBody).without (· == .otherStatement)).barred (fun _ => false)
      ⟨[.other statementWords], .free⟩ = true := by
  decide

theorem RuleCourse.other_made (course : RuleCourse depth .otherStatement s ys s') (more : s.rest ≠ []) :
    ∃ node ∈ Node.descendantsOf ys, node.kind = .otherStatement := by
  cases depth with
  | zero => exact course.elim
  | succ depth =>
    match course with
    | .node id (.seq taken others) =>
      cases taken with
      | take leaf index =>
        obtain ⟨zs, rfl, -⟩ := others.rebase rfl
        exact ⟨_, List.mem_cons_self, rfl⟩
      | stay => exact absurd rfl more

theorem RuleCourse.body_starter (body : RuleCourse depth .statementBody s ys s')
    (understood : ∀ node ∈ Node.descendantsOf ys, node.kind ≠ .otherStatement) :
    ∃ token, s.rest.head? = some token ∧ IsStarter token := by
  cases depth with
  | zero => exact body.elim
  | succ depth =>
    have more : Look.atEnd.answer s = false := by
      cases body with
      | holds _ failed => cases failed
      | fails more _ => exact more
    have some : s.rest ≠ [] := List.ne_nil_of_length_pos (Look.demand_le more)
    have others (name : Rule) (isOther : (name == .otherStatement) = true) : ¬RuleCourse depth name s ys s' := by
      obtain rfl : name = .otherStatement := eq_of_beq isOther
      intro ran
      obtain ⟨node, member, isOther⟩ := ran.other_made some
      exact understood node member isOther
    have chosen := Course.without (show Course (RuleCourse depth) (Grammar.production .statementBody)
        s [] s' ys from body) others
    have passed {v : View} (shows : v.Shows s s) : ((Grammar.production .statementBody).without
        (· == .otherStatement)).barred (fun _ => false) v = false :=
      chosen.not_barred (fun _ _ _ _ _ refused => absurd refused Bool.false_ne_true) shows
    obtain ⟨first, rest, shape⟩ := List.exists_cons_of_ne_nil some
    have next : s.rest[0]? = Option.some first := by rw [shape]; rfl
    have keyword : first.kind = .keyword := by
      refine Classical.byContradiction fun contrary => ?_
      have shows : View.Shows ⟨[.named], .free⟩ s s :=
        View.shows_first ⟨rfl, fun token isToken => by
          obtain rfl := Option.some.inj (next.symm.trans isToken)
          exact contrary⟩
      exact absurd (body_without_other.1.symm.trans (passed shows)) (by decide)
    refine ⟨first, by rw [shape]; rfl, .inr ⟨keyword, Classical.byContradiction fun contrary => ?_⟩⟩
    have shows : View.Shows ⟨[.other statementWords], .free⟩ s s :=
      View.shows_first ⟨rfl, first, next, keyword, by simpa using contrary⟩
    exact absurd (body_without_other.2.symm.trans (passed shows)) (by decide)

theorem RuleCourse.starter (course : RuleCourse depth .statement s ys s')
    (understood : ∀ node ∈ Node.descendantsOf ys, node.kind ≠ .otherStatement) :
    ∃ token, s.rest.head? = some token ∧ IsStarter token := by
  cases depth with
  | zero => exact course.elim
  | succ depth =>
    cases course with
    | node id inside =>
      cases inside with
      | seq chosen ended =>
        cases chosen with
        | holds semi _ =>
          obtain ⟨rest, line⟩ := s
          cases rest with
          | nil => cases semi
          | cons token rest => exact ⟨token, rfl, .inl (by simpa [Look.sees, Look.answer] using semi)⟩
        | fails _ called =>
          cases called with
          | rule body =>
            exact body.body_starter fun node member =>
              understood node (descendantsOf_closed id .statement _ (ended.descendants member))

end Statement

/-- The rules with which an expression begins. -/
def Rule.isOperand : Rule → Bool
  | expression | conjunction | negation | comparison | additive | multiplicative | unary | primary => true
  | _ => false

theorem production_barred_select (rule : Rule) (operand : rule.isOperand = true) :
    (Grammar.production rule).barred Rule.isOperand ⟨[.opener ["SELECT"]], .free⟩ = true := by
  revert operand
  cases rule <;> decide

theorem RuleCourse.not_select {depth : Nat} {rule : Rule} {s s' d : Place} {ys : List (Node Kind)}
    (course : RuleCourse depth rule s ys s') (operand : rule.isOperand = true) :
    ¬View.Shows ⟨[.opener ["SELECT"]], .free⟩ s d := by
  intro shows
  induction depth generalizing rule s ys s' d with
  | zero => exact course.elim
  | succ depth ih =>
    have called (name : Rule) (s : Place) (ys : List (Node Kind)) (s' d : Place)
        (operand : name.isOperand = true) (shows : View.Shows ⟨[.opener ["SELECT"]], .free⟩ s d) :
        ¬RuleCourse depth name s ys s' := fun course => ih course operand shows
    have notBarred := Course.not_barred called course shows
    rw [production_barred_select rule operand] at notBarred
    cases notBarred

section Enclosed

def enclosed (left right : Token Kind) (node : Node Kind) : Node Kind :=
  .rule 0 .parenExpression (.leaf 0 0 left) [node, .leaf 0 0 right]

variable {depth line line' : Nat} {front r r' : List (Token Kind)} {node : Node Kind} {left right : Token Kind}

/-- An expression that is put in parentheses is read inside them. -/
theorem RuleCourse.enclosed
    (course : RuleCourse depth .expression ⟨front ++ r, line⟩ [node] ⟨r, line'⟩) (more : r ≠ [])
    (noSelect : (Look.on "SELECT").answer ⟨front ++ r, line⟩ = false)
    (isLeft : left.kind = .leftParen) (isRight : right.kind = .rightParen)
    (ends : ∀ line, afterDisjunction.answer ⟨r', line⟩ = false) (start : Nat) :
    RuleCourse (depth + 8) .expression ⟨left :: (front ++ right :: r'), start⟩ [enclosed left right node]
      ⟨r', right.stop.line⟩ := by
  have closes : right.kind ∈ closingKinds := by simp [isRight, closingKinds]
  have before := @transfers_closing r r' right (fun _ => True) closes (fun none => absurd none more) depth
    .expression 0 rfl nofun ⟨front ++ r, line⟩ [node] ⟨r, line'⟩ front [] course (Nat.zero_le _)
    (fun _ _ => trivial) rfl rfl (Nat.zero_le _)
  have inside := before.relined rfl left.stop.line
  obtain ⟨first, rest, isFront⟩ : ∃ first rest, front = first :: rest := by
    have tokens : front ++ r = node.tokens ++ r := by simpa [Node.tokensOf] using course.tokens
    obtain rfl := List.append_cancel_right tokens
    cases isTokens : node.tokens with
    | nil => simpa [isTokens] using node.head?_tokens
    | cons first rest => exact ⟨first, rest, rfl⟩
  have noSelect' : (Look.word 1 "SELECT").answer ⟨left :: (front ++ right :: r'), start⟩ = false := by
    rw [isFront] at noSelect ⊢
    exact noSelect
  have atParen := @View.shows_met [] (front ++ right :: r') start [.leftParen] left (by simp [isLeft])
  have both {l l' : Look} (none : (l ||| l').answer ⟨r', right.stop.line⟩ = false) :
      l.answer ⟨r', right.stop.line⟩ = false ∧ l'.answer ⟨r', right.stop.line⟩ = false :=
    Bool.or_eq_false_iff.mp none
  obtain ⟨noConjunct, noOr⟩ := both (ends right.stop.line)
  obtain ⟨noComparand, noAnd⟩ := both noConjunct
  obtain ⟨noMore, noTails⟩ := both noComparand
  obtain ⟨noComparison, noTail⟩ := both noTails
  obtain ⟨noSummand, noEscape⟩ := both noMore
  obtain ⟨noProduct, noSum⟩ := both noSummand
  obtain ⟨-, noFactor⟩ := both noProduct
  have primary : RuleCourse (depth + 1) .primary ⟨left :: (front ++ right :: r'), start⟩
      [Tsql.enclosed left right node] ⟨r', right.stop.line⟩ := by
    have select : (Look.sees .leftParen &&& .word 1 "SELECT").answer
        ⟨left :: (front ++ right :: r'), start⟩ = false := Bool.and_eq_false_imp.mpr fun _ => noSelect'
    have paren : (Look.sees .leftParen).answer ⟨left :: (front ++ right :: r'), start⟩ = true :=
      Look.answer_of_view atParen (by decide)
    have literal : (Look.any (([.stringLiteral, .numberLiteral, .binaryLiteral, .userVariable, .systemVariable,
        .tempTable] : List Kind).map .sees)).answer ⟨left :: (front ++ right :: r'), start⟩ = false :=
      Look.answer_of_view atParen (by decide)
    have ended (line : Nat) : (Look.sees .rightParen).answer ⟨right :: r', line⟩ = true := by
      simp [Look.sees, Look.answer, isRight]
    exact .fails literal (.fails select (.holds paren (.node 0 (.seq (.take 0 0) (.seq (.rule inside)
      (.seq (.holds (ended _) (.take 0 0)) .done))))))
  have unary : RuleCourse (depth + 2) .unary _ _ _ :=
    .fails (Look.answer_of_view atParen (by decide)) (.rule primary)
  have multiplicative : RuleCourse (depth + 3) .multiplicative _ _ _ := .group (.seq (.rule unary) (.stop noFactor))
  have additive : RuleCourse (depth + 4) .additive _ _ _ := .group (.seq (.rule multiplicative) (.stop noSum))
  have comparison : RuleCourse (depth + 5) .comparison _ _ _ :=
    .group (.seq (.rule additive) (.seq (.fails noComparison (.fails noTail .done)) .done))
  have negation : RuleCourse (depth + 6) .negation _ _ _ :=
    .fails (Look.answer_of_view atParen (by decide)) (.rule comparison)
  have conjunction : RuleCourse (depth + 7) .conjunction _ _ _ := .group (.seq (.rule negation) (.stop noAnd))
  exact .group (.seq (.rule conjunction) (.stop noOr))

end Enclosed

end SqlFerry.Tsql
