import SqlFerry.Proofs.Tsql.Phrase

/-! Expressions are read as they are derived. Each level of the operator grammar has a rule, and the
rule reads a phrase of its level where the tokens that follow do not make it go on; `goesOn` is the test
that decides this. One lemma for each production says that it reads its phrase if its parts are read.
On the levels with operators between operands the loop of the rule follows the left spine of the
derivation: having read a phrase of the level, the rule is before the next round of its loop. -/
namespace SqlFerry.Tsql

open Production Grammar

namespace Chain

def test : Chain → Look
  | disjunction => .on "OR"
  | conjunction => .on "AND"
  | sum => .any (additive.map .sees)
  | product => .any (multiplicative.map .sees)

theorem lineless_test (chain : Chain) : chain.test.lineless = true := by cases chain <;> rfl

end Chain

def comparisonTest : Look :=
  .any (([.equals, .notEquals, .less, .greater, .lessEquals, .greaterEquals] : List Kind).map .sees)

def tailTest : Look :=
  (.on "NOT" &&& .any (["LIKE", "IN", "BETWEEN"].map (.word 1))) |||
    .onAny ["LIKE", "IN", "BETWEEN", "IS"]

def afterAtom : Look := .sees .dot ||| .sees .leftParen
def afterProduct : Look := afterAtom ||| Chain.product.test
def afterSum : Look := afterProduct ||| Chain.sum.test
def afterTail : Look := afterSum ||| .on "ESCAPE"
def afterComparison : Look := afterTail ||| (comparisonTest ||| tailTest)
def afterConjunction : Look := afterComparison ||| Chain.conjunction.test
def afterDisjunction : Look := afterConjunction ||| Chain.disjunction.test

namespace Level

def rule : Level → Rule
  | chain .disjunction => .expression
  | chain .conjunction => .conjunction
  | chain .sum => .additive
  | chain .product => .multiplicative
  | negation => .negation
  | comparison => .comparison
  | unary => .unary
  | atom => .primary
  | tail => .comparisonTail
  | items => .expressionList

/-- What follows a phrase of the level goes on with it. -/
def goesOn : Level → Look
  | atom | unary => afterAtom
  | chain .product => afterProduct
  | chain .sum => afterSum
  | tail => afterTail
  | comparison | negation => afterComparison
  | chain .conjunction => afterConjunction
  | chain .disjunction => afterDisjunction
  | items => afterDisjunction ||| .sees .comma

/-- How many rules are entered for a phrase of the level before one reads a token. -/
def rank : Level → Nat
  | atom | tail => 0
  | unary => 1
  | chain .product => 2
  | chain .sum => 3
  | comparison => 4
  | negation => 5
  | chain .conjunction => 6
  | chain .disjunction => 7
  | items => 8

/-- The rule of the level reads the tokens and adds the shapes, if what follows does not go on and
ten rules may be entered for each token. -/
def Reads (level : Level) (faces : List (Kind × String)) (shapes : List (Shape Kind)) : Prop :=
  ∀ ⦃depth : Nat⦄ ⦃follow : List (Kind × String)⦄ (front : List (Shape Kind))
    (around : List (Kind × List (Shape Kind))),
    10 * faces.length + level.rank ≤ depth → level.goesOn.foresees follow = false →
    Takes (readRule depth level.rule) ⟨faces ++ follow, front, around⟩
      ⟨follow, front ++ shapes, around⟩

theorem Reads.called {level : Level} {faces follow : List (Kind × String)}
    {shapes front children : List (Shape Kind)} {around : List (Kind × List (Shape Kind))}
    {depth : Nat} {mark : Checkpoint} (reads : level.Reads faces shapes)
    (enough : 10 * faces.length + level.rank ≤ depth)
    (stops : level.goesOn.foresees follow = false) (same : front ++ shapes = children) :
    Takes ((call level.rule).exec (readRule depth) mark) ⟨faces ++ follow, front, around⟩
      ⟨follow, children, around⟩ :=
  same ▸ reads front around enough stops

theorem reads_of_production {level : Level} {faces : List (Kind × String)}
    {shapes : List (Shape Kind)} (visible : faces ≠ [])
    (taken : ∀ depth follow front around, 10 * faces.length + level.rank ≤ depth + 1 →
      level.goesOn.foresees follow = false →
      Takes ((production level.rule).exec (readRule depth) ⟨0⟩) ⟨faces ++ follow, front, around⟩
        ⟨follow, front ++ shapes, around⟩) : level.Reads faces shapes := by
  intro depth follow front around enough stops
  have positive := List.length_pos_iff.mpr visible
  cases depth with
  | zero => omega
  | succ depth => exact taken depth follow front around enough stops

end Level

namespace Chain

theorem production_rule (chain : Chain) : production (Level.chain chain).rule =
    leftNested chain.operand.rule chain.test chain.node := by
  cases chain <;> rfl

theorem goesOn_eq (chain : Chain) :
    (Level.chain chain).goesOn = (chain.operand.goesOn ||| chain.test) := by
  cases chain <;> rfl

theorem rank_eq (chain : Chain) : (Level.chain chain).rank = chain.operand.rank + 1 := by
  cases chain <;> rfl

theorem foresees_test {chain : Chain} (op : chain.Operator) (rest : List (Kind × String)) :
    chain.test.foresees (op.lexeme.face :: rest) = true := by
  cases chain with
  | disjunction => exact Word.foresees op rfl rfl
  | conjunction => exact Word.foresees op rfl rfl
  | sum => exact Mark.foresees op fun _ => rfl
  | product => exact Mark.foresees op fun _ => rfl

/-- An operator does not go on with the operand on its left. -/
theorem operator_stops {chain : Chain} (op : chain.Operator) (rest : List (Kind × String)) :
    chain.operand.goesOn.foresees (op.lexeme.face :: rest) = false := by
  cases chain with
  | disjunction => exact Word.foresees op rfl rfl
  | conjunction => exact Word.foresees op rfl rfl
  | sum => exact Mark.foresees op fun _ => rfl
  | product => exact Mark.foresees op fun _ => rfl

end Chain

theorem Takes.lexeme {call : Rule → Cursor → Except ParseError Cursor} {mark : Checkpoint}
    (l : Lexeme) {rest : List (Kind × String)} {children : List (Shape Kind)}
    {around : List (Kind × List (Shape Kind))} :
    Takes (take.exec call mark) ⟨l.face :: rest, children, around⟩
      ⟨rest, children ++ [l.leaf], around⟩ := Takes.token

theorem Takes.skim_not {call : Rule → Cursor → Except ParseError Cursor} {mark : Checkpoint}
    {rest : List (Kind × String)} {children : List (Shape Kind)}
    {around : List (Kind × List (Shape Kind))} (negation : Option (Word "NOT"))
    (other : (Look.on "NOT").foresees rest = false) :
    Takes ((skim "NOT").exec call mark)
      ⟨(optional negation).map Lexeme.face ++ rest, children, around⟩
      ⟨rest, children ++ (optional negation).map Lexeme.leaf, around⟩ := by
  cases negation with
  | none => exact Takes.branch_neg rfl other (Takes.nothing.giving (by simp [optional]))
  | some word => exact Takes.branch_pos rfl (word.foresees rfl rfl) (Takes.lexeme word.1)

/-- An operand and the rounds of a loop behind it read the tokens and add the shapes: what the rounds
left to do take from there, reading takes from the start. -/
def Leads (operand : Level) (test : Look) (step : Production Rule) (faces : List (Kind × String))
    (shapes : List (Shape Kind)) : Prop :=
  ∀ ⦃depth : Nat⦄ ⦃follow : List (Kind × String)⦄ ⦃front : List (Shape Kind)⦄
    ⦃around : List (Kind × List (Shape Kind))⦄ ⦃stop : Sketch⦄,
    10 * faces.length + operand.rank ≤ depth → operand.goesOn.foresees follow = false →
    (∀ tokens, follow.length ≤ tokens.length →
      Takes (iterate test (step.exec (readRule depth) ⟨front.length⟩) tokens)
        ⟨follow, front ++ shapes, around⟩ stop) →
    Takes ((seq (call operand.rule) (loop test step)).exec (readRule depth) ⟨front.length⟩)
      ⟨faces ++ follow, front, around⟩ stop

namespace Leads

variable {operand : Level} {test : Look} {step : Production Rule} {left right : List (Kind × String)}
  {leftShapes shapes : List (Shape Kind)}

theorem first (reads : operand.Reads left leftShapes) : Leads operand test step left leftShapes := by
  intro depth follow front around stop enough stops rounds
  refine Takes.seq (reads front around enough stops) (Takes.loop ?_)
  intro tokens length
  exact rounds tokens (Nat.le_of_eq length.symm)

theorem round (leads : Leads operand test step left leftShapes) {op : Kind × String}
    (plain : test.lineless = true) (holds : ∀ rest, test.foresees (op :: rest) = true)
    (stopsLeft : ∀ rest, operand.goesOn.foresees (op :: rest) = false)
    (stepped : ∀ depth follow front around, 10 * right.length + operand.rank ≤ depth →
      operand.goesOn.foresees follow = false →
      Takes (step.exec (readRule depth) ⟨front.length⟩)
        ⟨op :: (right ++ follow), front ++ leftShapes, around⟩ ⟨follow, front ++ shapes, around⟩) :
    Leads operand test step (left ++ op :: right) shapes := by
  intro depth follow front around stop enough stops rounds
  simp only [List.length_append, List.length_cons] at enough
  rw [List.append_assoc]
  refine leads (by omega) (stopsLeft _) ?_
  intro tokens length
  cases tokens with
  | nil => simp at length
  | cons token tokens =>
    have stepped := stepped depth follow front around (by omega) stops
    have left : follow.length ≤ tokens.length := by
      simp only [List.cons_append, List.length_cons, List.length_append] at length
      omega
    exact Takes.round plain (holds _) stepped (rounds tokens left)

end Leads

/-- The reading of a level whose operators nest to the left. -/
abbrev Chain.Leads (chain : Chain) : List (Kind × String) → List (Shape Kind) → Prop :=
  Tsql.Leads chain.operand chain.test (binary chain.node chain.operand.rule)

theorem Chain.Leads.binary {chain : Chain} {left right : List (Kind × String)}
    {leftShapes rightShapes : List (Shape Kind)} (leads : chain.Leads left leftShapes)
    (op : chain.Operator) (reads : chain.operand.Reads right rightShapes) :
    chain.Leads (left ++ op.lexeme.face :: right)
      [.rule chain.node (leftShapes ++ op.lexeme.leaf :: rightShapes)] := by
  refine leads.round chain.lineless_test (chain.foresees_test op) (chain.operator_stops op) ?_
  intro depth follow front around enough stops
  exact Takes.adopt (by simp) (Takes.seq (Takes.lexeme op.lexeme)
    (reads.called enough stops (by simp)))

theorem Chain.Leads.reads {chain : Chain} {faces : List (Kind × String)}
    {shapes : List (Shape Kind)} (leads : chain.Leads faces shapes) (visible : faces ≠ []) :
    (Level.chain chain).Reads faces shapes := by
  apply Level.reads_of_production visible
  intro depth follow front around enough stops
  rw [chain.goesOn_eq] at stops
  obtain ⟨operandStops, testFails⟩ := Bool.or_eq_false_iff.mp stops
  rw [chain.rank_eq] at enough
  rw [chain.production_rule]
  refine Takes.group (leads (by omega) operandStops ?_)
  intro tokens _
  exact Takes.rounds_end chain.lineless_test testFails tokens

namespace Level

variable {faces rightFaces : List (Kind × String)} {shapes rightShapes : List (Shape Kind)}

theorem Reads.not (reads : negation.Reads faces shapes) (word : Word "NOT") :
    negation.Reads (word.1.face :: faces) [.rule .notExpression (word.1.leaf :: shapes)] := by
  apply reads_of_production (by simp)
  intro depth follow front around enough stops
  simp only [List.length_cons] at enough
  refine Takes.branch_pos rfl (word.foresees rfl rfl) (Takes.node (by simp) ?_)
  exact Takes.seq (Takes.lexeme word.1) (Takes.seq (reads.called (by omega) stops rfl) Takes.nothing)

theorem Reads.positive (reads : comparison.Reads faces shapes)
    (starts : Starts comparison.neverStarts faces) : negation.Reads faces shapes := by
  obtain ⟨first, rest, rfl, none⟩ := starts
  apply reads_of_production (by simp)
  intro depth follow front around enough stops
  simp only [rank] at enough
  refine Takes.branch_neg rfl (none "NOT" (by decide)) ?_
  exact reads.called (by simp only [rank]; omega) stops rfl

theorem Reads.plain (reads : sum.Reads faces shapes) (visible : faces ≠ []) :
    comparison.Reads faces shapes := by
  apply reads_of_production visible
  intro depth follow front around enough stops
  simp only [rank] at enough
  obtain ⟨tailStops, testsFail⟩ := Bool.or_eq_false_iff.mp stops
  obtain ⟨sumStops, -⟩ := Bool.or_eq_false_iff.mp tailStops
  obtain ⟨comparisonFails, tailFails⟩ := Bool.or_eq_false_iff.mp testsFail
  refine Takes.group (Takes.seq (reads.called (by simp only [rank]; omega) sumStops rfl) ?_)
  exact Takes.seq (Takes.branch_neg rfl comparisonFails (Takes.branch_neg rfl tailFails
    Takes.nothing)) Takes.nothing

theorem Reads.compare (left : sum.Reads faces shapes)
    (op : Mark [.equals, .notEquals, .less, .greater, .lessEquals, .greaterEquals])
    (right : sum.Reads rightFaces rightShapes) :
    comparison.Reads (faces ++ op.1.face :: rightFaces)
      [.rule .comparisonExpression (shapes ++ op.1.leaf :: rightShapes)] := by
  apply reads_of_production (by simp)
  intro depth follow front around enough stops
  simp only [rank, List.length_append, List.length_cons] at enough
  obtain ⟨tailStops, -⟩ := Bool.or_eq_false_iff.mp stops
  obtain ⟨sumStops, -⟩ := Bool.or_eq_false_iff.mp tailStops
  simp only [List.append_assoc, List.cons_append]
  refine Takes.group (Takes.seq (left.called (by simp only [rank]; omega)
    (op.foresees fun _ => rfl) rfl) (Takes.seq ?_ Takes.nothing))
  refine Takes.branch_pos rfl (op.foresees fun _ => rfl) (Takes.adopt (by simp) ?_)
  exact Takes.seq (Takes.lexeme op.1) (right.called (by simp only [rank]; omega) sumStops (by simp))

theorem Reads.like (pattern : sum.Reads faces shapes) (word : Word "LIKE") :
    tail.Reads (word.1.face :: faces) (word.1.leaf :: shapes) := by
  apply reads_of_production (by simp)
  intro depth follow front around enough stops
  simp only [rank, List.length_cons] at enough
  obtain ⟨sumStops, escapeFails⟩ := Bool.or_eq_false_iff.mp stops
  refine Takes.branch_pos rfl (word.foresees rfl rfl) (Takes.seq (Takes.lexeme word.1) ?_)
  refine Takes.seq (pattern.called (by simp only [rank]; omega) sumStops rfl) ?_
  exact Takes.seq (Takes.branch_neg rfl escapeFails (Takes.nothing.giving (by simp))) Takes.nothing

theorem Reads.likeEscape (pattern : sum.Reads faces shapes)
    (character : sum.Reads rightFaces rightShapes) (word : Word "LIKE") (escape : Word "ESCAPE") :
    tail.Reads (word.1.face :: faces ++ escape.1.face :: rightFaces)
      (word.1.leaf :: shapes ++ escape.1.leaf :: rightShapes) := by
  apply reads_of_production (by simp)
  intro depth follow front around enough stops
  simp only [rank, List.length_append, List.length_cons] at enough
  obtain ⟨sumStops, -⟩ := Bool.or_eq_false_iff.mp stops
  simp only [List.append_assoc, List.cons_append]
  refine Takes.branch_pos rfl (word.foresees rfl rfl) (Takes.seq (Takes.lexeme word.1) ?_)
  refine Takes.seq (pattern.called (by simp only [rank]; omega) (escape.foresees rfl rfl) rfl) ?_
  refine Takes.seq (Takes.branch_pos rfl (escape.foresees rfl rfl) ?_) Takes.nothing
  exact Takes.seq (Takes.lexeme escape.1) (Takes.seq
    (character.called (by simp only [rank]; omega) sumStops (by simp)) Takes.nothing)

theorem Reads.between (low : sum.Reads faces shapes) (high : sum.Reads rightFaces rightShapes)
    (word : Word "BETWEEN") (conjunction : Word "AND") :
    tail.Reads (word.1.face :: faces ++ conjunction.1.face :: rightFaces)
      (word.1.leaf :: shapes ++ conjunction.1.leaf :: rightShapes) := by
  apply reads_of_production (by simp)
  intro depth follow front around enough stops
  simp only [rank, List.length_append, List.length_cons] at enough
  obtain ⟨sumStops, -⟩ := Bool.or_eq_false_iff.mp stops
  simp only [List.append_assoc, List.cons_append]
  refine Takes.branch_neg rfl (word.foresees rfl rfl) (Takes.branch_neg rfl (word.foresees rfl rfl)
    (Takes.branch_pos rfl (word.foresees rfl rfl) (Takes.seq (Takes.lexeme word.1) ?_)))
  refine Takes.seq
    (low.called (by simp only [rank]; omega) (conjunction.foresees rfl rfl) rfl) ?_
  refine Takes.seq
    (Takes.branch_pos rfl (conjunction.foresees rfl rfl) (Takes.lexeme conjunction.1)) ?_
  exact Takes.seq (high.called (by simp only [rank]; omega) sumStops (by simp)) Takes.nothing

theorem Reads.isIn (reads : items.Reads faces shapes) (starts : Starts items.neverStarts faces)
    (word : Word "IN") (left : Mark [.leftParen]) (right : Mark [.rightParen]) :
    tail.Reads (word.1.face :: left.1.face :: faces ++ [right.1.face])
      (word.1.leaf :: left.1.leaf :: shapes ++ [right.1.leaf]) := by
  obtain ⟨first, rest, rfl, none⟩ := starts
  apply reads_of_production (by simp)
  intro depth follow front around enough stops
  simp only [rank, List.length_append, List.length_cons] at enough
  simp only [List.append_assoc, List.cons_append, List.nil_append]
  refine Takes.branch_neg rfl (word.foresees rfl rfl) (Takes.branch_pos rfl (word.foresees rfl rfl)
    (Takes.seq (Takes.lexeme word.1) (Takes.seq ?_ Takes.nothing)))
  refine Takes.branch_neg rfl (Look.foresees_and_right (none "SELECT" (by decide))) ?_
  refine Takes.seq (Takes.branch_pos rfl (left.foresees fun _ => rfl) (Takes.lexeme left.1)) ?_
  refine Takes.seq (reads.called (by simp only [rank, List.length_cons]; omega)
    (right.foresees fun _ => rfl) rfl) ?_
  exact Takes.seq (Takes.branch_pos rfl (right.foresees fun _ => rfl)
    ((Takes.lexeme right.1).giving (by simp))) Takes.nothing

/-- What follows the left side of a test that has a name starts with one of these words. -/
def TailStart (faces : List (Kind × String)) : Prop :=
  ∃ w ∈ ["LIKE", "IN", "BETWEEN"], ∃ (word : Word w) (rest : List (Kind × String)),
    faces = word.1.face :: rest

theorem TailStart.foresees (start : TailStart faces) {look : Look} {follow : List (Kind × String)}
    {answer : Bool}
    (each : ∀ rest, (["LIKE", "IN", "BETWEEN"].all fun w =>
      [Kind.keyword, Kind.identifier].all fun kind =>
        look.foresees ((kind, w) :: rest) == answer) = true) :
    look.foresees (faces ++ follow) = answer := by
  obtain ⟨w, member, word, rest, rfl⟩ := start
  have both := List.all_eq_true.mp (List.all_eq_true.mp (each (rest ++ follow)) w member)
  exact word.foresees (beq_iff_eq.mp (both _ (by simp))) (beq_iff_eq.mp (both _ (by simp)))

/-- The tests that are made in front of a tail with or without `NOT`. -/
theorem tail_tests (negation : Option (Word "NOT")) (start : TailStart faces)
    (follow : List (Kind × String)) :
    let next := (optional negation).map Lexeme.face ++ (faces ++ follow)
    sum.goesOn.foresees next = false ∧ comparisonTest.foresees next = false ∧
      tailTest.foresees next = true := by
  cases negation with
  | none =>
    exact ⟨start.foresees fun _ => rfl, start.foresees fun _ => rfl, start.foresees fun _ => rfl⟩
  | some word =>
    have named : (Look.any (["LIKE", "IN", "BETWEEN"].map (Look.word 0))).foresees
        (faces ++ follow) = true := start.foresees fun _ => rfl
    refine ⟨word.foresees rfl rfl, word.foresees rfl rfl, Bool.or_eq_true_iff.mpr (.inl ?_)⟩
    refine Bool.and_eq_true_iff.mpr ⟨word.foresees rfl rfl, ?_⟩
    rw [Look.foresees_any] at named ⊢
    exact named

theorem Reads.test (left : sum.Reads faces shapes) (negation : Option (Word "NOT"))
    (right : tail.Reads rightFaces rightShapes) (start : TailStart rightFaces)
    (visible : rightShapes ≠ []) :
    comparison.Reads (faces ++ (optional negation).map Lexeme.face ++ rightFaces)
      [.rule .comparisonExpression
        (shapes ++ (optional negation).map Lexeme.leaf ++ rightShapes)] := by
  apply reads_of_production (by obtain ⟨_, _, _, _, rfl⟩ := start; simp)
  intro depth follow front around enough stops
  simp only [rank, List.length_append] at enough
  obtain ⟨tailStops, -⟩ := Bool.or_eq_false_iff.mp stops
  obtain ⟨sumStops, comparisonFails, tailHolds⟩ := tail_tests negation start follow
  simp only [List.append_assoc]
  refine Takes.group (Takes.seq (left.called (by simp only [rank]; omega) sumStops rfl)
    (Takes.seq ?_ Takes.nothing))
  refine Takes.branch_neg rfl comparisonFails (Takes.branch_pos rfl tailHolds
    (Takes.adopt (by simp [visible]) ?_))
  refine Takes.seq (Takes.skim_not negation (start.foresees fun _ => rfl)) ?_
  exact Takes.seq (right.called (by simp only [rank]; omega) tailStops (by simp)) Takes.nothing

theorem Reads.isNull (left : sum.Reads faces shapes) (word : Word "IS")
    (negation : Option (Word "NOT")) (value : Word "NULL") :
    comparison.Reads (faces ++ word.1.face :: ((optional negation).map Lexeme.face ++ [value.1.face]))
      [.rule .comparisonExpression
        (shapes ++ word.1.leaf :: ((optional negation).map Lexeme.leaf ++ [value.1.leaf]))] := by
  apply reads_of_production (by simp)
  intro depth follow front around enough stops
  simp only [rank, List.length_append, List.length_cons] at enough
  obtain ⟨depth, rfl⟩ : ∃ d, depth = d + 1 := ⟨depth - 1, by omega⟩
  simp only [List.append_assoc, List.cons_append, List.nil_append]
  refine Takes.group (Takes.seq (left.called (by simp only [rank]; omega)
    (word.foresees rfl rfl) rfl) (Takes.seq ?_ Takes.nothing))
  refine Takes.branch_neg rfl (word.foresees rfl rfl) (Takes.branch_pos rfl
    (word.foresees rfl rfl) (Takes.adopt (by simp) ?_))
  refine Takes.seq (Takes.branch_neg rfl (word.foresees rfl rfl) Takes.nothing)
    (Takes.seq ?_ Takes.nothing)
  refine Takes.branch_neg rfl (word.foresees rfl rfl) (Takes.branch_neg rfl
    (word.foresees rfl rfl) (Takes.branch_neg rfl (word.foresees rfl rfl) ?_))
  refine Takes.seq (Takes.branch_pos rfl (word.foresees rfl rfl) (Takes.lexeme word.1)) ?_
  refine Takes.seq (Takes.skim_not negation (value.foresees rfl rfl)) ?_
  exact Takes.seq (Takes.branch_pos rfl (value.foresees rfl rfl)
    ((Takes.lexeme value.1).giving (by simp))) Takes.nothing

theorem Reads.signed (reads : unary.Reads faces shapes) (sign : Mark [.minus, .plus, .tilde]) :
    unary.Reads (sign.1.face :: faces) [.rule .unaryExpression (sign.1.leaf :: shapes)] := by
  apply reads_of_production (by simp)
  intro depth follow front around enough stops
  simp only [List.length_cons] at enough
  refine Takes.branch_pos rfl (sign.foresees fun _ => rfl) (Takes.node (by simp) ?_)
  exact Takes.seq (Takes.lexeme sign.1) (Takes.seq (reads.called (by omega) stops rfl) Takes.nothing)

def signTest : Look := .any (([.minus, .plus, .tilde] : List Kind).map .sees)

theorem Reads.unsigned (reads : atom.Reads faces shapes) (visible : faces ≠ [])
    (noSign : ∀ follow, signTest.foresees (faces ++ follow) = false) : unary.Reads faces shapes := by
  apply reads_of_production visible
  intro depth follow front around enough stops
  simp only [rank] at enough
  exact Takes.branch_neg rfl (noSign follow) (reads.called (by simp only [rank]; omega) stops rfl)

theorem reads_literal
    (value : Mark [.numberLiteral, .stringLiteral, .userVariable, .systemVariable]) :
    atom.Reads [value.1.face] [value.1.leaf] := by
  apply reads_of_production (by simp)
  intro depth follow front around enough stops
  exact Takes.branch_pos rfl (value.foresees fun _ => rfl) (Takes.lexeme value.1)

theorem reads_null (word : Word "NULL") : atom.Reads [word.1.face] [word.1.leaf] := by
  apply reads_of_production (by simp)
  intro depth follow front around enough stops
  have spelled (look : Look) : look.foresees (word.1.face :: follow) =
      look.foresees ((.keyword, "NULL") :: follow) := word.foresees_keyword (by decide) look follow
  refine Takes.branch_neg rfl (spelled _) (Takes.branch_neg rfl (spelled _) ?_)
  exact Takes.branch_neg rfl (spelled _) (Takes.branch_pos rfl (spelled _) (Takes.lexeme word.1))

theorem takes_name {depth : Nat} {follow : List (Kind × String)} {front : List (Shape Kind)}
    {around : List (Kind × List (Shape Kind))} (l : Lexeme)
    (stops : afterAtom.foresees follow = false) :
    Takes ((production .nameOrCall).exec (readRule depth) ⟨0⟩) ⟨l.face :: follow, front, around⟩
      ⟨follow, front ++ [.rule .columnRef [l.leaf]], around⟩ := by
  obtain ⟨noDot, noParen⟩ := Bool.or_eq_false_iff.mp stops
  refine Takes.group (Takes.seq (Takes.lexeme l)
    (Takes.seq (Takes.loop_skipped rfl (Look.foresees_and_left noDot)) ?_))
  refine Takes.seq (Takes.branch_neg rfl noDot Takes.nothing) ?_
  exact Takes.seq (Takes.branch_neg rfl noParen (Takes.adopt (by simp) Takes.nothing)) Takes.nothing

theorem reads_column (name : Mark [.identifier]) :
    atom.Reads [name.1.face] [.rule .columnRef [name.1.leaf]] := by
  obtain ⟨⟨kind, text, lexes⟩, isName⟩ := name
  obtain rfl : kind = .identifier := by simpa using isName
  apply reads_of_production (by simp)
  intro depth follow front around enough stops
  simp only [List.length_singleton] at enough
  obtain ⟨depth, rfl⟩ : ∃ d, depth = d + 1 := ⟨depth - 1, by omega⟩
  obtain ⟨-, noParen⟩ := Bool.or_eq_false_iff.mp stops
  refine Takes.branch_neg rfl rfl (Takes.branch_neg rfl rfl (Takes.branch_neg rfl rfl ?_))
  refine Takes.branch_neg rfl rfl (Takes.branch_neg rfl rfl (Takes.branch_neg rfl rfl ?_))
  refine Takes.branch_neg rfl rfl (Takes.branch_neg rfl rfl ?_)
  refine Takes.branch_neg rfl (Look.foresees_and_right noParen) (Takes.branch_pos rfl rfl ?_)
  exact takes_name ⟨_, text, lexes⟩ stops

theorem Reads.paren (reads : disjunction.Reads faces shapes)
    (starts : Starts disjunction.neverStarts faces) (left : Mark [.leftParen])
    (right : Mark [.rightParen]) :
    atom.Reads (left.1.face :: faces ++ [right.1.face])
      [.rule .parenExpression (left.1.leaf :: shapes ++ [right.1.leaf])] := by
  obtain ⟨first, rest, rfl, none⟩ := starts
  apply reads_of_production (by simp)
  intro depth follow front around enough stops
  simp only [rank, List.length_append, List.length_cons] at enough
  simp only [List.append_assoc, List.cons_append, List.nil_append]
  refine Takes.branch_neg rfl (left.foresees fun _ => rfl) ?_
  refine Takes.branch_neg rfl (Look.foresees_and_right (none "SELECT" (by decide))) ?_
  refine Takes.branch_pos rfl (left.foresees fun _ => rfl) (Takes.node (by simp) ?_)
  refine Takes.seq (Takes.lexeme left.1) ?_
  refine Takes.seq (reads.called (by simp only [rank, List.length_cons]; omega)
    (right.foresees fun _ => rfl) rfl) ?_
  exact Takes.seq (Takes.branch_pos rfl (right.foresees fun _ => rfl) (Takes.lexeme right.1))
    Takes.nothing

end Level

/-- The reading of a list with commas. -/
abbrev ItemsLead : List (Kind × String) → List (Shape Kind) → Prop :=
  Leads .disjunction (.sees .comma) (seq take (call .expression))

theorem ItemsLead.more {faces itemFaces : List (Kind × String)}
    {shapes itemShapes : List (Shape Kind)} (leads : ItemsLead faces shapes) (comma : Mark [.comma])
    (reads : Level.disjunction.Reads itemFaces itemShapes) :
    ItemsLead (faces ++ comma.1.face :: itemFaces) (shapes ++ comma.1.leaf :: itemShapes) := by
  refine leads.round rfl (fun _ => comma.foresees fun _ => rfl)
    (fun _ => comma.foresees fun _ => rfl) ?_
  intro depth follow front around enough stops
  exact Takes.seq (Takes.lexeme comma.1) (reads.called enough stops (by simp))

theorem ItemsLead.reads {faces : List (Kind × String)} {shapes : List (Shape Kind)}
    (leads : ItemsLead faces shapes) (visible : faces ≠ []) : Level.items.Reads faces shapes := by
  apply Level.reads_of_production visible
  intro depth follow front around enough stops
  simp only [Level.rank] at enough
  obtain ⟨itemStops, noComma⟩ := Bool.or_eq_false_iff.mp stops
  exact leads (by simp only [Level.rank]; omega) itemStops fun tokens _ =>
    Takes.rounds_end rfl noComma tokens

/-- How phrases of a level are read, in the form that is carried from a phrase to a longer one. -/
def Level.Sound : Level → List (Kind × String) → List (Shape Kind) → Prop
  | .chain c => c.Leads
  | .items => ItemsLead
  | level => level.Reads

theorem Level.Sound.reads {level : Level} {faces : List (Kind × String)} {shapes : List (Shape Kind)}
    (sound : level.Sound faces shapes) (visible : faces ≠ []) : level.Reads faces shapes := by
  cases level with
  | chain chain => exact Chain.Leads.reads sound visible
  | items => exact ItemsLead.reads sound visible
  | _ => exact sound

theorem Level.Sound.giving {level : Level} {faces faces' : List (Kind × String)}
    {shapes : List (Shape Kind)} (sound : level.Sound faces shapes) (same : faces = faces') :
    level.Sound faces' shapes := same ▸ sound

namespace Phrase

theorem visible {level : Level} (e : Phrase level) : e.faces ≠ [] := by
  obtain ⟨first, rest, shape, -⟩ := e.starts
  simp [shape]

theorem noSign (e : Phrase .atom) (follow : List (Kind × String)) :
    Level.signTest.foresees (e.faces ++ follow) = false := by
  cases e with
  | literal value => exact value.foresees fun _ => rfl
  | column name => exact name.foresees fun _ => rfl
  | null word => exact word.foresees rfl rfl
  | paren left e right => exact left.foresees fun _ => rfl

theorem tailStart (e : Phrase .tail) : Level.TailStart e.faces := by
  cases e with
  | like word => exact ⟨_, by simp, word, _, rfl⟩
  | likeEscape word => exact ⟨_, by simp, word, _, rfl⟩
  | isIn word => exact ⟨_, by simp, word, _, rfl⟩
  | between word => exact ⟨_, by simp, word, _, rfl⟩

theorem tail_shapes_ne_nil (e : Phrase .tail) : e.shapes ≠ [] := by
  cases e <;> simp [shapes]

/-- The derivation of a phrase is the way it is read. -/
theorem sound {level : Level} (e : Phrase level) : level.Sound e.faces e.shapes := by
  induction e with
  | binary left op right ihl ihr =>
    have parts := Chain.Leads.binary ihl op (ihr.reads right.visible)
    exact Level.Sound.giving parts (by simp [faces, lexemes])
  | operand e ih => exact Leads.first (ih.reads e.visible)
  | not word e ih => exact ih.not word
  | positive e ih => exact ih.positive e.starts
  | plain e ih => exact (ih.reads e.visible).plain e.visible
  | compare left op right ihl ihr =>
    have parts := (ihl.reads left.visible).compare op (ihr.reads right.visible)
    exact Level.Sound.giving parts (by simp [faces, lexemes])
  | test left negation tail ihl iht =>
    have parts := (ihl.reads left.visible).test negation iht tail.tailStart
      tail.tail_shapes_ne_nil
    exact Level.Sound.giving parts (by simp [faces, lexemes])
  | isNull left word negation value ih =>
    have parts := (ih.reads left.visible).isNull word negation value
    exact Level.Sound.giving parts (by simp [faces, lexemes])
  | like word pattern ih => exact (ih.reads pattern.visible).like word
  | likeEscape word pattern escape character ihp ihc =>
    have parts := (ihp.reads pattern.visible).likeEscape (ihc.reads character.visible) word
      escape
    exact Level.Sound.giving parts (by simp [faces, lexemes])
  | isIn word left items right ih =>
    have parts := (ih.reads items.visible).isIn items.starts word left right
    exact Level.Sound.giving parts (by simp [faces, lexemes])
  | between word low conjunction high ihl ihh =>
    have parts := (ihl.reads low.visible).between (ihh.reads high.visible) word conjunction
    exact Level.Sound.giving parts (by simp [faces, lexemes])
  | single e ih => exact Leads.first (ih.reads e.visible)
  | more items comma e ihi ihe =>
    have parts := ItemsLead.more ihi comma (ihe.reads e.visible)
    exact Level.Sound.giving parts (by simp [faces, lexemes])
  | signed sign e ih => exact ih.signed sign
  | unsigned e ih => exact ih.unsigned e.visible e.noSign
  | literal value => exact Level.reads_literal value
  | column name => exact Level.reads_column name
  | null word => exact Level.reads_null word
  | paren left e right ih =>
    have parts := (ih.reads e.visible).paren e.starts left right
    exact Level.Sound.giving parts (by simp [faces, lexemes])

theorem reads (e : Phrase .disjunction) : Level.disjunction.Reads e.faces e.shapes :=
  e.sound.reads e.visible

/-- Every phrase but lists and tails adds one node. -/
theorem shapes_eq_singleton {level : Level} (e : Phrase level) (expression : level.isExpression) :
    ∃ shape, e.shapes = [shape] := by
  induction e with
  | @operand chain e ih => exact ih (by cases chain <;> rfl)
  | positive e ih => exact ih rfl
  | plain e ih => exact ih rfl
  | unsigned e ih => exact ih rfl
  | like | likeEscape | isIn | between | single | more => cases expression
  | _ => exact ⟨_, rfl⟩

end Phrase

theorem takes_expression (e : Phrase .disjunction) {depth : Nat}
    (enough : 10 * e.faces.length + 7 ≤ depth) (front : List (Shape Kind))
    (around : List (Kind × List (Shape Kind))) :
    Takes (readRule depth .expression) ⟨e.faces, front, around⟩ ⟨[], front ++ e.shapes, around⟩ := by
  have atEnd : Level.disjunction.goesOn.foresees [] = false := rfl
  have taken := e.reads front around enough atEnd
  rwa [List.append_nil] at taken

theorem takes_print (e : Phrase .disjunction) {depth : Nat}
    (enough : 10 * e.faces.length + 7 ≤ depth) :
    Takes (readRule (depth + 4) .compileUnit) ⟨(.keyword, "PRINT") :: e.faces, [], []⟩
      ⟨[], [.rule .compileUnit [.rule .statement
        [.rule .print (.leaf .keyword "PRINT" :: e.shapes)]]], []⟩ := by
  refine Takes.entered (Takes.node (by simp) (Takes.loop ?_))
  intro tokens length
  cases tokens with
  | nil => cases length
  | cons token tokens =>
    refine Takes.round rfl rfl (Takes.branch_neg rfl rfl ?_) (Takes.rounds_end rfl rfl tokens)
    refine Takes.entered (Takes.node (by simp) (Takes.seq (Takes.branch_neg rfl rfl ?_)
      (Takes.seq (Takes.branch_neg rfl rfl Takes.nothing) Takes.nothing)))
    refine Takes.entered (Takes.branch_neg rfl rfl (Takes.branch_neg rfl rfl
      (Takes.choose rfl rfl (Takes.entered ?_))))
    exact Takes.node (by simp) (Takes.seq Takes.token
      (Takes.seq (takes_expression e enough _ _) Takes.nothing))

def printWord : Lexeme := ⟨.keyword, "PRINT", by with_unfolding_all rfl⟩

/-- Every expression of the operator grammar can be read, and what is read is its derivation: the text
that prints it is one statement, with the keyword and one node for the expression. -/
theorem parse_builds_derivation (e : Phrase .disjunction) :
    ∃ tree root expression,
      parse (" ".intercalate ("PRINT" :: e.lexemes.map Lexeme.text)) = .ok tree ∧
      tree.root = some root ∧ e.shapes = [expression] ∧
      root.shape = .rule .compileUnit [.rule .statement
        [.rule .print [.leaf .keyword "PRINT", expression]]] := by
  obtain ⟨expression, single⟩ := e.shapes_eq_singleton rfl
  obtain ⟨tokens, lexed, same⟩ := lex_spaced (printWord :: e.lexemes)
  have length : tokens.length = e.faces.length + 1 := by
    rw [← List.length_map, same, Phrase.faces, List.length_map, List.length_map, List.length_cons]
  obtain ⟨depth, enough⟩ : ∃ depth, depthFor tokens = depth + 4 :=
    ⟨depthFor tokens - 4, by rw [depthFor]; omega⟩
  have room : 10 * e.faces.length + 7 ≤ depth := by rw [depthFor] at enough; omega
  have taken := takes_print e room
  rw [← enough, single] at taken
  obtain ⟨tree, root, parsed, isRoot, shaped⟩ := parse_of_takes lexed (by rw [same]; exact taken)
  exact ⟨tree, root, expression, parsed, isRoot, single, shaped⟩

theorem parse_builds_derivation_of_not : ∃ tree root,
    parse "PRINT NOT @a < - 1" = .ok tree ∧ tree.root = some root ∧
    root.shape = .rule .compileUnit [.rule .statement [.rule .print [.leaf .keyword "PRINT",
      .rule .notExpression [.leaf .keyword "NOT",
        .rule .comparisonExpression [.leaf .userVariable "@a", .leaf .less "<",
          .rule .unaryExpression [.leaf .minus "-", .leaf .numberLiteral "1"]]]]]] := by
  let notWord : Word "NOT" := ⟨⟨.keyword, "NOT", by with_unfolding_all rfl⟩, rfl⟩
  let variableA : Lexeme := ⟨.userVariable, "@a", by with_unfolding_all rfl⟩
  let less : Lexeme := ⟨.less, "<", by with_unfolding_all rfl⟩
  let minus : Lexeme := ⟨.minus, "-", by with_unfolding_all rfl⟩
  let one : Lexeme := ⟨.numberLiteral, "1", by with_unfolding_all rfl⟩
  let left : Phrase .sum := .operand (.operand (.unsigned (.literal ⟨variableA, rfl⟩)))
  let right : Phrase .sum :=
    .operand (.operand (.signed ⟨minus, rfl⟩ (.unsigned (.literal ⟨one, rfl⟩))))
  obtain ⟨tree, root, expression, parsed, isRoot, single, shaped⟩ := parse_builds_derivation
    (.operand (.operand (.not notWord (.positive (.compare left ⟨less, rfl⟩ right)))))
  cases single
  exact ⟨tree, root, parsed, isRoot, shaped⟩

end SqlFerry.Tsql
