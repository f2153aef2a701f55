import SqlFerry.Proofs.Tsql.Compound

/-! The choice of the rule for a statement. -/
namespace SqlFerry.Tsql

/-! The header of a procedure. A test looks as far as its fourth token, and the second and third one are
read by the rule that is called. -/

section Header

variable {calls : Rule → Place → List (Node Kind) → Place → Prop} {s s' : Place}
  {xs ys : List (Node Kind)}

theorem Course.word_take (taken : Course calls .take s xs s' ys) (n : Nat) (w : String) :
    (Look.word n w).answer s' = (Look.word (n + 1) w).answer s := by
  cases taken <;> simp [Look.answer]

theorem Look.sameWord_of_word {n : Nat} {w w' : String} (first : (Look.word n w).answer s = true)
    (second : (Look.word n w').answer s = true) : Text.sameWord w w' = true := by
  simp only [Look.answer, Option.any_eq_true, Bool.and_eq_true] at first second
  obtain ⟨token, isToken, -, reads⟩ := first
  obtain ⟨token', isToken', -, reads'⟩ := second
  obtain rfl : token = token' := Option.some.inj (isToken.symm.trans isToken')
  exact Text.sameWord_of_both reads reads'

def procedureWords : List String := ["CREATE", "ALTER"]

/-- The test that chooses the rule for procedures. -/
def procedureHeader : Look := (.on "CREATE" ||| .on "ALTER") &&& Grammar.atProcedureHeader

theorem procedureHeader_answer (s : Place) : procedureHeader.answer s =
    (((Look.on "CREATE").answer s || (Look.on "ALTER").answer s) &&
      ((Look.word 1 "OR").answer s && ((Look.word 3 "PROC").answer s || (Look.word 3 "PROCEDURE").answer s) ||
        !(Look.word 1 "OR").answer s &&
          ((Look.word 1 "PROC").answer s || (Look.word 1 "PROCEDURE").answer s))) := rfl

theorem Look.no_or {w : String} (procedure : (Look.word 1 w).answer s = true)
    (other : Text.sameWord "OR" w = false) : (Look.word 1 "OR").answer s = false := by
  refine Bool.eq_false_iff.mpr fun or => ?_
  rw [sameWord_of_word or procedure] at other
  cases other

theorem Course.procedure_word
    (course : Course calls (.branch (.on "PROCEDURE") .take (.expectWord "PROC")) s xs s' ys) :
    ∃ w, (Look.on w).answer s = true ∧ w ∈ ["PROC", "PROCEDURE"] := by
  match course with
  | .holds procedure _ => exact ⟨_, procedure, by simp⟩
  | .fails _ (.holds procedure _) => exact ⟨_, procedure, by simp⟩
  | .fails _ (.fails _ failed) => nomatch failed

/-- What the rule for procedures reads passes the test that chooses it. -/
theorem RuleCourse.header {depth : Nat} (course : RuleCourse depth .createProcedure s ys s') :
    procedureHeader.answer s = true := by
  have others : ∀ w ∈ ["PROC", "PROCEDURE"], Text.sameWord "OR" w = false := by decide
  have either {w : String} (isWord : w ∈ ["PROC", "PROCEDURE"]) {n : Nat}
      (reads : (Look.word n w).answer s = true) :
      ((Look.word n "PROC").answer s || (Look.word n "PROCEDURE").answer s) = true := by
    simp only [List.mem_cons, List.not_mem_nil, or_false] at isWord
    rcases isWord with rfl | rfl <;> simp [reads]
  cases depth with
  | zero => exact course.elim
  | succ depth => match course with
  | .node _ (.seq first (.seq second _)) =>
    obtain ⟨w, procedure, isWord⟩ := second.procedure_word
    rw [procedureHeader_answer]
    match first with
    | .holds create (.seq first (.seq (.holds or (.seq second (.seq (.holds _ third) .done))) .done)) =>
      rw [Look.on, first.word_take] at or
      rw [Look.on, third.word_take, second.word_take, first.word_take] at procedure
      simp [create, or, either isWord procedure]
    | .holds create (.seq first (.seq (.fails noOr .done) .done)) =>
      rw [Look.on, first.word_take] at noOr procedure
      simp [create, noOr, either isWord procedure]
    | .fails _ (.holds alter first) =>
      rw [Look.on, first.word_take] at procedure
      simp [alter, Look.no_or procedure (others w isWord), either isWord procedure]
    | .holds _ (.seq _ (.seq (.holds _ (.seq _ (.seq (.fails _ failed) _))) _)) => cases failed
    | .fails _ (.fails _ failed) => cases failed

end Header

namespace Production

def without (refused : Rule → Bool) : Production Rule → Production Rule
  | branch test p q => branch test (p.without refused) (q.without refused)
  | rule name => if refused name then fail "" else rule name
  | p => p

def only (chosen : Rule) : Production Rule → Production Rule
  | branch test p q => branch test (p.only chosen) (q.only chosen)
  | rule name => if name = chosen then rule name else fail ""
  | _ => fail ""

/-- Nothing is read where the tokens ahead are as the view says, if some rules read nothing there. -/
def barred (rules : Rule → Bool) (v : View) : Production Rule → Bool
  | fail _ => true
  | branch test p q => (!test.may v true || p.barred rules v) && (!test.may v false || q.barred rules v)
  | seq p _ | node _ p | group p => p.barred rules v
  | rule name => rules name
  | _ => false

def single (rules : Rule → Bool) : Production Rule → Bool
  | fail _ | node _ _ => true
  | branch _ p q => p.single rules && q.single rules
  | rule name => rules name
  | _ => false

/-- One of some rules is called at once, or a node is made of a token. -/
def isChoice : Production Rule → Bool
  | fail _ | rule _ | node _ take => true
  | branch _ p q => p.isChoice && q.isChoice
  | _ => false

end Production

theorem length_closed_le (id : Nat) (kind : Kind) (ys : List (Node Kind)) :
    (closed id kind ys).length ≤ 1 := by
  cases ys <;> simp [closed]

theorem kind_of_mem_closed {id : Nat} {kind : Kind} {ys : List (Node Kind)} {node : Node Kind}
    (member : node ∈ closed id kind ys) : node.kind = kind := by
  cases ys with
  | nil => cases member
  | cons first rest =>
    obtain rfl := List.mem_singleton.mp member
    rfl

section Choice

variable {calls : Rule → Place → List (Node Kind) → Place → Prop} {p : Production Rule} {s s' d : Place}
  {xs ys : List (Node Kind)}

theorem Course.without {refused : Rule → Bool} (course : Course calls p s [] s' ys)
    (other : ∀ name, refused name = true → ¬calls name s ys s') :
    Course calls (p.without refused) s [] s' ys := by
  induction p with
  | branch test p q ihp ihq =>
    match course with
    | .holds answer inner => exact .holds answer (ihp inner)
    | .fails answer inner => exact .fails answer (ihq inner)
  | rule name =>
    match course with
    | .rule ran =>
      rw [Production.without]
      split
      · next isRefused => exact (other name isRefused ran).elim
      · exact .rule ran
  | _ => exact course

theorem Course.of_without {refused : Rule → Bool} (course : Course calls (p.without refused) s xs s' ys) :
    Course calls p s xs s' ys := by
  induction p with
  | branch test p q ihp ihq =>
    match course with
    | .holds answer inner => exact .holds answer (ihp inner)
    | .fails answer inner => exact .fails answer (ihq inner)
  | rule name =>
    rw [Production.without] at course
    split at course
    · nomatch course
    · exact course
  | _ => exact course

theorem Course.not_barred {rules : Rule → Bool} {v : View}
    (called : ∀ name s ys s' d, rules name = true → v.Shows s d → ¬calls name s ys s')
    (course : Course calls p s xs s' ys) (shows : v.Shows s d) : p.barred rules v = false := by
  induction course with
  | holds answer _ ih => simp [Production.barred, Look.may_of_answer shows answer, ih shows]
  | fails answer _ ih => simp [Production.barred, Look.may_of_answer shows answer, ih shows]
  | seq _ _ ih _ => exact ih shows
  | node _ _ ih | group _ ih => exact ih shows
  | rule ran => exact Bool.eq_false_iff.mpr fun refused => called _ _ _ _ _ refused shows ran
  | _ => rfl

theorem Course.single {rules : Rule → Bool} (course : Course calls p s [] s' ys)
    (single : p.single rules = true)
    (called : ∀ name, rules name = true → calls name s ys s' → ys.length ≤ 1) : ys.length ≤ 1 := by
  induction p with
  | branch test p q ihp ihq =>
    obtain ⟨singleP, singleQ⟩ := Bool.and_eq_true_iff.mp single
    match course with
    | .holds _ inner => exact ihp inner singleP
    | .fails _ inner => exact ihq inner singleQ
  | node kind p =>
    match course with
    | .node id _ => exact length_closed_le id kind _
  | rule name =>
    match course with
    | .rule ran => exact called name single ran
  | fail => nomatch course
  | _ => cases single

theorem Course.tracked (course : Course calls p s [] s' ys) (choice : p.isChoice = true) :
    Course (fun name t zs t' => calls name t zs t' ∧ t = s ∧
      Course calls (p.only name) t [] t' zs) p s [] s' ys := by
  induction p with
  | branch test p q ihp ihq =>
    obtain ⟨choiceP, choiceQ⟩ := Bool.and_eq_true_iff.mp choice
    match course with
    | .holds answer inner =>
      refine .holds answer ((ihp inner choiceP).mono fun name t zs t' tracked => ?_)
      obtain ⟨ran, rfl, chosen⟩ := tracked
      exact ⟨ran, rfl, .holds answer chosen⟩
    | .fails answer inner =>
      refine .fails answer ((ihq inner choiceQ).mono fun name t zs t' tracked => ?_)
      obtain ⟨ran, rfl, chosen⟩ := tracked
      exact ⟨ran, rfl, .fails answer chosen⟩
  | rule name =>
    match course with
    | .rule ran =>
      refine .rule ⟨ran, rfl, ?_⟩
      rw [Production.only, if_pos rfl]
      exact .rule ran
  | fail => nomatch course
  | node kind p =>
    cases p with
    | take =>
      match course with
      | .node id taken =>
        cases taken with
        | take leaf index => exact .node id (.take leaf index)
        | stay => exact .node id .stay
    | _ => cases choice
  | _ => cases choice

end Choice

theorem View.shows_first {g : Glimpse} (allows : g.Allows s.rest[0]? s.rest[0]?) :
    View.Shows ⟨[g], .free⟩ s s := by
  refine ⟨fun n => ?_, rfl⟩
  cases n with
  | zero => exact allows
  | succ n => exact trivial

section Bodies

variable {depth : Nat} {s s' : Place} {ys : List (Node Kind)}

theorem body_single (course : RuleCourse depth .statementBody s ys s') : ys.length ≤ 1 := by
  have node (depth : Nat) (rule : Rule) (single : (Grammar.production rule).single (fun _ => false) = true)
      (course : RuleCourse depth rule s ys s') : ys.length ≤ 1 := by
    cases depth with
    | zero => exact course.elim
    | succ depth => exact Course.single course single nofun
  cases depth with
  | zero => exact course.elim
  | succ depth =>
    exact Course.single course (by decide : (Grammar.production .statementBody).single
      (fun rule => (Grammar.production rule).single fun _ => false) = true) fun name single => node depth name single

/-- The words with which the statements of some rules begin. -/
def Rule.words : Rule → List String
  | createProcedure => procedureWords
  | ifStatement => ["IF"]
  | whileStatement => ["WHILE"]
  | declare => ["DECLARE"]
  | _ => []

/-- The next token is a keyword with which the statements of the rule begin, if these are known. -/
def Opened (rule : Rule) (s : Place) : Prop :=
  rule.words ≠ [] → ∃ first, s.rest.head? = some first ∧ first.kind = .keyword ∧
    ∃ word ∈ rule.words, first.isWord word = true

def Rule.isOpened (rule : Rule) : Bool := !rule.words.isEmpty

theorem opened_of_not {rule : Rule} (none : rule.isOpened = false) (s : Place) : Opened rule s := by
  intro some
  simp [Rule.isOpened, some] at none

theorem words_heads {rule : Rule} {word : String} (member : word ∈ rule.words) : word ∈ heads := by
  have all : ∀ word ∈ rule.words, word ∈ heads := by cases rule <;> decide
  exact all word member

/-- The rule for a statement is chosen by its first word. -/
theorem body_checked (rule : Rule) :
    (rule.words.isEmpty ||
      ((Grammar.production .statementBody).only rule).barred (fun _ => false) ⟨[.named], .free⟩ &&
      ((Grammar.production .statementBody).only rule).barred (fun _ => false) ⟨[.other rule.words], .free⟩) = true := by
  cases rule <;> decide

theorem opened_of_chosen {calls : Rule → Place → List (Node Kind) → Place → Prop} {rule : Rule}
    (chosen : Course calls ((Grammar.production .statementBody).only rule) s [] s' ys)
    (more : s.rest ≠ []) : Opened rule s := by
  intro known
  have checked := body_checked rule
  simp only [List.isEmpty_eq_false_iff.mpr known, Bool.false_or, Bool.and_eq_true] at checked
  obtain ⟨named, other⟩ := checked
  obtain ⟨first, rest, shape⟩ := List.exists_cons_of_ne_nil more
  have next : s.rest[0]? = some first := by rw [shape]; rfl
  have keyword : first.kind = .keyword := by
    refine Decidable.byContradiction fun contrary => ?_
    have shows : View.Shows ⟨[.named], .free⟩ s s :=
      View.shows_first ⟨rfl, fun token isToken => by
        obtain rfl := Option.some.inj (next.symm.trans isToken)
        exact contrary⟩
    exact absurd (named.symm.trans (chosen.not_barred nofun shows)) (by decide)
  refine ⟨first, by rw [shape]; rfl, keyword, Decidable.byContradiction fun contrary => ?_⟩
  have shows : View.Shows ⟨[.other rule.words], .free⟩ s s :=
    View.shows_first ⟨rfl, first, next, keyword, by simpa using contrary⟩
  exact absurd (other.symm.trans (chosen.not_barred nofun shows)) (by decide)

/-- What may be chosen for a statement that begins with a keyword and is no procedure. -/
def choices : Production Rule :=
  match Grammar.production .statementBody with
  | .branch _ _ (.branch _ _ (.branch _ _ others)) => others
  | p => p

theorem body_isChoice : (Grammar.production .statementBody).isChoice = true := by decide

/-- No change makes a text pass the test for procedures, and none changes what the other tests answer. -/
def Choosing (own : Rule → List View) : Prop :=
  (choices.calm own Kind.isRemade (fun _ => false) 1 = true ∧
    ((choices.sights own 1).all fun v => List.all (procedureHeader.answers v) fun pair =>
      pair.1 || !pair.2) = true) ∧
  ((Rule.createProcedure.sights own ++ Rule.otherStatement.sights own ++ choices.sights own 1).all fun v =>
    Look.atEnd.keeps v && (~~~Look.sees .keyword).keeps v) = true

end Bodies

section Body

variable {R : Revision} {own : Rule → List View} {sound : Node Kind → Prop} {depth depth' : Nat}
  {s s' : Place} {ys : List (Node Kind)} {r' : List (Token Kind)}

/-- The body of a statement is read by the same rule as before. -/
theorem body_again (choosing : Choosing own)
    (called : ∀ name s ys s' r', RuleCourse depth name s ys s' → Opened name s →
      name.awaits ≤ s.rest.length → (∀ node ∈ Node.descendantsOf ys, sound node) → Diverges s'.rest r' →
      Again R s s' ys (name.sights own) r' fun d d' => RuleCourse depth' name d (R.all ys) d')
    (course : RuleCourse (depth + 1) .statementBody s ys s')
    (isSound : ∀ node ∈ Node.descendantsOf ys, sound node) (diverges : Diverges s'.rest r') :
    Again R s s' ys views r' fun d d' => RuleCourse (depth' + 1) .statementBody d (R.all ys) d' := by
  obtain ⟨⟨calm, spares⟩, keeps⟩ := choosing
  -- Wherever a rule is called, the end of the text and the kind of the first token are seen as before.
  have firstTests {vs : List View} {d : Place} (known : vs ⊆ Rule.createProcedure.sights own ++
      Rule.otherStatement.sights own ++ choices.sights own 1) (shows : ∃ v ∈ vs, v.Shows s d) :
      Look.atEnd.answer d = Look.atEnd.answer s ∧
        (~~~Look.sees .keyword).answer d = (~~~Look.sees .keyword).answer s := by
    obtain ⟨v, member, shows⟩ := shows
    obtain ⟨ends, keyword⟩ := Bool.and_eq_true_iff.mp (List.all_eq_true.mp keeps v (known member))
    exact ⟨(Look.answer_eq_of_keeps shows ends).symm, (Look.answer_eq_of_keeps shows keyword).symm⟩
  have tracked := Course.tracked course body_isChoice
  have chosenCalled (more : Look.atEnd.answer s = false) (name : Rule) (t : Place) (zs : List (Node Kind))
      (t' : Place) (r' : List (Token Kind)) (tracked : RuleCourse depth name t zs t' ∧ t = s ∧
        Course (RuleCourse depth) ((Grammar.production .statementBody).only name) t [] t' zs)
      (enough : name.awaits ≤ t.rest.length) (isSound : ∀ node ∈ Node.descendantsOf zs, sound node)
      (diverges : Diverges t'.rest r') :
      Again R t t' zs (name.sights own) r' fun d d' => RuleCourse depth' name d (R.all zs) d' := by
    obtain ⟨ran, same, chosen⟩ := tracked
    have some : t.rest ≠ [] := by
      rw [same]
      exact List.ne_nil_of_length_pos (Look.demand_le more)
    exact called name t zs t' r' ran (opened_of_chosen chosen some) enough isSound diverges
  match tracked with
  | .holds _ failed => nomatch failed
  | .fails more (.holds noKeyword (.rule other)) =>
    have again := chosenCalled more .otherStatement s ys s' r' other (Look.demand_le more) isSound diverges
    obtain ⟨ends, keyword⟩ := firstTests (by simp) again.shows
    exact ⟨again.diverges, again.diverges.shows s.line,
      .fails (ends.trans more) (.holds (keyword.trans noKeyword) (.rule again.reads))⟩
  | .fails more (.fails isKeyword (.holds _ (.rule create))) =>
    have again := chosenCalled more .createProcedure s ys s' r' create (Nat.zero_le _) isSound diverges
    obtain ⟨ends, keyword⟩ := firstTests (by simp) again.shows
    exact ⟨again.diverges, again.diverges.shows s.line, .fails (ends.trans more)
      (.fails (keyword.trans isKeyword) (.holds again.reads.header (.rule again.reads)))⟩
  | .fails more (.fails isKeyword (.fails noHeader others)) =>
    obtain ⟨zs, rfl, again⟩ := Course.again R.compound (fun name t zs t' r' _ => chosenCalled more name t zs t' r')
      others calm (Look.demand_le more) isSound
    obtain ⟨diverges, shows, reads⟩ := again r' diverges
    obtain ⟨ends, keyword⟩ := firstTests (List.subset_append_right ..) shows
    have refused : procedureHeader.answer ⟨Node.tokensOf (R.all ys) ++ r', s.line⟩ = false := by
      obtain ⟨v, member, shows⟩ := shows
      have all := List.all_eq_true.mp (List.all_eq_true.mp spares v member) _
        (Look.mem_answers shows procedureHeader)
      have noHeader : procedureHeader.answer s = false := noHeader
      simpa [noHeader] using all
    exact ⟨diverges, diverges.shows s.line, .fails (ends.trans more)
      (.fails (keyword.trans isKeyword) (.fails refused reads))⟩

end Body

end SqlFerry.Tsql
