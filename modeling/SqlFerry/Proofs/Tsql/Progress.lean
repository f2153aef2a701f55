import SqlFerry.Proofs.Tsql.Parser

/-! Reading comes to an end. Every round of a loop reads a token, and rules that call one another without
reading a token in between go down a ranking. What a rule calls first is found by going through its
production, once for places with tokens left and once for the end of the tokens, where tests have one answer
and taking a token changes nothing. So every rule has a run from every place, whatever the tokens are: its
loops end because their tests fail, and it is no deeper than the number of tokens left allows. The depth
that a text is read with is never used up. -/
namespace SqlFerry.Tsql

/-! ### Runs -/

/-- The step is taken as long as the test holds. The rounds are counted, and the last one may fail. -/
inductive Rounds (test : Look) (step : Cursor → Except ParseError Cursor → Prop) :
    Nat → Cursor → Except ParseError Cursor → Prop
  | stop {c : Cursor} : test.holds c = false → Rounds test step 0 c (.ok c)
  | round {n : Nat} {c c' : Cursor} {outcome : Except ParseError Cursor} : test.holds c = true →
      step c (.ok c') → Rounds test step n c' outcome → Rounds test step (n + 1) c outcome
  | broken {c : Cursor} {e : ParseError} : test.holds c = true → step c (.error e) →
      Rounds test step 1 c (.error e)

/-- A production runs from a cursor to an outcome, where `calls` says what the rules do. A loop runs until
its test fails, and it has at most as many rounds as there are tokens left. -/
def Production.Runs {ρ : Type} (calls : ρ → Cursor → Except ParseError Cursor → Prop) :
    Production ρ → Checkpoint → Cursor → Except ParseError Cursor → Prop
  | done, _, c, outcome => outcome = .ok c
  | take, _, c, outcome => outcome = .ok c.take
  | fail expectation, _, c, outcome => outcome = .error (c.error expectation)
  | seq p q, mark, c, outcome =>
    (∃ middle, p.Runs calls mark c (.ok middle) ∧ q.Runs calls mark middle outcome) ∨
      ∃ e, p.Runs calls mark c (.error e) ∧ outcome = .error e
  | branch test p q, mark, c, outcome =>
    if test.holds c then p.Runs calls mark c outcome else q.Runs calls mark c outcome
  | loop test p, mark, c, outcome => ∃ n ≤ c.rest.length, Rounds test (p.Runs calls mark) n c outcome
  | node kind p, _, c, outcome =>
    ∃ inner, p.Runs calls ⟨0⟩ (c.startNode kind) inner ∧ outcome = Cursor.finishNode <$> inner
  | group p, _, c, outcome => p.Runs calls c.builder.checkpoint c outcome
  | adopt kind p, mark, c, outcome =>
    ∃ inner, p.Runs calls ⟨0⟩ (c.startNodeAt mark kind) inner ∧ outcome = Cursor.finishNode <$> inner
  | rule name, _, c, outcome => calls name c outcome

/-- A rule runs to an outcome with at most `depth` rules one inside the other. -/
def RuleRuns : Nat → Rule → Cursor → Except ParseError Cursor → Prop
  | 0, _, _, _ => False
  | depth + 1, rule, c, outcome => (Grammar.production rule).Runs (RuleRuns depth) ⟨0⟩ c outcome

section Rounds

variable {test : Look} {step step' : Cursor → Except ParseError Cursor → Prop} {n : Nat} {c : Cursor}
  {outcome : Except ParseError Cursor}

theorem Rounds.mono (more : ∀ c outcome, step c outcome → step' c outcome)
    (rounds : Rounds test step n c outcome) : Rounds test step' n c outcome := by
  induction rounds with
  | stop fails => exact .stop fails
  | round holds stepped _ ih => exact .round holds (more _ _ stepped) ih
  | broken holds stepped => exact .broken holds (more _ _ stepped)

theorem Rounds.iterate_eq {move : Cursor → Except ParseError Cursor}
    (moves : ∀ c outcome, step c outcome → move c = outcome) {tokens : List (Token Kind)}
    (rounds : Rounds test step n c outcome) (granted : n ≤ tokens.length) :
    iterate test move tokens c = outcome := by
  induction rounds generalizing tokens with
  | stop fails =>
    cases tokens with
    | nil => rfl
    | cons token tokens => rw [iterate, fails]; rfl
  | round holds stepped _ ih =>
    cases tokens with
    | nil => cases granted
    | cons token tokens =>
      rw [iterate, if_pos holds, moves _ _ stepped]
      exact ih (Nat.le_of_succ_le_succ granted)
  | broken holds stepped =>
    cases tokens with
    | nil => cases granted
    | cons token tokens =>
      rw [iterate, if_pos holds, moves _ _ stepped]
      rfl

/-- A step that can be taken wherever the test holds, and that reads a token, is taken until the test fails
or the step does. -/
theorem exists_rounds {bound : Nat} (needed : ∀ c, test.holds c = true → c.rest ≠ [])
    (possible : ∀ c, c.rest.length ≤ bound → test.holds c = true → ∃ outcome, step c outcome)
    (shorter : ∀ c c', test.holds c = true → step c (.ok c') → c'.rest.length < c.rest.length)
    (within : c.rest.length ≤ bound) : ∃ outcome, ∃ n ≤ c.rest.length, Rounds test step n c outcome := by
  induction length : c.rest.length using Nat.strongRecOn generalizing c with
  | _ length' ih =>
    subst length
    cases holds : test.holds c with
    | false => exact ⟨_, 0, Nat.zero_le _, .stop holds⟩
    | true =>
      obtain ⟨outcome, stepped⟩ := possible c within holds
      cases outcome with
      | error e => exact ⟨_, 1, List.length_pos_iff.mpr (needed c holds), .broken holds stepped⟩
      | ok c' =>
        have less := shorter c c' holds stepped
        obtain ⟨outcome, n, few, rounds⟩ := ih _ less (by omega) rfl
        exact ⟨outcome, n + 1, by omega, .round holds stepped rounds⟩

end Rounds

namespace Production

variable {ρ : Type} {calls calls' : ρ → Cursor → Except ParseError Cursor → Prop}
  {call : ρ → Cursor → Except ParseError Cursor} {mark : Checkpoint} {c : Cursor}
  {outcome : Except ParseError Cursor}

theorem Runs.mono (more : ∀ name c outcome, calls name c outcome → calls' name c outcome) (p : Production ρ)
    {mark : Checkpoint} {c : Cursor} {outcome : Except ParseError Cursor} (runs : p.Runs calls mark c outcome) :
    p.Runs calls' mark c outcome := by
  induction p generalizing mark c outcome with
  | done | take | fail _ => exact runs
  | seq p q ihp ihq =>
    rcases runs with ⟨middle, first, second⟩ | ⟨e, first, failed⟩
    · exact .inl ⟨middle, ihp first, ihq second⟩
    · exact .inr ⟨e, ihp first, failed⟩
  | branch test p q ihp ihq =>
    rw [Runs] at runs ⊢
    split at runs
    · next holds => rw [if_pos holds]; exact ihp runs
    · next fails => rw [if_neg fails]; exact ihq runs
  | loop test p ih =>
    obtain ⟨n, few, rounds⟩ := runs
    exact ⟨n, few, rounds.mono fun _ _ stepped => ih stepped⟩
  | node kind p ih =>
    obtain ⟨inner, body, ends⟩ := runs
    exact ⟨inner, ih body, ends⟩
  | group p ih =>
    rw [Runs] at runs ⊢
    exact ih runs
  | adopt kind p ih =>
    obtain ⟨inner, body, ends⟩ := runs
    exact ⟨inner, ih body, ends⟩
  | rule name => exact more name c outcome runs

/-- Executing a production finds the outcome of its run. -/
theorem Runs.exec_eq (finds : ∀ name c outcome, calls name c outcome → call name c = outcome) (p : Production ρ)
    {mark : Checkpoint} {c : Cursor} {outcome : Except ParseError Cursor} (runs : p.Runs calls mark c outcome) :
    p.exec call mark c = outcome := by
  induction p generalizing mark c outcome with
  | done | take | fail _ => exact runs.symm
  | seq p q ihp ihq =>
    rcases runs with ⟨middle, first, second⟩ | ⟨e, first, rfl⟩
    · rw [exec, ihp first]
      exact ihq second
    · rw [exec, ihp first]
      rfl
  | branch test p q ihp ihq =>
    rw [Runs] at runs
    rw [exec]
    split at runs
    · next holds => rw [if_pos holds, ihp runs]
    · next fails => rw [if_neg fails, ihq runs]
  | loop test p ih =>
    obtain ⟨n, few, rounds⟩ := runs
    exact rounds.iterate_eq (fun _ _ stepped => ih stepped) few
  | node kind p ih =>
    obtain ⟨inner, body, rfl⟩ := runs
    rw [exec, ih body]
  | group p ih =>
    rw [Runs] at runs
    rw [exec, ih runs]
  | adopt kind p ih =>
    obtain ⟨inner, body, rfl⟩ := runs
    rw [exec, ih body]
  | rule name => exact finds name c outcome runs

end Production

theorem RuleRuns.mono {depth depth' : Nat} {rule : Rule} {c : Cursor} {outcome : Except ParseError Cursor}
    (deeper : depth ≤ depth') (runs : RuleRuns depth rule c outcome) : RuleRuns depth' rule c outcome := by
  induction depth generalizing depth' rule c outcome with
  | zero => cases runs
  | succ depth ih =>
    obtain ⟨more, rfl⟩ : ∃ more, depth' = more + 1 := ⟨depth' - 1, by omega⟩
    exact Production.Runs.mono (fun _ _ _ called => ih (Nat.le_of_succ_le_succ deeper) called) _ runs

theorem RuleRuns.readRule_eq {depth : Nat} {rule : Rule} {c : Cursor} {outcome : Except ParseError Cursor}
    (runs : RuleRuns depth rule c outcome) : readRule depth rule c = outcome := by
  induction depth generalizing rule c outcome with
  | zero => cases runs
  | succ depth ih => exact Production.Runs.exec_eq (fun _ _ _ called => ih called) _ runs

theorem Production.Runs.exec_readRule {depth : Nat} {p : Production Rule} {mark : Checkpoint} {c : Cursor}
    {outcome : Except ParseError Cursor} (runs : p.Runs (RuleRuns depth) mark c outcome) :
    p.exec (readRule depth) mark c = outcome :=
  runs.exec_eq (fun name c outcome (called : RuleRuns depth name c outcome) => called.readRule_eq) p

/-! ### What a rule calls first -/

/-- The rules that the production may call before it has read a token. -/
def Production.openings {ρ : Type} (supply : Supply) (rules : ρ → Bool) : Production ρ → List ρ
  | done | take | fail _ => []
  | seq p q => p.openings supply rules ++ if p.stays supply rules then q.openings supply rules else []
  | branch test p q =>
    (if supply.allows test true then p.openings supply rules else []) ++
      if supply.allows test false then q.openings supply rules else []
  | loop test p => if supply.allows test true then p.openings supply rules else []
  | node _ p | group p | adopt _ p => p.openings supply rules
  | rule name => [name]

/-- The rules that may come to an end without having read a token. -/
def mayStay : Supply → Rule → Bool
  | .left, rule => !readsToken rule
  | .spent, .compileUnit | .spent, .tableConstraint | .spent, .alias | .spent, .transaction
  | .spent, .returnStatement | .spent, .otherStatement | .spent, .otherPart | .spent, .caseTail
  | .spent, .nameOrCall => true
  | .spent, _ => false

theorem production_stays {rule : Rule} (leaves : mayStay .spent rule = false) :
    (Grammar.production rule).stays .spent (mayStay .spent) = false := by
  revert leaves
  cases rule <;> decide

theorem readRule_ne_ok {depth : Nat} {rule : Rule} {c c' : Cursor} (leaves : mayStay .spent rule = false)
    (ends : c.rest.length = 0) : readRule depth rule c ≠ .ok c' := by
  intro ran
  induction depth generalizing rule c c' with
  | zero => cases ran
  | succ depth ih =>
    have less : c'.rest.length < 0 :=
      Production.exec_leaves (fun name c c' (called : readRule depth name c = .ok c') => readRule_length_le called)
        (fun _ _ _ leaves ends called => (ih leaves ends called).elim) _ (production_stays leaves) ends ran
    exact Nat.not_lt_zero _ less

theorem readRule_leaves {depth : Nat} {rule : Rule} {c c' : Cursor}
    (leaves : mayStay (.of c.rest.length) rule = false) (ran : readRule depth rule c = .ok c') :
    c'.rest.length < c.rest.length := by
  cases shape : c.rest with
  | nil =>
    rw [shape] at leaves
    exact absurd ran (readRule_ne_ok leaves (by rw [shape]; rfl))
  | cons token rest =>
    rw [shape] at leaves
    have less := readRule_reads (by simpa [Supply.of, mayStay] using leaves) (by simp [shape]) ran
    rwa [shape] at less

/-- How far a rule is from reading a token: each rule that it calls before has a lower rank. -/
def rank : Supply → Rule → Nat
  | .spent, .declare | .spent, .tableHint | .spent, .execute => 1
  | .spent, .createTable | .spent, .dropTable | .spent, .insert | .spent, .update | .spent, .delete => 2
  | .spent, .fromClause => 3
  | .spent, .whereClause | .spent, .ifStatement | .spent, .whileStatement | .spent, .print
  | .spent, .caseExpression => 9
  | .spent, .outputClause => 10
  | _, .tableName | _, .tableConstraint | _, .select | _, .otherPart | _, .primary => 1
  | _, .statementBody | _, .tableElement | _, .tableSource | _, .caseTail | _, .unary => 2
  | _, .statement | _, .multiplicative => 3
  | _, .compileUnit | _, .additive => 4
  | _, .comparison => 5
  | _, .negation => 6
  | _, .conjunction => 7
  | _, .expression => 8
  | _, .selectElement | _, .orderByItem | _, .executeArgument | _, .expressionList => 9
  | _, _ => 0

theorem rank_le (supply : Supply) (rule : Rule) : rank supply rule ≤ 10 := by
  cases supply <;> cases rule <;> decide

theorem rank_openings (supply : Supply) (rule : Rule) :
    ∀ first ∈ (Grammar.production rule).openings supply (mayStay supply), rank supply first < rank supply rule := by
  cases supply <;> cases rule <;> decide

/-! ### Every rule has a run -/

/-- The rule has a run from every cursor with `n` tokens left. -/
def Answered (depth n : Nat) (rule : Rule) : Prop :=
  ∀ c : Cursor, c.rest.length = n → ∃ outcome, RuleRuns depth rule c outcome

theorem Answered.mono {depth depth' n : Nat} {rule : Rule} (deeper : depth ≤ depth')
    (answered : Answered depth n rule) : Answered depth' n rule := by
  intro c here
  obtain ⟨outcome, runs⟩ := answered c here
  exact ⟨outcome, runs.mono deeper⟩

/-- A production has a run if all rules are answered once a token has been read, and those that it calls
before are answered at once. -/
theorem Production.exists_runs {depth n : Nat} (below : ∀ m < n, ∀ rule, Answered depth m rule)
    (p : Production Rule) (advances : p.advances readsToken = true) {mark : Checkpoint} {c : Cursor}
    (within : c.rest.length ≤ n)
    (first : c.rest.length = n → ∀ rule ∈ p.openings (.of n) (mayStay (.of n)), Answered depth n rule) :
    ∃ outcome, p.Runs (RuleRuns depth) mark c outcome := by
  have back (name : Rule) (c c' : Cursor) (called : readRule depth name c = .ok c') :
      c'.rest.length ≤ c.rest.length := readRule_length_le called
  induction p generalizing mark c with
  | done => exact ⟨_, rfl⟩
  | take => exact ⟨_, rfl⟩
  | fail expectation => exact ⟨_, rfl⟩
  | seq p q ihp ihq =>
    obtain ⟨inP, inQ⟩ := Bool.and_eq_true_iff.mp advances
    obtain ⟨outcome, runsP⟩ : ∃ outcome, p.Runs (RuleRuns depth) mark c outcome :=
      ihp inP within fun here rule member => first here rule (List.mem_append_left _ member)
    cases outcome with
    | error e => exact ⟨_, .inr ⟨e, runsP, rfl⟩⟩
    | ok middle =>
      have shorter := exec_length_le back p runsP.exec_readRule
      obtain ⟨outcome, runsQ⟩ : ∃ outcome, q.Runs (RuleRuns depth) mark middle outcome := by
        refine ihq inQ (Nat.le_trans shorter within) fun stayed rule member => ?_
        have here : c.rest.length = n := by omega
        have stays : p.stays (.of n) (mayStay (.of n)) = true := by
          refine (Bool.not_eq_false _).mp fun leaves => ?_
          have less := exec_leaves back (fun _ _ _ leaves here called => here ▸ readRule_leaves (here ▸ leaves) called)
            p leaves here runsP.exec_readRule
          omega
        exact first here rule (List.mem_append_right _ (by rwa [if_pos stays]))
      exact ⟨outcome, .inl ⟨middle, runsP, runsQ⟩⟩
  | branch test p q ihp ihq =>
    obtain ⟨inP, inQ⟩ := Bool.and_eq_true_iff.mp advances
    have allowed := Supply.allows_holds test c
    simp only [Runs]
    split
    · next holds =>
      rw [holds] at allowed
      refine ihp inP within fun here rule member => first here rule (List.mem_append_left _ ?_)
      rwa [if_pos (here ▸ allowed)]
    · next fails =>
      rw [Bool.eq_false_iff.mpr fails] at allowed
      refine ihq inQ within fun here rule member => first here rule (List.mem_append_right _ ?_)
      rwa [if_pos (here ▸ allowed)]
  | loop test p ih =>
    obtain ⟨inside, needed, reads⟩ := advances_loop back (fun _ _ _ => readRule_reads) advances
    refine exists_rounds needed (fun c' short holds => ?_) (fun c' c'' holds stepped => ?_) (Nat.le_refl _)
    · -- Only the first round can start with all the tokens left.
      refine ih inside (Nat.le_trans short within) fun here rule member => ?_
      have allowed := Supply.allows_holds test c'
      rw [holds, here] at allowed
      exact first (by omega) rule (by rwa [openings, if_pos allowed])
    · exact reads mark c' c'' holds (Runs.exec_readRule stepped)
  | node kind p ih =>
    obtain ⟨inner, runs⟩ : ∃ inner, p.Runs (RuleRuns depth) ⟨0⟩ (c.startNode kind) inner :=
      ih advances within first
    exact ⟨_, inner, runs, rfl⟩
  | group p ih =>
    simp only [Runs]
    exact ih advances within first
  | adopt kind p ih =>
    obtain ⟨inner, runs⟩ : ∃ inner, p.Runs (RuleRuns depth) ⟨0⟩ (c.startNodeAt mark kind) inner :=
      ih advances within first
    exact ⟨_, inner, runs, rfl⟩
  | rule name =>
    by_cases here : c.rest.length = n
    · exact first here name (List.mem_singleton.mpr rfl) c here
    · exact below _ (by omega) name c rfl

/-- Induction on the tokens left, and for each number of them on the rank. -/
theorem answered (n : Nat) (rule : Rule) : Answered (11 * n + rank (.of n) rule + 1) n rule := by
  induction n using Nat.strongRecOn generalizing rule with
  | _ n ihn =>
    induction height : rank (.of n) rule using Nat.strongRecOn generalizing rule with
    | _ height' ihk =>
      subst height
      intro c here
      refine Production.exists_runs (n := n) ?_ _ (production_advances rule) (Nat.le_of_eq here) ?_
      · intro m less other
        have low := rank_le (.of m) other
        exact (ihn m less other).mono (by omega)
      · intro _ other member
        have lower := rank_openings (.of n) rule other member
        exact (ihk _ lower other rfl).mono (by omega)

theorem exists_ruleRuns (rule : Rule) (c : Cursor) :
    ∃ outcome, RuleRuns (11 * (c.rest.length + 1)) rule c outcome := by
  have low := rank_le (.of c.rest.length) rule
  exact ((answered c.rest.length rule).mono (by omega)) c rfl

/-! ### Outcomes -/

/-- An error that names what was expected at a place behind the cursor. -/
def Refused (c : Cursor) (e : ParseError) : Prop :=
  ∃ (stuck : Cursor) (expectation : String), stuck.rest <:+ c.rest ∧ e = stuck.error expectation

theorem Refused.of_suffix {c c' : Cursor} {e : ParseError} (suffix : c'.rest <:+ c.rest) (refused : Refused c' e) :
    Refused c e := by
  obtain ⟨stuck, expectation, behind, rfl⟩ := refused
  exact ⟨stuck, expectation, behind.trans suffix, rfl⟩

theorem stable_suffix (tokens : List (Token Kind)) : Stable fun c => c.rest <:+ tokens where
  take c suffix := by
    rw [Cursor.rest_take]
    exact (List.tail_suffix c.rest).trans suffix
  startNode _ _ suffix := suffix
  startNodeAt _ _ _ suffix := suffix
  finishNode _ suffix := suffix

theorem readRule_suffix {depth : Nat} {rule : Rule} {c c' : Cursor} (ran : readRule depth rule c = .ok c') :
    c'.rest <:+ c.rest :=
  readRule_stable (stable_suffix c.rest) (List.suffix_refl _) ran

theorem Production.Runs.suffix {depth : Nat} {p : Production Rule} {mark : Checkpoint} {c c' : Cursor}
    (runs : p.Runs (RuleRuns depth) mark c (.ok c')) : c'.rest <:+ c.rest :=
  exec_stable (stable_suffix c.rest) (fun _ _ _ start called => (readRule_suffix called).trans start) p
    (List.suffix_refl _) runs.exec_readRule

theorem Rounds.refused {test : Look} {step : Cursor → Except ParseError Cursor → Prop} {n : Nat} {c : Cursor}
    {outcome : Except ParseError Cursor} {e : ParseError}
    (forward : ∀ c c', step c (.ok c') → c'.rest <:+ c.rest) (broken : ∀ c, step c (.error e) → Refused c e)
    (rounds : Rounds test step n c outcome) (failed : outcome = .error e) : Refused c e := by
  induction rounds with
  | stop => cases failed
  | round _ stepped _ ih => exact (ih failed).of_suffix (forward _ _ stepped)
  | broken _ stepped => exact broken _ (failed ▸ stepped)

/-- An error comes from a production that fails. -/
theorem Production.Runs.refused {depth : Nat}
    (called : ∀ rule c e, RuleRuns depth rule c (.error e) → Refused c e) (p : Production Rule) {mark : Checkpoint}
    {c : Cursor} {e : ParseError} (runs : p.Runs (RuleRuns depth) mark c (.error e)) : Refused c e := by
  have inNode {inner : Except ParseError Cursor} (ends : .error e = Cursor.finishNode <$> inner) :
      inner = .error e := by
    cases inner <;> cases ends
    rfl
  induction p generalizing mark c with
  | done | take => cases runs
  | fail expectation => exact ⟨c, expectation, List.suffix_refl _, Except.error.inj runs⟩
  | seq p q ihp ihq =>
    rcases runs with ⟨middle, first, second⟩ | ⟨e', first, failed⟩
    · exact (ihq second).of_suffix first.suffix
    · exact ihp (failed ▸ first)
  | branch test p q ihp ihq =>
    rw [Runs] at runs
    split at runs
    · exact ihp runs
    · exact ihq runs
  | loop test p ih =>
    obtain ⟨n, -, rounds⟩ := runs
    exact rounds.refused (fun _ _ stepped => stepped.suffix) (fun _ stepped => ih stepped) rfl
  | node kind p ih =>
    obtain ⟨inner, body, ends⟩ := runs
    obtain ⟨stuck, expectation, behind, named⟩ := ih (inNode ends ▸ body)
    exact ⟨stuck, expectation, behind, named⟩
  | group p ih =>
    rw [Runs] at runs
    exact ih runs
  | adopt kind p ih =>
    obtain ⟨inner, body, ends⟩ := runs
    obtain ⟨stuck, expectation, behind, named⟩ := ih (inNode ends ▸ body)
    exact ⟨stuck, expectation, behind, named⟩
  | rule name => exact called name c e runs

theorem RuleRuns.refused {depth : Nat} {rule : Rule} {c : Cursor} {e : ParseError}
    (runs : RuleRuns depth rule c (.error e)) : Refused c e := by
  induction depth generalizing rule c e with
  | zero => cases runs
  | succ depth ih => exact Production.Runs.refused (fun _ _ _ called => ih called) _ runs

/-! ### Progress -/

def atConstraint : Look := .onAny ["CONSTRAINT", "PRIMARY", "UNIQUE", "FOREIGN", "CHECK", "INDEX"]

/-- The rules that fail at the end of the tokens and read a token anywhere else, or fail there too. -/
def alwaysReading : List Rule := [
  .expression, .dataType, .declaration, .columnDefinition, .selectElement, .tableSource, .joinClause,
  .procedureParameter, .executeArgument]

/-- The rule cannot come to its end without having read a token. -/
inductive MustRead (c : Cursor) : Rule → Prop
  | anywhere {rule : Rule} : rule ∈ alwaysReading → MustRead c rule
  | left {rule : Rule} : readsToken rule = true → c.rest ≠ [] → MustRead c rule
  | constraint : atConstraint.holds c = true → MustRead c .tableConstraint

theorem mayStay_of_mem (supply : Supply) : ∀ rule ∈ alwaysReading, mayStay supply rule = false := by
  cases supply <;> decide

theorem isWord_of_onAny {words : List String} {c : Cursor} (holds : (Look.onAny words).holds c = true) :
    ∃ token rest, c.rest = token :: rest ∧ token.kind.isWord = true := by
  induction words with
  | nil =>
    cases empty : c.rest.isEmpty <;> simp [Look.onAny, Look.any, Look.holds, empty] at holds
  | cons word words ih =>
    rcases Bool.or_eq_true_iff.mp holds with here | later
    · cases shape : c.rest with
      | nil => simp [Look.on, Look.holds, shape] at here
      | cons token rest =>
        simp [Look.on, Look.holds, shape] at here
        exact ⟨token, rest, rfl, here.1⟩
    · exact ih later

theorem constraint_reads {depth : Nat} {c c' : Cursor} (holds : atConstraint.holds c = true)
    (ran : readRule depth .tableConstraint c = .ok c') : c'.rest.length < c.rest.length := by
  obtain ⟨token, rest, shape, isWord⟩ := isWord_of_onAny holds
  have inside : (~~~Grammar.atElementEnd).holds (c.startNode .tableConstraint) = true := by
    change (!(c.rest.isEmpty || c.rest[0]?.any (·.kind == .comma) || c.rest[0]?.any (·.kind == .rightParen))) = true
    rw [shape]
    cases kind : token.kind <;> simp_all [Kind.isWord]
  cases depth with
  | zero => cases ran
  | succ depth =>
    obtain ⟨inner, body, rfl⟩ := Production.exec_node.mp ran
    rw [Production.exec, Cursor.rest_startNode, shape, iterate, if_pos inside] at body
    obtain ⟨next, stepped, later⟩ := bind_eq_ok.mp body
    have back (name : Rule) (c c' : Cursor) (called : readRule depth name c = .ok c') :
        c'.rest.length ≤ c.rest.length := readRule_length_le called
    have less := Production.exec_reads back (fun _ _ _ => readRule_reads) _ (by decide) (by simp [shape]) stepped
    have rounds : inner.rest.length ≤ next.rest.length :=
      iterate_preserves (P := fun c => c.rest.length ≤ next.rest.length)
        (fun _ _ short _ stepped => Nat.le_trans (Production.exec_length_le back _ stepped) short) (Nat.le_refl _) later
    exact Nat.lt_of_le_of_lt rounds less

theorem MustRead.readRule {depth : Nat} {rule : Rule} {c c' : Cursor} (must : MustRead c rule)
    (ran : readRule depth rule c = .ok c') : c'.rest.length < c.rest.length := by
  cases must with
  | anywhere member => exact readRule_leaves (mayStay_of_mem _ _ member) ran
  | left reading left => exact readRule_reads reading left ran
  | constraint holds => exact constraint_reads holds ran

/-- Every rule comes to an end from every cursor, whatever the tokens are. It has a run whose loops go on until
their tests fail, with no more rounds than there are tokens left, and whose rules are no deeper one inside
the other than eleven for each token left and eleven more; reading gives the outcome of this run from that
depth on. A rule that is read to its end has read a front part of the tokens, and one that must read has read
a token; a rule that fails says what it expected. So a text is read without a look at the depth. -/
theorem reading_progresses :
    (∀ (rule : Rule) (c : Cursor), ∃ outcome, RuleRuns (11 * (c.rest.length + 1)) rule c outcome ∧
      (∀ depth ≥ 11 * (c.rest.length + 1), readRule depth rule c = outcome) ∧
      (∀ e, outcome = .error e → Refused c e)) ∧
    (∀ (depth : Nat) (rule : Rule) (c c' : Cursor), readRule depth rule c = .ok c' →
      ∃ read, c.rest = read ++ c'.rest ∧ (MustRead c rule → read ≠ [])) ∧
    ∀ (source : String) (tokens : List (Token Kind)), ∃ outcome,
      RuleRuns (11 * (tokens.length + 1)) .compileUnit { rest := tokens, builder := .ofText source } outcome ∧
      parseTokens source tokens = (fun stop => stop.builder.finish) <$> outcome := by
  refine ⟨fun rule c => ?_, fun depth rule c c' ran => ?_, fun source tokens => ?_⟩
  · obtain ⟨outcome, runs⟩ := exists_ruleRuns rule c
    refine ⟨outcome, runs, fun depth deep => (runs.mono deep).readRule_eq, ?_⟩
    rintro e rfl
    exact runs.refused
  · obtain ⟨read, whole⟩ := readRule_suffix ran
    refine ⟨read, whole.symm, fun must empty => ?_⟩
    have less := must.readRule ran
    rw [← whole, empty] at less
    exact Nat.lt_irrefl _ less
  · obtain ⟨outcome, runs⟩ := exists_ruleRuns .compileUnit { rest := tokens, builder := .ofText source }
    have deep : 11 * (tokens.length + 1) ≤ depthFor tokens := by
      rw [depthFor]
      omega
    refine ⟨outcome, runs, ?_⟩
    rw [parseTokens, (runs.mono deep).readRule_eq]
    cases outcome <;> rfl

/-- In front of the comma that ends it, a constraint has read its word. -/
theorem reading_progresses_in_constraint :
    let c : Cursor := {
      rest := [⟨.keyword, "CHECK", 1, 0⟩, ⟨.comma, ",", 1, 5⟩]
      builder := .ofText "CHECK," }
    MustRead c .tableConstraint ∧ ∃ c' read, readRule 33 .tableConstraint c = .ok c' ∧
      c.rest = read ++ c'.rest ∧ read ≠ [] := by
  intro c
  have must : MustRead c .tableConstraint := .constraint (by decide)
  have ran : readRule 33 .tableConstraint c = .ok _ := rfl
  obtain ⟨read, whole, some⟩ := reading_progresses.2.1 33 .tableConstraint c _ ran
  exact ⟨must, _, read, ran, whole, some must⟩

end SqlFerry.Tsql
