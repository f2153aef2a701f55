import SqlFerry.Proofs.Tsql.Wrapping

/-! The parts of a procedure. Its words and its name are read as before in front of a parenthesis, and its
parameters inside of a pair of them. -/
namespace SqlFerry.Tsql

/-- The test holds only where the next token is a word. -/
def Look.asksWord : Look → Bool
  | .word 0 _ => true
  | .or l r => l.asksWord && r.asksWord
  | _ => false

namespace Production

/-- The nodes that are made are words and nodes of some kinds, if it is known whether the next token is a word. -/
def tops (allowed : Kind → Bool) : Production Rule → Bool → Bool
  | done, _ | fail _, _ => true
  | take, known => known
  | seq p q, known => p.tops allowed known && q.tops allowed false
  | branch test p q, known => p.tops allowed (known || test.asksWord) && q.tops allowed known
  | node kind _, _ => allowed kind
  | _, _ => false

end Production

section Tops

variable {calls : Rule → Place → List (Node Kind) → Place → Prop} {p : Production Rule} {s s' : Place}
  {xs ys : List (Node Kind)}

theorem Look.word_of_asksWord {test : Look} (asks : test.asksWord = true) (answer : test.answer s = true) :
    ∀ token ∈ s.rest.head?, token.kind.isWord = true := by
  induction test with
  | word n w =>
    cases n with
    | zero =>
      intro token next
      rw [Look.answer, ← List.head?_eq_getElem?, Option.mem_def.mp next] at answer
      exact (Bool.and_eq_true_iff.mp answer).1
    | succ n => cases asks
  | or l r ihl ihr =>
    obtain ⟨asksL, asksR⟩ := Bool.and_eq_true_iff.mp asks
    rcases Bool.or_eq_true_iff.mp answer with answer | answer
    · exact ihl asksL answer
    · exact ihr asksR answer
  | _ => cases asks

theorem Course.tops {allowed : Kind → Bool} (course : Course calls p s xs s' ys) {known : Bool}
    (tops : p.tops allowed known = true)
    (word : known = true → ∀ token ∈ s.rest.head?, token.kind.isWord = true) :
    ∃ zs, ys = xs ++ zs ∧ ∀ node ∈ zs, node.kind.isWord = true ∨ allowed node.kind = true := by
  induction course generalizing known with
  | done => exact ⟨[], by simp, by simp⟩
  | @take token rest line xs id index =>
    refine ⟨[.leaf id index token], rfl, fun node member => ?_⟩
    obtain rfl := List.mem_singleton.mp member
    exact .inl (word tops token rfl)
  | stay => exact ⟨[], by simp, by simp⟩
  | seq _ _ ihp ihq =>
    obtain ⟨topsP, topsQ⟩ := Bool.and_eq_true_iff.mp tops
    obtain ⟨front, rfl, first⟩ := ihp topsP word
    obtain ⟨back, rfl, second⟩ := ihq topsQ nofun
    refine ⟨front ++ back, by simp, fun node member => ?_⟩
    rcases List.mem_append.mp member with member | member
    · exact first node member
    · exact second node member
  | holds answer _ ih =>
    refine ih (Bool.and_eq_true_iff.mp tops).1 fun known => ?_
    rcases Bool.or_eq_true_iff.mp known with known | asks
    · exact word known
    · exact Look.word_of_asksWord asks answer
  | fails _ _ ih => exact ih (Bool.and_eq_true_iff.mp tops).2 word
  | @node kind p s s' xs ys id _ _ =>
    refine ⟨closed id kind ys, rfl, fun node member => .inr ?_⟩
    rw [kind_of_mem_closed member]
    exact tops
  | stop | round | group | adopt | rule => cases tops

end Tops

def procedureStart : Production Rule :=
  .seq (.branch (.on "CREATE")
      (.steps [.take, .whenever (.on "OR") (.steps [.take, .expectWord "ALTER"])]) (.expectWord "ALTER"))
    (.branch (.on "PROCEDURE") .take (.expectWord "PROC"))

def parametersTest : Look :=
  .sees .userVariable ||| (.sees .leftParen &&& (.kind 1 .userVariable ||| .kind 1 .rightParen))

def parametersPart : Production Rule := .whenever parametersTest Grammar.procedureParameters

def procedureTail : Production Rule := .steps [
  .whenever (.on "WITH") (.node .procedureOptions (.steps [.take, .list (.rule .procedureOption)])),
  .whenever (.on "FOR") (.steps [.take, .expectWord "REPLICATION"]),
  .expectWord "AS",
  .node .procedureBody (Grammar.statementsUntil Grammar.atBatchSeparator)]

/-- How the parts of a procedure are read, one behind the other. -/
structure ProcedureParts (depth : Nat) (s s₁ s₂ s₃ s' : Place) (words : List (Node Kind)) (name : Node Kind)
    (parameters rest : List (Node Kind)) : Prop where
  words : Course (RuleCourse depth) procedureStart s [] s₁ words
  name : RuleCourse depth .qualifiedName s₁ [name] s₂
  parameters : Course (RuleCourse depth) parametersPart s₂ [] s₃ parameters
  rest : Course (RuleCourse depth) procedureTail s₃ [] s' rest

/-- The parts of a procedure, in their order. Statements stand in the last one only. -/
structure Header (children words : List (Node Kind)) (name : Node Kind)
    (parameters others body : List (Node Kind)) : Prop where
  whole : children = words ++ name :: (parameters ++ (others ++ body))
  opened : words ≠ []
  areWords : ∀ node ∈ words, node.kind.isWord = true
  isName : name.kind = .qualifiedName
  listed : parameters = [] ∨ ∃ id first rest, parameters = [.rule id .procedureParameters first rest]
  areOthers : ∀ node ∈ others, node.kind.isWord = true ∨ node.kind = .procedureOptions
  ended : body = [] ∨ ∃ node, body = [node] ∧ node.kind = .procedureBody
  plainHead : Plain (words ++ [name])
  plainParameters : Plain parameters
  plainOthers : Plain others

theorem find?_eq_none_of_ne {nodes : List (Node Kind)} {kind : Kind} (other : ∀ node ∈ nodes, node.kind ≠ kind) :
    nodes.find? (·.kind == kind) = none :=
  List.find?_eq_none.mpr fun node member => by simpa using other node member

section Header

variable {children words parameters others body : List (Node Kind)} {name : Node Kind}
  (header : Header children words name parameters others body)

include header

theorem Header.words_ne {kind : Kind} (noWord : kind.isWord = false) : ∀ node ∈ words, node.kind ≠ kind := by
  rintro node member rfl
  rw [header.areWords node member] at noWord
  cases noWord

theorem Header.others_ne {kind : Kind} (other : kind ∉ [.procedureOptions, .procedureBody])
    (noWord : kind.isWord = false) :
    ∀ node ∈ others ++ body, node.kind ≠ kind := by
  simp only [List.mem_cons, List.not_mem_nil, or_false, not_or] at other
  intro node member
  rcases List.mem_append.mp member with inOthers | inBody
  · rintro rfl
    rcases header.areOthers node inOthers with isWord | isOptions
    · rw [isWord] at noWord
      cases noWord
    · exact other.1 isOptions
  · rcases header.ended with rfl | ⟨last, rfl, isBody⟩
    · cases inBody
    · rw [List.mem_singleton.mp inBody, isBody]
      exact fun contrary => other.2 contrary.symm

theorem Header.find?_name : children.find? (·.kind == .qualifiedName) = some name := by
  rw [header.whole, List.find?_append, find?_eq_none_of_ne (header.words_ne rfl), List.find?_cons]
  simp [header.isName]

theorem Header.find?_parameters : children.find? (·.kind == .procedureParameters) = parameters.head? := by
  have other : ∀ node ∈ others ++ body, node.kind ≠ .procedureParameters := header.others_ne (by decide) rfl
  rw [header.whole, List.find?_append, find?_eq_none_of_ne (header.words_ne rfl), List.find?_cons, List.find?_append,
    find?_eq_none_of_ne other, header.isName]
  rcases header.listed with rfl | ⟨id, first, rest, rfl⟩ <;> rfl

theorem Header.find?_body : children.find? (·.kind == .procedureBody) = body.head? := by
  have front : ∀ node ∈ words ++ name :: (parameters ++ others), node.kind ≠ .procedureBody := by
    simp only [List.forall_mem_append, List.forall_mem_cons]
    refine ⟨header.words_ne rfl, by simp [header.isName], ?_, fun node member isBody => ?_⟩
    · rcases header.listed with rfl | ⟨id, first, rest, rfl⟩
      · exact List.forall_mem_nil _
      · simp [Node.kind]
    · have either := header.areOthers node member
      rw [isBody] at either
      rcases either with contrary | contrary <;> cases contrary
  have split : children = (words ++ name :: (parameters ++ others)) ++ body := by simp [header.whole]
  rw [split, List.find?_append, find?_eq_none_of_ne front, Option.none_or]
  rcases header.ended with rfl | ⟨node, rfl, isBody⟩
  · rfl
  · simp [isBody]

end Header

section Procedure

variable {depth : Nat} {s s₁ s₂ s₃ s' : Place} {words parameters rest ys : List (Node Kind)} {name : Node Kind}
  {r' : List (Token Kind)}

theorem RuleCourse.qualifiedName_single (course : RuleCourse depth .qualifiedName s ys s') :
    ∃ name, ys = [name] ∧ name.kind = .qualifiedName := by
  cases depth with
  | zero => exact course.elim
  | succ depth =>
    match course with
    | .fails _ failed => nomatch failed
    | .holds answer (.node id (.seq taken others)) =>
      cases taken with
      | stay => cases answer
      | take leaf index =>
        obtain ⟨zs, rfl, -⟩ := others.rebase rfl
        exact ⟨_, rfl, rfl⟩

theorem RuleCourse.procedureParts (course : RuleCourse (depth + 1) .createProcedure s ys s') :
    ∃ id s₁ s₂ s₃ words name parameters rest, ys = closed id .createProcedure (words ++ name :: (parameters ++ rest)) ∧
      name.kind = .qualifiedName ∧ ProcedureParts depth s s₁ s₂ s₃ s' words name parameters rest := by
  match course with
  | .node id (.seq first (.seq second (.seq (.rule named) (.seq listed tail)))) =>
    obtain ⟨name, rfl, isName⟩ := named.qualifiedName_single
    obtain ⟨parameters, rfl, parametersFrom⟩ := listed.rebase rfl
    obtain ⟨rest, rfl, restFrom⟩ := Course.rebase tail rfl
    exact ⟨id, _, _, _, _, name, parameters, rest, by simp, isName, .seq first second, named,
      parametersFrom [], restFrom []⟩

theorem ProcedureParts.course (parts : ProcedureParts depth s s₁ s₂ s₃ s' words name parameters rest) (id : Nat) :
    RuleCourse (depth + 1) .createProcedure s (closed id .createProcedure (words ++ name :: (parameters ++ rest))) s' := by
  obtain ⟨header, named, listed, tail⟩ := parts
  obtain ⟨_, rfl, listedFrom⟩ := Course.rebase listed rfl
  obtain ⟨_, rfl, tailFrom⟩ := Course.rebase tail rfl
  match header with
  | .seq first second =>
    have inner := Course.seq first (.seq second (.seq (.rule named) (.seq (listedFrom _) (tailFrom _))))
    simp only [List.append_assoc, List.singleton_append] at inner
    exact .node id inner

theorem ProcedureParts.before_paren (parts : ProcedureParts depth s s₁ s₂ s₃ s' words name parameters rest)
    {left : Token Kind} (isLeft : left.kind = .leftParen) (r' : List (Token Kind)) :
    Course (RuleCourse depth) procedureStart ⟨Node.tokensOf words ++ (name.tokens ++ left :: r'), s.line⟩ []
        ⟨name.tokens ++ left :: r', s₁.line⟩ words ∧
      RuleCourse depth .qualifiedName ⟨name.tokens ++ left :: r', s₁.line⟩ [name] ⟨left :: r', s₂.line⟩ := by
  have isName : s₁.rest = name.tokens ++ s₂.rest := by simpa [Node.tokensOf] using parts.name.tokens
  have isWords : s.rest = Node.tokensOf words ++ name.tokens ++ s₂.rest := by
    rw [List.append_assoc, ← isName]
    exact Course.tokens (fun _ _ _ _ => RuleCourse.tokens) parts.words
  constructor
  · let bare : Setting Rule := { Setting.closing [.leftParen] [] with scope := fun _ => none }
    have fits : bare.Fits s₂.rest (left :: r') := by
      have fits := Setting.fits_closing [] s₂.rest r' (show left.kind ∈ [Kind.leftParen] by simp [isLeft])
      exact ⟨fits.outlook, fits.ended⟩
    have some : 1 ≤ name.tokens.length := by
      obtain ⟨first, more, isTokens⟩ := Node.exists_cons_tokens name
      simp [isTokens]
    have again := @Course.transfer_rules bare (fun _ => True) _ _ depth fits nofun _ _ _ _ _ parts.words 0 1
      (by decide) (Nat.zero_le _) (fun _ _ => trivial) _ _ isWords isName some
    rwa [List.append_assoc] at again
  · cases depth with
    | zero => exact parts.name.elim
    | succ depth =>
      exact @transfers_qualifiedName _ _ left (fun _ => True) (by simp [isLeft]) depth _ _ _ name.tokens []
        parts.name (Nat.zero_le _) (fun _ _ => trivial) isName rfl (Nat.zero_le _)

theorem parameters_list (course : Course (RuleCourse depth) (.list (.rule .procedureParameter)) s [] s' ys) :
    Node.tokensOf ys ≠ [] := by
  intro none
  have tokens : s.rest = Node.tokensOf ys ++ s'.rest := Course.tokens (fun _ _ _ _ => RuleCourse.tokens) course
  match course with
  | .seq (.rule first) others =>
    have behind := (others.suffix fun _ _ _ _ => RuleCourse.suffix).length_le
    have read := first.least_le (View.shows_blank s) (Nat.zero_le _)
    rw [tokens, none] at read
    simp [Rule.budget, View.sided, View.glimpse, View.blank, Rule.least] at read
    omega

theorem parametersTest_answer {left next : Token Kind} (isLeft : left.kind = .leftParen)
    (isNext : next.kind = .userVariable ∨ next.kind = .rightParen) (rest : List (Token Kind)) (line : Nat) :
    parametersTest.answer ⟨left :: next :: rest, line⟩ = true := by
  change (_ || (_ && (_ || _))) = true
  rcases isNext with isNext | isNext <;> simp [Look.sees, Look.answer, isLeft, isNext]

theorem parameters_enclosed {first : Node Kind}
    (course : Course (RuleCourse depth) (.list (.rule .procedureParameter)) s [] s' (first :: ys))
    (more : s'.rest ≠ []) (isVariable : first.startToken.kind = .userVariable) (r' : List (Token Kind)) :
    Course (RuleCourse depth) parametersPart
      ⟨openParen s.line :: (Node.tokensOf (first :: ys) ++ closeParen s'.line :: r'), s.line⟩ [] ⟨r', s'.line⟩
      [.rule 0 .procedureParameters (.leaf 0 0 (openParen s.line))
        (first :: ys ++ [.leaf 0 0 (closeParen s'.line)])] := by
  have tokens : s.rest = Node.tokensOf (first :: ys) ++ s'.rest :=
    Course.tokens (fun _ _ _ _ => RuleCourse.tokens) course
  have closes : (closeParen s'.line).kind ∈ closingKinds := by simp [closeParen, closingKinds]
  have called (name : Rule) (o : Nat) (inScope : (Setting.closing closingKinds sides).scope name = some o) :
      Transfers (fun _ => True) s'.rest (closeParen s'.line :: r') depth name o := by
    simp only [Setting.closing] at inScope
    split at inScope
    · cases inScope
    · next known =>
      refine transfers_closing closes (fun none => absurd none more) depth inScope fun isIndex => ?_
      simp [isIndex, closingKinds] at known
  have stop : s'.rest = [] ++ s'.rest := rfl
  have list := Course.transfer_rules (Setting.fits_closing sides s'.rest r' closes) called course (k := 0) (o := 0)
    (by decide) (Nat.zero_le _) (fun _ _ => trivial) tokens stop (Nat.zero_le _)
  obtain ⟨token, others, isTokens⟩ : ∃ token others, Node.tokensOf (first :: ys) = token :: others := by
    obtain ⟨token, others, isTokens⟩ := Node.exists_cons_tokens first
    exact ⟨token, others ++ Node.tokensOf ys, by rw [Node.tokensOf, isTokens, List.cons_append]⟩
  have isVariable : token.kind = .userVariable := by
    obtain rfl : token = first.startToken := by
      have next := congrArg List.head? isTokens
      rw [Node.tokensOf, List.head?_append, first.head?_tokens] at next
      exact (Option.some.inj next).symm
    exact isVariable
  have test := @parametersTest_answer (openParen s.line) token rfl (.inl isVariable)
    (others ++ closeParen s'.line :: r') s.line
  have noEnd : (Look.sees .rightParen).answer ⟨token :: (others ++ closeParen s'.line :: r'), s.line⟩ = false := by
    simp [Look.sees, Look.answer, isVariable]
  obtain ⟨_, isNodes, listFrom⟩ := Course.rebase list rfl
  have list := listFrom [.leaf 0 0 (openParen s.line)]
  rw [List.nil_append] at isNodes
  rw [← isNodes, List.nil_append] at list
  rw [isTokens] at list ⊢
  have opened : Course (RuleCourse depth) .take ⟨openParen s.line :: token :: (others ++ closeParen s'.line :: r'), s.line⟩
      [] ⟨token :: (others ++ closeParen s'.line :: r'), s.line⟩ [.leaf 0 0 (openParen s.line)] := by
    have taken := @Course.take _ (RuleCourse depth) (openParen s.line) (token :: (others ++ closeParen s'.line :: r'))
      s.line [] 0 0
    rwa [line_openParen] at taken
  have ended : Course (RuleCourse depth) (.expect .rightParen "')' after the parameters")
      ⟨closeParen s'.line :: r', s'.line⟩ ([.leaf 0 0 (openParen s.line)] ++ first :: ys) ⟨r', s'.line⟩
      ([.leaf 0 0 (openParen s.line)] ++ first :: ys ++ [.leaf 0 0 (closeParen s'.line)]) := by
    have taken := @Course.take _ (RuleCourse depth) (closeParen s'.line) r' s'.line
      ([.leaf 0 0 (openParen s.line)] ++ first :: ys) 0 0
    rw [line_closeParen] at taken
    exact .holds rfl taken
  exact .holds test (.node 0 (.holds rfl (.seq opened (.seq (.fails noEnd list) (.seq ended .done)))))

theorem parameters_none (line : Nat) (r' : List (Token Kind)) :
    Course (RuleCourse depth) parametersPart ⟨openParen line :: closeParen line :: r', line⟩ [] ⟨r', line⟩
      [noParameters line] := by
  have opened := @Course.take _ (RuleCourse depth) (openParen line) (closeParen line :: r') line [] 0 0
  have ended := @Course.take _ (RuleCourse depth) (closeParen line) r' (openParen line).stop.line
    [.leaf 0 0 (openParen line)] 0 0
  rw [line_closeParen] at ended
  have test := @parametersTest_answer (openParen line) (closeParen line) rfl (.inr rfl) r' line
  exact .holds test (.node 0 (.holds rfl (.seq opened (.seq (.holds rfl .done) (.seq (.holds rfl ended) .done)))))

theorem ProcedureParts.line_name (parts : ProcedureParts depth s s₁ s₂ s₃ s' words name parameters rest) :
    s₂.line = name.stop.line := by
  rw [parts.name.line, Node.tokensOf, Node.tokensOf, List.append_nil, lineBehind_node]

/-- A procedure has no parameters, or parameters in parentheses, or a list of them. -/
theorem parameters_cases (course : Course (RuleCourse depth) parametersPart s [] s' ys) :
    (ys = [] ∧ s' = s) ∨
    (∃ node, ys = [node] ∧ node.kind = .procedureParameters ∧ node.startToken.kind = .leftParen) ∨
    ∃ id first more, ys = [.rule id .procedureParameters first more] ∧ first.startToken.kind = .userVariable ∧
      Course (RuleCourse depth) (.list (.rule .procedureParameter)) s [] s' (first :: more) := by
  match course with
  | .fails _ .done => exact .inl ⟨rfl, rfl⟩
  | .holds test (.node id (.holds paren (.seq taken others))) =>
    cases taken with
    | stay => cases paren
    | @take token rest line _ leaf index =>
      obtain ⟨qs, rfl, -⟩ := others.rebase rfl
      have isLeft : token.kind = .leftParen := by simpa [Look.sees, Look.answer] using paren
      exact .inr (.inl ⟨_, rfl, rfl, isLeft⟩)
  | .holds test (.node id (.fails noParen list)) =>
    rename_i qs
    have some := parameters_list list
    have tokens : s.rest = Node.tokensOf qs ++ s'.rest := Course.tokens (fun _ _ _ _ => RuleCourse.tokens) list
    cases qs with
    | nil => exact absurd rfl some
    | cons first more =>
      have next : s.rest[0]? = .some first.startToken := by
        rw [tokens, ← List.head?_eq_getElem?, Node.tokensOf, List.append_assoc, List.head?_append,
          first.head?_tokens]
        rfl
      have isVariable : (Look.sees .userVariable).answer s = true := by
        have either : ((Look.sees .userVariable).answer s || ((Look.sees .leftParen).answer s && _)) = true := test
        simpa [noParen] using either
      refine .inr (.inr ⟨id, first, more, rfl, ?_, list⟩)
      simpa [Look.sees, Look.answer, next] using isVariable

theorem ProcedureParts.parameters_again (called : AllWrapped depth)
    (parts : ProcedureParts depth s s₁ s₂ s₃ s' words name parameters rest) (more : s₃.rest ≠ [])
    (wrappable : ∀ node ∈ Node.descendantsOf parameters, Wrappable node) (diverges : Diverges s₃.rest r') :
    (∃ left others, Node.tokensOf (wrappedBehind name parameters) = left :: others ∧ left.kind = .leftParen) ∧
      Course (RuleCourse (depth + 8)) parametersPart
        ⟨Node.tokensOf (wrappedBehind name parameters) ++ r', s₂.line⟩ [] ⟨r', s₃.line⟩
        (wrappedBehind name parameters) := by
  rcases parameters_cases parts.parameters with
    ⟨rfl, rfl⟩ | ⟨node, rfl, isParameters, isLeft⟩ | ⟨id, first, others, rfl, isVariable, list⟩
  · refine ⟨⟨_, _, rfl, rfl⟩, ?_⟩
    have none := @parameters_none (depth + 8) s₃.line r'
    rw [parts.line_name] at none ⊢
    exact none
  · have same : wrappedBehind name [node] = [node] := by
      simp [wrappedBehind, isParameters, wrappedParameters, isLeft]
    have quiet : wrapping.all [node] = [node] := wrapping.all_plain (parts.parameters.plain rfl)
    have again := called.rest (by decide) parts.parameters wrappable diverges
    obtain ⟨first, others, isTokens⟩ := Node.exists_cons_tokens node
    have isFirst : first = node.startToken := by simpa [isTokens] using node.head?_tokens
    rw [same]
    refine ⟨⟨first, others, by simp [Node.tokensOf, isTokens], isFirst ▸ isLeft⟩, ?_⟩
    rw [← quiet]
    exact again.reads
  · have isLine : (Node.rule id .procedureParameters first others).stop.line = s₃.line := by
      have line := Course.line (fun _ _ _ _ => RuleCourse.line) list rfl
      exact (lineBehind_node s₂.line (.rule id .procedureParameters first others)).symm.trans line.symm
    have same : wrappedBehind name [.rule id .procedureParameters first others] =
        [.rule 0 .procedureParameters (.leaf 0 0 (openParen s₂.line))
          (first :: others ++ [.leaf 0 0 (closeParen s₃.line)])] := by
      simp [wrappedBehind, Node.kind, wrappedParameters, Node.startToken, isVariable, Node.children, isLine,
        parts.line_name]
    have enclosed := parameters_enclosed list more isVariable r'
    have deeper := Course.mono (fun _ _ _ _ => RuleCourse.mono (Nat.le_add_right depth 8)) enclosed
    rw [same]
    refine ⟨⟨_, _, rfl, rfl⟩, ?_⟩
    simpa [Node.tokensOf, Node.tokens, Node.tokensOf_append] using deeper

theorem kind_wrapped (node : Node Kind) : (wrapped node).kind = node.kind := by
  cases node <;> rfl

theorem wrappedBehind_append {parameters zs : List (Node Kind)}
    (listed : parameters = [] ∨ ∃ id first rest, parameters = [.rule id .procedureParameters first rest])
    (other : ∀ node ∈ zs, node.kind ≠ .procedureParameters) (name : Node Kind) :
    wrappedBehind name (parameters ++ zs) = wrappedBehind name parameters ++ zs := by
  rcases listed with rfl | ⟨id, first, rest, rfl⟩
  · cases zs with
    | nil => rfl
    | cons node zs => simp [wrappedBehind, other node]
  · simp [wrappedBehind, Node.kind]

theorem wrappedHeader_append {words rest : List (Node Kind)} (areWords : ∀ node ∈ words, node.kind.isWord = true)
    (isName : name.kind = .qualifiedName) :
    wrappedHeader (words ++ name :: rest) = words ++ name :: wrappedBehind name rest := by
  induction words with
  | nil => rw [List.nil_append, wrappedHeader, if_pos isName, List.nil_append]
  | cons word words ih =>
    obtain ⟨isWord, areWords⟩ := List.forall_mem_cons.mp areWords
    have other : word.kind ≠ .qualifiedName := by
      intro contrary
      rw [contrary] at isWord
      cases isWord
    rw [List.cons_append, wrappedHeader, if_neg other, ih areWords, List.cons_append]

theorem Header.wrapped {children words parameters others body : List (Node Kind)} {name : Node Kind}
    (header : Header children words name parameters others body) (id : Nat) :
    wrapping.all (closed id .createProcedure children) =
      closed id .createProcedure (words ++ name :: (wrappedBehind name parameters ++ (others ++ wrapping.all body))) := by
  have quiet {ys : List (Node Kind)} (plain : Plain ys) : ys.map Tsql.wrapped = ys := by
    rw [← wrapping_all]
    exact wrapping.all_plain plain
  have other (node : Node Kind) (member : node ∈ others ++ body.map Tsql.wrapped) : node.kind ≠ .procedureParameters := by
    rw [← quiet header.plainOthers, ← List.map_append] at member
    obtain ⟨below, isBelow, rfl⟩ := List.mem_map.mp member
    rw [kind_wrapped]
    exact header.others_ne (by decide) rfl below isBelow
  obtain ⟨word, more, rfl⟩ := List.exists_cons_of_ne_nil header.opened
  have sameHead := quiet header.plainHead
  rw [List.cons_append, List.map_cons, List.map_append] at sameHead
  obtain ⟨sameWord, sameRest⟩ := List.cons.inj sameHead
  obtain ⟨sameMore, sameName⟩ := List.append_inj sameRest (by simp)
  have rest : wrappedHeader ((more ++ name :: (parameters ++ (others ++ body))).map Tsql.wrapped) =
      more ++ name :: (wrappedBehind name parameters ++ (others ++ body.map Tsql.wrapped)) := by
    rw [List.map_append, List.map_cons, List.map_append, List.map_append, sameMore, List.head_eq_of_cons_eq sameName,
      quiet header.plainParameters, quiet header.plainOthers,
      wrappedHeader_append (List.forall_mem_cons.mp header.areWords).2 header.isName,
      wrappedBehind_append header.listed other]
  rw [header.whole]
  simp only [wrapping_all, closed, List.cons_append, List.map_cons, List.map_nil, Tsql.wrapped, wrappedOf_eq_map,
    rewrapped, rest, sameWord]

theorem View.shows_opened {first : Token Kind} {rest rest' : List (Token Kind)} (start : s.rest = first :: rest)
    (isKeyword : first.kind = .keyword) {word : String} {words : List String} (isWord : word ∈ words)
    (reads : first.isWord word = true) :
    View.Shows ⟨[.opener words], .free⟩ s ⟨first :: rest', s.line⟩ := by
  obtain ⟨_, line⟩ := s
  cases start
  exact View.shows_cons ⟨rfl, first, rfl, isKeyword, word, isWord, reads⟩ ⟨fun _ => trivial, rfl⟩

theorem Course.least_rules {p : Production Rule} {xs : List (Node Kind)} (course : Course (RuleCourse depth) p s xs s' ys) :
    s'.rest.length + p.least Rule.budget .blank 0 ≤ s.rest.length := by
  have called (name : Rule) (v : View) (s : Place) (ys : List (Node Kind)) (s' d : Place)
      (course : RuleCourse depth name s ys s') (shows : v.Shows s d)
      (enough : Rule.budget.needs name ≤ s.rest.length) :
      s'.rest.length + Rule.budget.least v name ≤ s.rest.length := course.least_le shows enough
  exact Course.least_le called (fun _ _ _ _ => RuleCourse.suffix) course (View.shows_blank s) (Nat.zero_le _)

theorem ProcedureParts.words_cons (parts : ProcedureParts depth s s₁ s₂ s₃ s' words name parameters rest) :
    (∃ word others, words = word :: others) ∧ ∀ node ∈ words, node.kind.isWord = true := by
  constructor
  · have read := parts.words.least_rules
    have some : 1 ≤ procedureStart.least Rule.budget .blank 0 := by decide
    have tokens : s.rest = Node.tokensOf words ++ s₁.rest :=
      Course.tokens (fun _ _ _ _ => RuleCourse.tokens) parts.words
    refine List.exists_cons_of_ne_nil fun none => ?_
    rw [tokens, none, Node.tokensOf, List.nil_append] at read
    omega
  · have tops : procedureStart.tops (fun _ => false) false = true := by decide
    obtain ⟨_, rfl, areWords⟩ := Course.tops parts.words tops fun contrary => by cases contrary
    exact fun node member => (areWords node member).resolve_right (by decide)

def procedureMiddle : Production Rule := .steps [
  .whenever (.on "WITH") (.node .procedureOptions (.steps [.take, .list (.rule .procedureOption)])),
  .whenever (.on "FOR") (.steps [.take, .expectWord "REPLICATION"]),
  .expectWord "AS"]

theorem ProcedureParts.header (parts : ProcedureParts depth s s₁ s₂ s₃ s' words name parameters rest)
    (isName : name.kind = .qualifiedName) :
    ∃ others body, Header (words ++ name :: (parameters ++ rest)) words name parameters others body := by
  obtain ⟨⟨word, more, isWords⟩, areWords⟩ := parts.words_cons
  have listed : parameters = [] ∨ ∃ id first rest, parameters = [.rule id .procedureParameters first rest] := by
    match parts.parameters with
    | .fails _ .done => exact .inl rfl
    | .holds _ (.node id inner) =>
      rename_i listed
      cases listed with
      | nil => exact .inl rfl
      | cons first rest => exact .inr ⟨id, first, rest, rfl⟩
  match parts.rest with
  | .seq options (.seq replication (.seq as (.seq (.node id inner) .done))) =>
    rename_i others statements
    have middle : Course (RuleCourse depth) procedureMiddle s₃ [] _ others :=
      .seq options (.seq replication (.seq as .done))
    have tops : procedureMiddle.tops (· = .procedureOptions) false = true := by decide
    obtain ⟨_, isOthers, kinds⟩ := middle.tops tops fun contrary => by cases contrary
    obtain rfl : others = _ := isOthers
    refine ⟨_, closed id .procedureBody statements, rfl, by simp [isWords], areWords, isName, listed, ?_, ?_,
      plain_append.mpr ⟨parts.words.plain rfl, parts.name.plain rfl⟩, parts.parameters.plain rfl, middle.plain rfl⟩
    · intro node member
      simpa using kinds node member
    · cases statements with
      | nil => exact .inl rfl
      | cons first more => exact .inr ⟨_, rfl, rfl⟩

theorem ProcedureParts.wrapped (parts : ProcedureParts depth s s₁ s₂ s₃ s' words name parameters rest)
    (isName : name.kind = .qualifiedName) (id : Nat) :
    wrapping.all (closed id .createProcedure (words ++ name :: (parameters ++ rest))) =
      closed id .createProcedure (words ++ name :: (wrappedBehind name parameters ++ wrapping.all rest)) := by
  obtain ⟨others, body, header⟩ := parts.header isName
  have isRest : rest = others ++ body := by simpa using header.whole
  rw [header.wrapped, isRest, wrapping.all_append, wrapping.all_plain header.plainOthers]

/-- A procedure whose parameters get their parentheses. -/
theorem procedure_again (called : AllWrapped depth) (course : RuleCourse (depth + 1) .createProcedure s ys s')
    (opened : Opened .createProcedure s) (wrappable : ∀ node ∈ Node.descendantsOf ys, Wrappable node)
    (diverges : Diverges s'.rest r') :
    Again wrapping s s' ys (Rule.createProcedure.sights wrappingViews) r' fun d d' =>
      RuleCourse (depth + 8 + 1) .createProcedure d (wrapping.all ys) d' := by
  obtain ⟨id, s₁, s₂, s₃, words, name, parameters, rest, rfl, isName, parts⟩ := course.procedureParts
  have below (node : Node Kind) (member : node ∈ Node.descendantsOf parameters ++ Node.descendantsOf rest) :
      Wrappable node := by
    refine wrappable node (descendantsOf_closed id .createProcedure _ ?_)
    rw [Node.descendantsOf_append, Node.descendantsOf, Node.descendantsOf_append]
    exact List.mem_append_right _ (List.mem_append_right _ member)
  have behind := called.rest (by decide) parts.rest
    (fun node member => below node (List.mem_append_right _ member)) diverges
  have more : s₃.rest ≠ [] := by
    have read := parts.rest.least_rules
    have some : 1 ≤ procedureTail.least Rule.budget .blank 0 := by decide
    exact List.ne_nil_of_length_pos (by omega)
  obtain ⟨⟨left, others, isTokens, isLeft⟩, listed⟩ := parts.parameters_again called more
    (fun node member => below node (List.mem_append_left _ member)) behind.diverges
  have tokens : Node.tokensOf (wrapping.all (closed id .createProcedure (words ++ name :: (parameters ++ rest)))) ++ r' =
      Node.tokensOf words ++ (name.tokens ++ (Node.tokensOf (wrappedBehind name parameters) ++
        (Node.tokensOf (wrapping.all rest) ++ r'))) := by
    rw [parts.wrapped isName, tokensOf_closed]
    simp [Node.tokensOf_append, Node.tokensOf]
  obtain ⟨header, named⟩ := parts.before_paren isLeft (others ++ (Node.tokensOf (wrapping.all rest) ++ r'))
  have again : ProcedureParts (depth + 8)
      ⟨Node.tokensOf (wrapping.all (closed id .createProcedure (words ++ name :: (parameters ++ rest)))) ++ r', s.line⟩
      ⟨name.tokens ++ (Node.tokensOf (wrappedBehind name parameters) ++ (Node.tokensOf (wrapping.all rest) ++ r')), s₁.line⟩
      ⟨Node.tokensOf (wrappedBehind name parameters) ++ (Node.tokensOf (wrapping.all rest) ++ r'), s₂.line⟩
      ⟨Node.tokensOf (wrapping.all rest) ++ r', s₃.line⟩ ⟨r', s'.line⟩ words name (wrappedBehind name parameters)
      (wrapping.all rest) := by
    refine ⟨?_, ?_, listed, behind.reads⟩
    · rw [tokens, isTokens]
      exact header.mono fun _ _ _ _ => RuleCourse.mono (Nat.le_add_right ..)
    · rw [isTokens]
      exact named.mono (Nat.le_add_right ..)
  obtain ⟨first, isFirst, isKeyword, word, isWord, reads⟩ := opened (by simp [Rule.words, procedureWords])
  have start : s.rest = Node.tokensOf words ++ (name.tokens ++ s₂.rest) := by
    have isName : s₁.rest = name.tokens ++ s₂.rest := by simpa [Node.tokensOf] using parts.name.tokens
    rw [← isName]
    exact Course.tokens (fun _ _ _ _ => RuleCourse.tokens) parts.words
  obtain ⟨mid, isMid⟩ : ∃ mid, Node.tokensOf words = first :: mid := by
    obtain ⟨⟨word, others, rfl⟩, -⟩ := parts.words_cons
    obtain ⟨token, more, isWord⟩ := Node.exists_cons_tokens word
    rw [start, Node.tokensOf, isWord] at isFirst
    exact ⟨more ++ Node.tokensOf others, by rw [Node.tokensOf, isWord, Option.some.inj isFirst]; rfl⟩
  rw [isMid, List.cons_append] at start tokens
  refine ⟨?_, ⟨⟨[.opener procedureWords], .free⟩, List.mem_cons_self, ?_⟩, ?_⟩
  · rw [start, tokens]
    refine .inr ⟨[], first, _, _, ⟨isKeyword, word, words_heads isWord, reads⟩, .inl ?_, rfl, rfl⟩
    obtain ⟨token, more, isTokens⟩ := Node.exists_cons_tokens name
    rw [isTokens]
    cases mid <;> rfl
  · rw [tokens]
    exact View.shows_opened start isKeyword isWord reads
  · have course := again.course id
    rwa [← parts.wrapped isName id] at course

end Procedure

end SqlFerry.Tsql
