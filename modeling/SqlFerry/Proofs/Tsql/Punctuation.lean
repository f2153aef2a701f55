import SqlFerry.Pass.Terminator
import SqlFerry.Proofs.Tsql.Rereading

/-! Semicolons behind statements. Where a statement lacks the semicolon that it takes, the text that has it is
read as the tree with the semicolon put in, as long as nothing is missing at the end of the text. -/
namespace SqlFerry.Tsql

/-- A semicolon on a line. Its column does not matter. -/
def semicolonOn (line : Nat) : Token Kind := ⟨.semicolon, ";", line, 0⟩

theorem line_semicolonOn (line : Nat) : (semicolonOn line).stop.line = line := by
  simp [semicolonOn, Token.stop, Token.start, Position.step]

/-- What a node gets behind its body: a semicolon, if it is a statement that lacks one. -/
def addition (node body : Node Kind) : List (Node Kind) :=
  if node.kind = .statement ∧ Pass.lacksTerminator node body = true then [.leaf 0 0 (semicolonOn body.stop.line)]
  else []

mutual

/-- The tree with a semicolon in every statement that lacks one. -/
def ended : Node Kind → Node Kind
  | .leaf id index token => .leaf id index token
  | .rule id kind first rest =>
    .rule id kind (ended first) (addition (.rule id kind first rest) first ++ endedOf rest)

def endedOf : List (Node Kind) → List (Node Kind)
  | [] => []
  | node :: rest => ended node :: endedOf rest

end

theorem endedOf_eq_map (nodes : List (Node Kind)) : endedOf nodes = nodes.map ended := by
  induction nodes with
  | nil => rfl
  | cons node nodes ih => rw [endedOf, ih, List.map_cons]

theorem addition_of_ne {node : Node Kind} (other : node.kind ≠ .statement) (body : Node Kind) :
    addition node body = [] := if_neg fun lacks => other lacks.1

def ending : Revision where
  revise node := [ended node]
  remade kind := kind = .statement
  leaf _ _ _ := rfl
  closed id kind ys other := by
    cases ys with
    | nil => rfl
    | cons first rest =>
      have none : addition (.rule id kind first rest) first = [] :=
        addition_of_ne (by simpa [Node.kind] using other) first
      simp [closed, ended, none, endedOf_eq_map, ← List.map_eq_flatMap]
  compound kind isStatement := by
    obtain rfl : kind = .statement := by simpa using isStatement
    rfl

theorem ending_all (ys : List (Node Kind)) : ending.all ys = ys.map ended := by
  rw [Revision.all, List.map_eq_flatMap]
  rfl

theorem ended_of_plain {node : Node Kind} (plain : Plain [node]) : ended node = node :=
  List.head_eq_of_cons_eq (ending.all_plain plain)

theorem ending_choosing : Choosing fun _ => [] := by
  refine ⟨⟨?_, ?_⟩, ?_⟩ <;> decide +kernel

theorem production_calm_ending (rule : Rule) (compound : rule.isCompound = true) (other : rule ≠ .statementBody)
    (other' : rule ≠ .statement) :
    (Grammar.production rule).calm (fun _ => []) ending.remade (fun _ => false) rule.awaits = true ∧
      (Grammar.production rule).sights (fun _ => []) rule.awaits ⊆ rule.sights fun _ => [] := by
  cases rule with
  | compileUnit | block | tryCatch | ifStatement | whileStatement => exact ⟨by decide, List.Subset.refl _⟩
  | createProcedure =>
    refine ⟨by decide, ?_⟩
    exact List.append_subset.mpr ⟨List.Subset.refl _,
      List.append_subset.mpr ⟨List.Subset.refl _, List.nil_subset _⟩⟩
  | statement => exact absurd rfl other'
  | statementBody => exact absurd rfl other
  | _ => cases compound

/-! Bodies that take a semicolon. -/

namespace Rule

/-- The rules for bodies of statements that take no semicolon. -/
def runsOn : Rule → Bool
  | createProcedure | setOption | ifStatement | whileStatement | block | tryCatch | transaction
  | otherStatement => true
  | _ => false

end Rule

def terminated : Production Rule := (Grammar.production .statementBody).without Rule.runsOn

theorem terminated_quiet : terminated.quiet = true := by decide

theorem terminated_steady : terminated.steady Rule.budget (.closing [.semicolon] procedureWords)
    (Setting.closing [.semicolon] procedureWords).outlooks 0 0 = true := by decide

theorem terminated_barred : terminated.barred (fun _ => false) ⟨[.named], .free⟩ = true ∧
    terminated.barred (fun _ => false) ⟨[.other heads], .free⟩ = true := by decide

section Lacking

variable {depth : Nat} {rule : Rule} {s s' : Place} {body : Node Kind} {ys : List (Node Kind)}

theorem RuleCourse.kind_of_runsOn (runsOn : rule.runsOn = true)
    (course : RuleCourse depth rule s [body] s') : body.kind.takesTerminator = false := by
  cases depth with
  | zero => exact course.elim
  | succ depth =>
    obtain ⟨kind, p, isNode, none⟩ : ∃ kind p, Grammar.production rule = .node kind p ∧
        kind.takesTerminator = false := by
      cases rule <;> first | exact ⟨_, _, rfl, rfl⟩ | cases runsOn
    rw [RuleCourse, isNode] at course
    generalize isBody : [body] = ys at course
    match course with
    | .node id _ => rw [kind_of_mem_closed (isBody ▸ List.mem_singleton_self body), none]

theorem terminated_course (course : RuleCourse (depth + 1) .statementBody s [body] s')
    (takes : body.kind.takesTerminator = true) : Course (RuleCourse depth) terminated s [] s' [body] := by
  refine Course.without course fun name runsOn ran => ?_
  rw [ran.kind_of_runsOn runsOn] at takes
  cases takes

/-- A body that takes a semicolon begins with the first word of a statement that may be changed behind it. -/
theorem begins_of_terminated {first : Token Kind} {rest : List (Token Kind)} (isFirst : s.rest = first :: rest)
    (course : Course (RuleCourse depth) terminated s [] s' ys) : Begins first := by
  obtain ⟨named, other⟩ := terminated_barred
  have next : s.rest[0]? = some first := by rw [isFirst]; rfl
  have keyword : first.kind = .keyword := by
    refine Decidable.byContradiction fun contrary => ?_
    have shows : View.Shows ⟨[.named], .free⟩ s s :=
      View.shows_first ⟨rfl, fun token isToken => by
        obtain rfl := Option.some.inj (next.symm.trans isToken)
        exact contrary⟩
    exact absurd (named.symm.trans (course.not_barred nofun shows)) (by decide)
  refine ⟨keyword, Decidable.byContradiction fun contrary => ?_⟩
  have shows : View.Shows ⟨[.other heads], .free⟩ s s :=
    View.shows_first ⟨rfl, first, next, keyword, by simpa using contrary⟩
  exact absurd (other.symm.trans (course.not_barred nofun shows)) (by decide)

theorem body_ended (course : RuleCourse (depth + 1) .statementBody s [body] s')
    (takes : body.kind.takesTerminator = true)
    (complete : ∀ node ∈ Node.descendantsOf [body], isDangling node = false) {semicolon : Token Kind}
    (isSemicolon : semicolon.kind = .semicolon) (r' : List (Token Kind)) :
    Begins body.startToken ∧ ended body = body ∧ RuleCourse (depth + 1) .statementBody
      ⟨body.tokens ++ semicolon :: r', s.line⟩ [body] ⟨semicolon :: r', s'.line⟩ := by
  have inner := terminated_course course takes
  have tokens : s.rest = body.tokens ++ s'.rest := by
    simpa [Node.tokensOf] using course.tokens
  refine ⟨?_, ended_of_plain (inner.plain terminated_quiet), ?_⟩
  · obtain ⟨rest, isFirst⟩ := List.head?_eq_some_iff.mp body.head?_tokens
    exact begins_of_terminated (by rw [tokens, isFirst]; rfl) inner
  · have again := Course.transfer_rules (Setting.fits_closing procedureWords s'.rest r' (by simp [isSemicolon]))
      (fun name o inScope => transfers_closing (by simp [closingKinds, isSemicolon]) (fun _ _ whole => whole) depth
        (by simpa [Setting.closing] using inScope) fun _ => isSemicolon) inner
      terminated_steady (Nat.zero_le _) complete tokens (List.nil_append _).symm (Nat.zero_le _)
    exact Course.of_without again

end Lacking

/-! Statements. -/

section Statement

variable {depth : Nat} {s s' : Place} {ys : List (Node Kind)} {r' : List (Token Kind)}

theorem ended_statement (id : Nat) (first : Node Kind) (rest : List (Node Kind)) :
    ending.all (closed id .statement (first :: rest)) = closed id .statement (ended first ::
      (addition (.rule id .statement first rest) first ++ rest.map ended)) := by
  simp [ending_all, closed, ended, endedOf_eq_map]

theorem addition_eq_nil {id : Nat} {first : Node Kind} {rest : List (Node Kind)}
    (settled : first.kind.takesTerminator = false ∨ ∃ node ∈ first :: rest, node.kind = .semicolon) :
    addition (.rule id .statement first rest) first = [] := by
  refine if_neg fun lacks => ?_
  have lacks := lacks.2
  simp only [Pass.lacksTerminator, Node.firstChild?, Node.children, Bool.and_eq_true, Option.isNone_iff_eq_none,
    List.find?_eq_none] at lacks
  rcases settled with none | ⟨node, member, isSemicolon⟩
  · simp [none] at lacks
  · exact lacks.2 node member (by simp [isSemicolon])

/-- The rules read what has become of the nodes with semicolons. -/
def AllEnded (depth : Nat) : Prop :=
  ∀ name s ys s' r', RuleCourse depth name s ys s' → name.awaits ≤ s.rest.length →
    (∀ node ∈ Node.descendantsOf ys, isDangling node = false) → Diverges s'.rest r' →
    Again ending s s' ys (name.sights fun _ => []) r' fun d d' => RuleCourse depth name d (ending.all ys) d'

theorem Again.statement {calls : Rule → Place → List (Node Kind) → Place → Prop} {p : Production Rule}
    {zs : List (Node Kind)} (id : Nat)
    (settled : zs.head?.any (·.kind.takesTerminator) = false ∨ ∃ node ∈ zs, node.kind = .semicolon)
    (diverges : Diverges s.rest (Node.tokensOf (ending.all zs) ++ r'))
    (reads : Course calls p ⟨Node.tokensOf (ending.all zs) ++ r', s.line⟩ [] ⟨r', s'.line⟩ (ending.all zs)) :
    Again ending s s' (closed id .statement zs) (Rule.statement.sights fun _ => []) r' fun d d' =>
      Course calls (.node .statement p) d [] d' (ending.all (closed id .statement zs)) := by
  have same : ending.all (closed id .statement zs) = closed id .statement (ending.all zs) := by
    cases zs with
    | nil => rfl
    | cons first rest => rw [ended_statement, addition_eq_nil settled, List.nil_append, ending_all, List.map_cons]
  refine ⟨?_, ?_, ?_⟩ <;> rw [same, tokensOf_closed]
  · exact diverges
  · exact diverges.shows s.line
  · exact .node id reads

theorem Again.lacking {body : Node Kind} (course : RuleCourse depth .statementBody s [body] s')
    (takes : body.kind.takesTerminator = true)
    (complete : ∀ node ∈ Node.descendantsOf [body], isDangling node = false) (id : Nat) :
    Again ending s s' (closed id .statement [body]) (Rule.statement.sights fun _ => []) r' fun d d' =>
      RuleCourse (depth + 1) .statement d (ending.all (closed id .statement [body])) d' := by
  cases depth with
  | zero => exact course.elim
  | succ depth =>
    obtain ⟨begins, same, reads⟩ := body_ended course takes complete
      (rfl : (semicolonOn body.stop.line).kind = .semicolon) r'
    have lacks : addition (.rule id .statement body []) body = [.leaf 0 0 (semicolonOn body.stop.line)] := by
      refine if_pos ⟨rfl, ?_⟩
      have other : body.kind ≠ .semicolon := fun isSemicolon => by
        rw [isSemicolon] at takes
        cases takes
      simp [Pass.lacksTerminator, takes, Node.firstChild?, Node.children, other]
    have nodes : ending.all (closed id .statement [body]) =
        closed id .statement ([body] ++ [.leaf 0 0 (semicolonOn body.stop.line)]) := by
      rw [ended_statement, lacks, same]
      rfl
    have tokens : Node.tokensOf (ending.all (closed id .statement [body])) ++ r' =
        body.tokens ++ semicolonOn body.stop.line :: r' := by
      rw [nodes, tokensOf_closed]
      simp [Node.tokensOf, Node.tokens]
    have isTokens : s.rest = body.tokens ++ s'.rest := by
      simpa [Node.tokensOf] using course.tokens
    obtain ⟨more, isFirst⟩ := List.head?_eq_some_iff.mp body.head?_tokens
    have line : s'.line = (semicolonOn body.stop.line).stop.line := by
      rw [course.line, lineBehind, Node.tokensOf, Node.tokensOf, List.append_nil, Node.getLast?_tokens,
        line_semicolonOn]
      rfl
    have diverges : Diverges s.rest (body.tokens ++ semicolonOn body.stop.line :: r') := by
      refine .inr ⟨[], body.startToken, more ++ s'.rest, more ++ semicolonOn body.stop.line :: r', begins, ?_,
        by rw [isTokens, isFirst]; rfl, by rw [isFirst]; rfl⟩
      cases more with
      | nil => exact .inr ⟨_, rfl, by simp [semicolonOn]⟩
      | cons => exact .inl rfl
    refine ⟨?_, ?_, ?_⟩ <;> rw [tokens]
    · exact diverges
    · exact diverges.shows s.line
    · rw [nodes, line]
      rw [line] at reads
      refine .node id (.seq (.fails ?_ (.rule reads)) (.seq (.holds rfl (.take 0 0)) .done))
      rw [isFirst]
      simp [Look.sees, Look.answer, begins.1]

theorem RuleCourse.statement_parts (course : RuleCourse (depth + 1) .statement s ys s') :
    ∃ id zs bs middle, ys = closed id .statement zs ∧
      ((Look.sees .semicolon).answer s = true ∧ bs = [] ∧ middle = s ∨
        (Look.sees .semicolon).answer s = false ∧ RuleCourse depth .statementBody s bs middle) ∧
      Course (RuleCourse depth) (.branch (.sees .semicolon) .take .done) middle bs s' zs := by
  have course : Course (RuleCourse depth) (.node .statement
      (.seq (.branch (.sees .semicolon) .done (.rule .statementBody))
        (.seq (.branch (.sees .semicolon) .take .done) .done))) s [] s' ys := course
  cases course with
  | node id inner =>
  cases inner with
  | seq first rest =>
  cases rest with
  | seq taken done =>
  cases done
  cases first with
  | holds semi done =>
    cases done
    exact ⟨id, _, [], _, rfl, .inl ⟨semi, rfl, rfl⟩, taken⟩
  | fails noSemi body =>
    cases body with
    | rule body => exact ⟨id, _, _, _, rfl, .inr ⟨noSemi, body⟩, taken⟩

theorem statement_again (called : AllEnded depth) (course : RuleCourse (depth + 1) .statement s ys s')
    (complete : ∀ node ∈ Node.descendantsOf ys, isDangling node = false) (diverges : Diverges s'.rest r') :
    Again ending s s' ys (Rule.statement.sights fun _ => []) r' fun d d' =>
      RuleCourse (depth + 1) .statement d (ending.all ys) d' := by
  have keeps : views.all (Look.keeps · (.sees .semicolon)) = true := by decide
  have bodies {s s' : Place} {bs : List (Node Kind)} {r' : List (Token Kind)}
      (course : RuleCourse depth .statementBody s bs s')
      (complete : ∀ node ∈ Node.descendantsOf bs, isDangling node = false) (diverges : Diverges s'.rest r') :=
    called .statementBody s bs s' r' course (Nat.zero_le _) complete diverges
  obtain ⟨id, zs, bs, middle, rfl, ⟨semi, rfl, rfl⟩ | ⟨noSemi, body⟩, taken⟩ := course.statement_parts
  · cases taken with
    | fails noSemi done =>
      rw [semi] at noSemi
      cases noSemi
    | holds _ taken =>
      cases taken with
      | stay => cases semi
      | @take token rest line _ leaf index =>
        have isSemicolon : token.kind = .semicolon := by simpa [Look.sees, Look.answer] using semi
        have tokens : Node.tokensOf (ending.all [.leaf leaf index token]) ++ r' = token :: r' := by
          rw [ending.all_leaf]
          rfl
        refine Again.statement id (.inr ⟨.leaf leaf index token, List.mem_singleton_self _, isSemicolon⟩) ?_ ?_
        · exact tokens ▸ diverges.append [token]
        · change Course _ _ ⟨Node.tokensOf (ending.all [.leaf leaf index token]) ++ r', _⟩ _ _ _
          rw [tokens, ending.all_append, ending.all_leaf]
          exact .seq (.holds semi .done) (.seq (.holds semi (.take leaf index)) .done)
  · cases taken with
    | holds semi taken =>
      cases taken with
      | stay => cases semi
      | @take token rest line _ leaf index =>
        have isSemicolon : token.kind = .semicolon := by simpa [Look.sees, Look.answer] using semi
        have inside : Node.descendantsOf bs ⊆ Node.descendantsOf (closed id .statement (bs ++ [.leaf leaf index token])) := by
          refine List.Subset.trans ?_ (descendantsOf_closed ..)
          rw [Node.descendantsOf_append]
          exact List.subset_append_left ..
        have inner := bodies body (fun node member => complete node (inside member)) (diverges.append [token])
        have same := Look.answer_views keeps (inner.diverges.shows s.line)
        have tokens : Node.tokensOf (ending.all (bs ++ [.leaf leaf index token])) ++ r' =
            Node.tokensOf (ending.all bs) ++ token :: r' := by
          simp [Node.tokensOf_append, Node.tokensOf, Node.tokens]
        refine Again.statement id (.inr ⟨.leaf leaf index token,
          List.mem_append_right _ (List.mem_singleton_self _), isSemicolon⟩) ?_ ?_
        · exact tokens ▸ inner.diverges
        · rw [tokens, ending.all_append, ending.all_leaf]
          exact .seq (.fails (same.trans noSemi) (.rule inner.reads)) (.seq (.holds semi (.take leaf index)) .done)
    | fails noSemi' done =>
      cases done
      have complete' (node : Node Kind) (member : node ∈ Node.descendantsOf zs) : isDangling node = false :=
        complete node (descendantsOf_closed id .statement zs member)
      cases lacks : zs.head?.any (·.kind.takesTerminator) with
      | false =>
        have inner := bodies body complete' diverges
        have same := Look.answer_views keeps (inner.diverges.shows s.line)
        have same' := Look.answer_views keeps (diverges.shows s'.line)
        exact Again.statement id (.inl lacks) inner.diverges
          (.seq (.fails (same.trans noSemi) (.rule inner.reads)) (.seq (.fails (same'.trans noSemi') .done) .done))
      | true =>
        cases zs with
        | nil => cases lacks
        | cons first rest =>
          obtain rfl : rest = [] := List.eq_nil_of_length_eq_zero (Nat.le_zero.mp (Nat.le_of_succ_le_succ (body_single body)))
          exact Again.lacking body lacks complete' id

/-- Every rule reads the tree with semicolons from the text with semicolons. -/
theorem all_ended (depth : Nat) : AllEnded depth := by
  induction depth with
  | zero => exact fun _ _ _ _ _ course => course.elim
  | succ depth ih =>
    intro name s ys s' r' course enough complete diverges
    cases compound : name.isCompound with
    | false => exact plain_again compound course enough diverges
    | true =>
      by_cases isBody : name = .statementBody
      · subst isBody
        exact body_again ending_choosing (fun name s ys s' r' course _ => ih name s ys s' r' course) course complete diverges
      by_cases isStatement : name = .statement
      · subst isStatement
        exact statement_again ih course complete diverges
      · obtain ⟨calm, seen⟩ := production_calm_ending name compound isBody isStatement
        obtain ⟨_, rfl, again⟩ := Course.again (fun _ remade => remade)
          (fun name s ys s' r' _ => ih name s ys s' r')
          course calm enough complete
        exact (again r' diverges).weaken seen

end Statement

/-! Below a body that takes a semicolon there are no statements. -/

/-- The node is no statement, or there are no others below its body where this takes a semicolon. -/
def Orderly (node : Node Kind) : Prop :=
  node.kind = .statement → ∀ body ∈ node.child? 0, body.kind.takesTerminator = true → Plain [body]

theorem production_orderly (rule : Rule) (other : rule ≠ .statement) :
    (Grammar.production rule).within (· ≠ .statement) (fun _ => true) = true := by
  revert other
  cases rule <;> decide

section Orderly

variable {depth : Nat} {rule : Rule} {s s' : Place} {ys : List (Node Kind)}

theorem orderly_leaf (id index : Nat) (token : Token Kind) : Orderly (.leaf id index token) := by
  rintro - body isBody
  cases isBody

theorem RuleCourse.plain_body (course : RuleCourse depth .statementBody s ys s') {body : Node Kind}
    (isBody : ys.head? = some body) (takes : body.kind.takesTerminator = true) : Plain [body] := by
  obtain ⟨rest, rfl⟩ := List.head?_eq_some_iff.mp isBody
  obtain rfl : rest = [] :=
    List.eq_nil_of_length_eq_zero (Nat.le_zero.mp (Nat.le_of_succ_le_succ (body_single course)))
  cases depth with
  | zero => exact course.elim
  | succ depth => exact (terminated_course course takes).plain terminated_quiet

theorem Course.plain_head {calls : Rule → Place → List (Node Kind) → Place → Prop} {zs : List (Node Kind)} {test : Look}
    (taken : Course calls (.branch test .take .done) s ys s' zs)
    (bodies : ∀ body ∈ ys.head?, body.kind.takesTerminator = true → Plain [body]) :
    ∀ body ∈ zs.head?, body.kind.takesTerminator = true → Plain [body] := by
  cases taken with
  | holds _ taken =>
    cases taken with
    | stay => exact bodies
    | take id index =>
      cases ys with
      | cons => exact bodies
      | nil =>
        rintro body isBody -
        obtain rfl := Option.some.inj isBody
        exact plain_leaf id index _
  | fails _ done =>
    cases done
    exact bodies

theorem RuleCourse.orderly (course : RuleCourse depth rule s ys s') : ∀ node ∈ Node.descendantsOf ys, Orderly node := by
  induction depth generalizing rule s ys s' with
  | zero => exact course.elim
  | succ depth ih =>
    have inside {p : Production Rule} {s s' : Place} {xs ys : List (Node Kind)}
        (course : Course (RuleCourse depth) p s xs s' ys) (within : p.within (· ≠ .statement) (fun _ => true) = true)
        (before : ∀ node ∈ Node.descendantsOf xs, Orderly node) : ∀ node ∈ Node.descendantsOf ys, Orderly node :=
      Course.everywhere orderly_leaf (fun _ _ _ _ other isStatement => absurd isStatement (of_decide_eq_true other))
        (fun _ _ _ _ _ course => ih course) course within before
    by_cases other : rule = .statement
    · subst other
      obtain ⟨id, zs, bs, middle, rfl, first, taken⟩ := course.statement_parts
      have bodies : (∀ node ∈ Node.descendantsOf bs, Orderly node) ∧
          ∀ body ∈ bs.head?, body.kind.takesTerminator = true → Plain [body] := by
        rcases first with ⟨-, rfl, -⟩ | ⟨-, ran⟩
        · refine ⟨List.forall_mem_nil _, ?_⟩
          rintro body isBody
          cases isBody
        · exact ⟨ih ran, fun _ => ran.plain_body⟩
      have below := inside taken (by decide) bodies.1
      have plain := taken.plain_head bodies.2
      cases zs with
      | nil => exact below
      | cons first rest =>
        simp only [closed, Node.descendantsOf, Node.descendants, List.append_nil] at below ⊢
        exact List.forall_mem_cons.mpr ⟨fun _ => plain, below⟩
    · exact inside course (production_orderly rule other) (List.forall_mem_nil _)

end Orderly

/-! Texts. -/

/-- The second row of tokens is the first one with semicolons put in. -/
inductive Punctuated : List (Kind × String) → List (Kind × String) → Prop
  | nil : Punctuated [] []
  | keep {xs ys : List (Kind × String)} (face : Kind × String) : Punctuated xs ys → Punctuated (face :: xs) (face :: ys)
  | mark {xs ys : List (Kind × String)} : Punctuated xs ys → Punctuated xs ((.semicolon, ";") :: ys)

section Punctuated

variable {xs ys xs' ys' : List (Kind × String)}

theorem Punctuated.refl (xs : List (Kind × String)) : Punctuated xs xs := by
  induction xs with
  | nil => exact .nil
  | cons face xs ih => exact .keep face ih

theorem Punctuated.append (first : Punctuated xs ys) (second : Punctuated xs' ys') :
    Punctuated (xs ++ xs') (ys ++ ys') := by
  induction first with
  | nil => exact second
  | keep face _ ih => exact .keep face ih
  | mark _ ih => exact .mark ih

theorem Punctuated.length_le (punctuated : Punctuated xs ys) : xs.length ≤ ys.length := by
  induction punctuated with
  | nil => exact Nat.le_refl 0
  | keep _ _ ih => exact Nat.succ_le_succ ih
  | mark _ ih => exact Nat.le_succ_of_le ih

theorem punctuated_addition (node body : Node Kind) :
    Punctuated [] ((Node.tokensOf (addition node body)).map face) := by
  rw [addition]
  split
  · exact .mark .nil
  · exact .nil

theorem punctuated_ended (node : Node Kind) : Punctuated (node.tokens.map face) ((ended node).tokens.map face) := by
  induction node using Node.induction with
  | step node ih =>
    cases node with
    | leaf id index token => exact .refl _
    | rule id kind first rest =>
      obtain ⟨inFirst, inRest⟩ := List.forall_mem_cons.mp ih
      have below {nodes : List (Node Kind)} (among : nodes ⊆ rest) :
          Punctuated ((Node.tokensOf nodes).map face) ((Node.tokensOf (nodes.map ended)).map face) := by
        induction nodes with
        | nil => exact .nil
        | cons node nodes inner =>
          obtain ⟨isFirst, others⟩ := List.cons_subset.mp among
          simpa [Node.tokensOf] using (inRest node isFirst).append (inner others)
      have whole := inFirst.append ((punctuated_addition (.rule id kind first rest) first).append
        (below (List.Subset.refl _)))
      simpa [ended, endedOf_eq_map, Node.tokens, Node.tokensOf, Node.tokensOf_append] using whole

end Punctuated

theorem parse_orderly {source : String} {tree : Tree Kind} (parsed : parse source = .ok tree) :
    ∀ node ∈ tree.descendants, Orderly node := by
  cases isRoot : tree.root with
  | none => simp [Tree.descendants, isRoot]
  | some root =>
    obtain ⟨depth, c, c', reads⟩ := parse_derives parsed isRoot
    rw [Tree.descendants, isRoot]
    simpa [Node.descendantsOf] using reads.course.orderly

/-- A text with the tokens of the tree with semicolons has this tree. -/
theorem parse_ended {source new : String} {tree : Tree Kind} {root : Node Kind} (parsed : parse source = .ok tree)
    (isRoot : tree.root = some root) (complete : ∀ node ∈ tree.descendants, isDangling node = false)
    {tokens : List (Token Kind)} (lexed : lex new = .ok tokens)
    (same : tokens.map Token.atMargin = (ended root).tokens.map Token.atMargin) :
    ∃ tree' root', parse new = .ok tree' ∧ tree'.root = some root' ∧ root'.shape = (ended root).shape := by
  obtain ⟨s', course, atEnd⟩ := exists_course parsed isRoot
  have complete : ∀ node ∈ Node.descendantsOf [root], isDangling node = false := by
    rw [Tree.descendants, isRoot] at complete
    simpa [Node.descendantsOf] using complete
  have reads := (all_ended (depthFor root.tokens) .compileUnit ⟨root.tokens, 1⟩ [root] s' [] course (Nat.zero_le _) complete
    (.inl atEnd)).reads
  simp only [ending_all, List.map_cons, List.map_nil, Node.tokensOf, List.append_nil] at reads
  refine parse_of_course reads lexed same.symm ?_
  have length : tokens.length = (ended root).tokens.length := by simpa using congrArg List.length same
  have grows := (punctuated_ended root).length_le
  simp only [List.length_map] at grows
  rw [depthFor, depthFor, length]
  omega

end SqlFerry.Tsql
