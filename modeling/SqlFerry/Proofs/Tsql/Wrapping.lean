import SqlFerry.Proofs.Tsql.Enclosure

/-! Conditions and parameters in parentheses. Where the conditions of statements and the parameters of
procedures lack their parentheses, the tree of the text that has them is the tree of the text with
parentheses put in. -/
namespace SqlFerry.Tsql

def openParen (line : Nat) : Token Kind := ⟨.leftParen, "(", line, 0⟩

def closeParen (line : Nat) : Token Kind := ⟨.rightParen, ")", line, 0⟩

theorem line_openParen (line : Nat) : (openParen line).stop.line = line := by
  simp [openParen, Token.stop, Token.start, Position.step]

theorem line_closeParen (line : Nat) : (closeParen line).stop.line = line := by
  simp [closeParen, Token.stop, Token.start, Position.step]

def wrappedCondition (condition : Node Kind) : Node Kind :=
  if condition.kind = .parenExpression then condition
  else enclosed (openParen condition.start.line) (closeParen condition.stop.line) condition

def noParameters (line : Nat) : Node Kind :=
  .rule 0 .procedureParameters (.leaf 0 0 (openParen line)) [.leaf 0 0 (closeParen line)]

def wrappedParameters (name parameters : Node Kind) : Node Kind :=
  if parameters.startToken.kind = .leftParen then parameters
  else .rule 0 .procedureParameters (.leaf 0 0 (openParen name.stop.line))
    (parameters.children ++ [.leaf 0 0 (closeParen parameters.stop.line)])

/-- What follows the name of a procedure, with the parameters in parentheses. -/
def wrappedBehind (name : Node Kind) : List (Node Kind) → List (Node Kind)
  | [] => [noParameters name.stop.line]
  | parameters :: rest =>
    if parameters.kind = .procedureParameters then wrappedParameters name parameters :: rest
    else noParameters name.stop.line :: parameters :: rest

def wrappedHeader : List (Node Kind) → List (Node Kind)
  | [] => []
  | node :: rest => if node.kind = .qualifiedName then node :: wrappedBehind node rest else node :: wrappedHeader rest

/-- The children of a node behind the first one, with parentheses. -/
def rewrapped : Kind → List (Node Kind) → List (Node Kind)
  | .ifStatement, condition :: rest | .whileStatement, condition :: rest => wrappedCondition condition :: rest
  | .createProcedure, rest => wrappedHeader rest
  | _, rest => rest

mutual

/-- The tree with parentheses around conditions and parameters. -/
def wrapped : Node Kind → Node Kind
  | .leaf id index token => .leaf id index token
  | .rule id kind first rest => .rule id kind (wrapped first) (rewrapped kind (wrappedOf rest))

def wrappedOf : List (Node Kind) → List (Node Kind)
  | [] => []
  | node :: rest => wrapped node :: wrappedOf rest

end

theorem wrappedOf_eq_map (nodes : List (Node Kind)) : wrappedOf nodes = nodes.map wrapped := by
  induction nodes with
  | nil => rfl
  | cons node nodes ih => rw [wrappedOf, ih, List.map_cons]

def wrapping : Revision where
  revise node := [wrapped node]
  remade kind := kind = .createProcedure || kind = .ifStatement || kind = .whileStatement
  leaf _ _ _ := rfl
  closed id kind ys other := by
    cases ys with
    | nil => rfl
    | cons first rest =>
      have same : rewrapped kind (rest.map wrapped) = rest.map wrapped := by
        unfold rewrapped
        split <;> simp_all
      simp [closed, wrapped, same, wrappedOf_eq_map, ← List.map_eq_flatMap]
  compound kind := by cases kind <;> decide

theorem wrapping_all (ys : List (Node Kind)) : wrapping.all ys = ys.map wrapped := by
  rw [Revision.all, List.map_eq_flatMap]
  rfl

/-- What is seen where a statement itself gets parentheses. -/
def wrappingViews : Rule → List View
  | .ifStatement => [⟨[.opener ["IF"]], .free⟩]
  | .whileStatement => [⟨[.opener ["WHILE"]], .free⟩]
  | .createProcedure => [⟨[.opener procedureWords], .free⟩]
  | _ => []

theorem wrapping_choosing : Choosing wrappingViews := by
  refine ⟨⟨?_, ?_⟩, ?_⟩ <;> decide +kernel

theorem production_calm_wrapping (rule : Rule) (compound : rule.isCompound = true)
    (other : rule ≠ .statementBody) (other' : rule.isOpened = false) :
    (Grammar.production rule).calm wrappingViews wrapping.remade Rule.isOpened rule.awaits = true ∧
      (Grammar.production rule).sights wrappingViews rule.awaits ⊆ rule.sights wrappingViews := by
  cases rule with
  | compileUnit | block | tryCatch => exact ⟨by decide, List.Subset.refl _⟩
  | statement => exact ⟨by decide, List.append_subset.mpr ⟨List.Subset.refl _, List.Subset.refl _⟩⟩
  | statementBody => exact absurd rfl other
  | createProcedure | ifStatement | whileStatement => cases other'
  | _ => cases compound

/-- The node is understood, and no name reads as the keyword of a query. -/
structure Wrappable (node : Node Kind) : Prop where
  understood : node.kind ≠ .otherStatement
  noQuery : node.kind = .identifier → node.isWord "SELECT" = false

theorem Node.exists_leaf {ys : List (Node Kind)} {token : Token Kind} (member : token ∈ Node.tokensOf ys) :
    ∃ id index, Node.leaf id index token ∈ Node.descendantsOf ys := by
  rw [← Node.map_fst_leavesOf, List.mem_map] at member
  obtain ⟨⟨_, index⟩, member, rfl⟩ := member
  obtain ⟨node, isBelow, isEntry⟩ := List.mem_filterMap.mp member
  cases node with
  | leaf id index' token =>
    cases isEntry
    exact ⟨id, index, isBelow⟩
  | rule => cases isEntry

theorem RuleCourse.no_select {depth : Nat} {s s' : Place} {ys : List (Node Kind)}
    (course : RuleCourse depth .expression s ys s')
    (wrappable : ∀ node ∈ Node.descendantsOf ys, Wrappable node) : (Look.on "SELECT").answer s = false := by
  refine Bool.eq_false_iff.mpr fun select => ?_
  obtain ⟨value, rfl⟩ := course.expression_single
  have tokens := course.tokens
  cases isTokens : Node.tokensOf [value] with
  | nil =>
    have some := value.head?_tokens
    simp_all [Node.tokensOf]
  | cons first more =>
    have next : s.rest[0]? = some first := by rw [tokens, isTokens]; rfl
    simp only [Look.on, Look.answer, next, Option.any_some, Bool.and_eq_true] at select
    obtain ⟨isWord, reads⟩ := select
    cases isKind : first.kind with
    | keyword =>
      have shows : View.Shows ⟨[.opener ["SELECT"]], .free⟩ s s :=
        View.shows_first ⟨rfl, first, next, isKind, "SELECT", by simp, reads⟩
      exact course.not_select rfl shows
    | identifier =>
      have member : first ∈ Node.tokensOf [value] := by rw [isTokens]; exact List.mem_cons_self
      obtain ⟨id, index, isBelow⟩ := Node.exists_leaf member
      have none := (wrappable _ isBelow).noQuery isKind
      simp [Node.isWord, Node.token?, reads] at none
    | _ => simp [isKind, Kind.isWord] at isWord

/-- The rules read what has become of the nodes with parentheses, one inside the other a few more than before. -/
def AllWrapped (depth : Nat) : Prop :=
  ∀ name s ys s' r', RuleCourse depth name s ys s' → Opened name s → name.awaits ≤ s.rest.length →
    (∀ node ∈ Node.descendantsOf ys, Wrappable node) → Diverges s'.rest r' →
    Again wrapping s s' ys (name.sights wrappingViews) r' fun d d' =>
      RuleCourse (depth + 8) name d (wrapping.all ys) d'

section Conditional

variable {depth : Nat} {s s' : Place} {ys : List (Node Kind)} {r' : List (Token Kind)}

theorem AllWrapped.rest (called : AllWrapped depth) {p : Production Rule}
    (calm : p.calm wrappingViews wrapping.remade Rule.isOpened 0 = true)
    (course : Course (RuleCourse depth) p s [] s' ys)
    (wrappable : ∀ node ∈ Node.descendantsOf ys, Wrappable node) (diverges : Diverges s'.rest r') :
    Again wrapping s s' ys (p.sights wrappingViews 0) r' fun d d' =>
      Course (RuleCourse (depth + 8)) p d [] d' (wrapping.all ys) := by
  obtain ⟨zs, rfl, again⟩ := Course.again (fun _ remade => remade)
    (fun name s ys s' r' other course => called name s ys s' r' course (opened_of_not other s))
    course calm (Nat.zero_le _) wrappable
  exact again r' diverges

theorem Diverges.head?_eq {r r' : List (Token Kind)} (diverges : Diverges r r') : r.head? = r'.head? := by
  rcases diverges with rfl | ⟨before, first, rest, rest', -, -, rfl, rfl⟩
  · rfl
  · cases before <;> rfl

theorem Node.exists_cons_tokens (node : Node Kind) : ∃ first rest, node.tokens = first :: rest := by
  have some := node.head?_tokens
  cases isTokens : node.tokens with
  | nil => rw [isTokens] at some; cases some
  | cons first rest => exact ⟨first, rest, rfl⟩

theorem lineBehind_node (line : Nat) (node : Node Kind) : lineBehind line node.tokens = node.stop.line := by
  rw [lineBehind, node.getLast?_tokens]
  rfl

/-- A condition is read with its parentheses. -/
theorem condition_again {value : Node Kind} {r' : List (Token Kind)}
    (course : RuleCourse depth .expression s [value] s')
    (wrappable : ∀ node ∈ Node.descendantsOf [value], Wrappable node) (diverges : Diverges s'.rest r')
    {next : Token Kind} (isNext : s'.rest.head? = some next) (starter : IsStarter next)
    {first : Token Kind} (begins : Begins first) :
    RuleCourse (depth + 8) .expression ⟨(wrappedCondition value).tokens ++ r', s.line⟩
        [wrappedCondition value] ⟨r', s'.line⟩ ∧
      Diverges (first :: s.rest) (first :: ((wrappedCondition value).tokens ++ r')) := by
  have tokens : s.rest = value.tokens ++ s'.rest := by simpa [Node.tokensOf] using course.tokens
  have line : s'.line = value.stop.line := by
    rw [course.line, Node.tokensOf, Node.tokensOf, List.append_nil, lineBehind_node]
  unfold wrappedCondition
  split
  · have again := @transfers_later (fun _ => True) _ _ diverges depth .expression rfl s [value] s'
      value.tokens [] course (Nat.zero_le _) (fun _ _ => trivial) tokens rfl (Nat.zero_le _)
    refine ⟨again.mono (Nat.le_add_right ..), ?_⟩
    rw [tokens]
    exact diverges.append (first :: value.tokens)
  · obtain ⟨rest, isRest⟩ := List.head?_eq_some_iff.mp (diverges.head?_eq.symm.trans isNext)
    have ends (line : Nat) : afterDisjunction.answer ⟨r', line⟩ = false := by
      rw [isRest]
      exact starter.ends_expression rest line
    have more : s'.rest ≠ [] := by rintro none; rw [none] at isNext; cases isNext
    have enclosed := @RuleCourse.enclosed depth s.line s'.line value.tokens s'.rest r' value
      (openParen value.start.line) (closeParen value.stop.line) (by rw [← tokens]; exact course) more
      (by rw [← tokens]; exact course.no_select wrappable) rfl rfl ends s.line
    rw [line_closeParen] at enclosed
    rw [line]
    constructor
    · simpa [Tsql.enclosed, Node.tokens, Node.tokensOf] using enclosed
    · exact .inr ⟨[], first, s.rest, _, begins, .inr ⟨openParen value.start.line, rfl, by simp [openParen]⟩, rfl, rfl⟩

theorem wrapping_conditional {kind : Kind} (isKind : kind = .ifStatement ∨ kind = .whileStatement)
    (id : Nat) (word condition : Node Kind) (rest : List (Node Kind)) :
    wrapping.all (closed id kind (word :: condition :: rest)) =
      closed id kind (wrapped word :: wrappedCondition (wrapped condition) :: wrapping.all rest) := by
  rcases isKind with rfl | rfl <;> simp [wrapping_all, closed, wrapped, rewrapped, wrappedOf_eq_map]

theorem conditional_again (called : AllWrapped depth) {kind : Kind} {more : Production Rule}
    (isKind : kind = .ifStatement ∨ kind = .whileStatement)
    (calm : (Production.seq (.rule .statement) more).calm wrappingViews wrapping.remade Rule.isOpened 0 = true)
    (contained : more.contained = true) {first : Token Kind} (next : s.rest.head? = some first)
    (begins : Begins first)
    (course : Course (RuleCourse depth)
      (.node kind (.seq .take (.seq (.rule .expression) (.seq (.rule .statement) more)))) s [] s' ys)
    (wrappable : ∀ node ∈ Node.descendantsOf ys, Wrappable node) (diverges : Diverges s'.rest r') :
    Diverges s.rest (Node.tokensOf (wrapping.all ys) ++ r') ∧
      (∃ rest rest', s.rest = first :: rest ∧ Node.tokensOf (wrapping.all ys) ++ r' = first :: rest') ∧
      Course (RuleCourse (depth + 8))
        (.node kind (.seq .take (.seq (.rule .expression) (.seq (.rule .statement) more))))
        ⟨Node.tokensOf (wrapping.all ys) ++ r', s.line⟩ [] ⟨r', s'.line⟩ (wrapping.all ys) := by
  match course with
  | .node id (.seq taken (.seq (.rule condition) statements)) =>
    cases taken with
    | stay => cases next
    | @take token rest line _ leaf index =>
      cases next
      obtain ⟨value, rfl⟩ := condition.expression_single
      obtain ⟨zs, rfl, rebased⟩ := statements.rebase contained
      simp only [List.nil_append] at wrappable ⊢
      have wrappableValue (node : Node Kind) (member : node ∈ Node.descendantsOf [value]) : Wrappable node := by
        refine wrappable node (descendantsOf_closed id kind _ ?_)
        rw [Node.descendantsOf_append, Node.descendantsOf_append]
        exact List.mem_append_left _ (List.mem_append_right _ member)
      have wrappableRest (node : Node Kind) (member : node ∈ Node.descendantsOf zs) : Wrappable node := by
        refine wrappable node (descendantsOf_closed id kind _ ?_)
        rw [Node.descendantsOf_append]
        exact List.mem_append_right _ member
      have behind := called.rest calm (rebased []) wrappableRest diverges
      obtain ⟨next, isNext, starter⟩ : ∃ next, _ ∧ IsStarter next := by
        match rebased [] with
        | .seq (.rule statement) others =>
          exact statement.starter fun node member => (wrappableRest node (others.descendants member)).understood
      obtain ⟨read, changed⟩ := condition_again condition wrappableValue behind.diverges isNext starter begins
      have same : wrapped value = value := by
        have same : wrapping.all [value] = [value] := wrapping.all_plain (condition.plain rfl)
        rw [wrapping_all] at same
        exact List.head_eq_of_cons_eq same
      have nodes : wrapping.all (closed id kind ([.leaf leaf index first] ++ [value] ++ zs)) =
          closed id kind ([.leaf leaf index first] ++ [wrappedCondition value] ++ wrapping.all zs) := by
        have all := wrapping_conditional isKind id (.leaf leaf index first) value zs
        rw [same] at all
        exact all
      have tokens : Node.tokensOf (wrapping.all (closed id kind ([.leaf leaf index first] ++ [value] ++ zs))) ++ r' =
          first :: ((wrappedCondition value).tokens ++ (Node.tokensOf (wrapping.all zs) ++ r')) := by
        rw [nodes, tokensOf_closed]
        simp [Node.tokensOf, Node.tokens]
      obtain ⟨ws, isWs, reads⟩ := behind.reads.rebase contained
      refine ⟨?_, ⟨_, _, rfl, tokens⟩, ?_⟩
      · rw [tokens]
        exact changed
      · rw [tokens, nodes]
        rw [List.nil_append] at isWs
        have inner : Course (RuleCourse (depth + 8)) (.seq (.rule .expression) (.seq (.rule .statement) more))
            ⟨(wrappedCondition value).tokens ++ (Node.tokensOf (wrapping.all zs) ++ r'), first.stop.line⟩
            [.leaf leaf index first] ⟨r', s'.line⟩
            ([.leaf leaf index first] ++ [wrappedCondition value] ++ wrapping.all zs) := by
          refine .seq (.rule read) ?_
          rw [isWs]
          exact reads _
        exact .node id (.seq (.take leaf index) inner)

end Conditional

end SqlFerry.Tsql
