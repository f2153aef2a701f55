import SqlFerry.Proofs.Tsql.Columns
import SqlFerry.Proofs.Tsql.Regular
import SqlFerry.Proofs.Tsql.Spacing

/-! The text with parentheses has the tree with parentheses. A text is read along the course of the tree, as
deep as its tokens allow; where parentheses come in, more tokens allow for more depth. -/
namespace SqlFerry

theorem Node.shape_atMargin {κ : Type} (node : Node κ) : node.atMargin.shape = node.shape := by
  induction node using Node.induction with
  | step node ih =>
    cases node with
    | leaf id index token => rfl
    | rule id kind first rest =>
      have below : (rest.map atMargin).map shape = rest.map shape := by
        rw [List.map_map]
        exact List.map_congr_left fun child isChild => ih child (List.mem_cons_of_mem _ isChild)
      rw [atMargin, shape_rule, shape_rule, atMarginAll_eq_map, List.map_cons, List.map_cons, below,
        ih first List.mem_cons_self]

namespace Tsql

/-- A text is read along a course over its tokens, wherever these stand on their lines. -/
theorem parse_of_course {depth : Nat} {source : String} {tokens tokens' : List (Token Kind)} {node : Node Kind}
    {s' : Place} (course : RuleCourse depth .compileUnit ⟨tokens, 1⟩ [node] s') (lexed : lex source = .ok tokens')
    (same : tokens.map Token.atMargin = tokens'.map Token.atMargin) (deep : depth ≤ depthFor tokens') :
    ∃ tree root, parse source = .ok tree ∧ tree.root = some root ∧ root.shape = node.shape := by
  let start (tokens : List (Token Kind)) : Cursor := { rest := tokens, builder := .ofText source }
  have holds : (start tokens).Holds ⟨tokens, 1⟩ [] [] := ⟨rfl, rfl, rfl⟩
  obtain ⟨stop, ran, holds⟩ := (course.mono deep).exec holds
  have ends := readRule_alike (depthFor tokens') .compileUnit (c := start tokens) (d := start tokens') ⟨same, rfl, rfl⟩
  rw [ran] at ends
  cases ran' : readRule (depthFor tokens') .compileUnit (start tokens') with
  | error e =>
    rw [ran'] at ends
    exact ends.elim
  | ok stop' =>
    rw [ran'] at ends
    have parsed : parse source = .ok stop'.builder.finish := by
      rw [parse, lexed]
      change (readRule (depthFor tokens') .compileUnit (start tokens') >>= _) = _
      rw [ran']
      rfl
    obtain ⟨root, isRoot, shape⟩ := Builder.root_finish holds.around holds.shapes
    have finished : stop.builder.finish.atMargin = stop'.builder.finish.atMargin := by
      rw [Builder.atMargin_finish, Builder.atMargin_finish, ends.builder]
    have roots := congrArg Tree.root finished
    simp only [Tree.atMargin, isRoot, Option.map_some] at roots
    cases isRoot' : stop'.builder.finish.root with
    | none => rw [isRoot'] at roots; cases roots
    | some root' =>
      rw [isRoot', Option.map_some] at roots
      refine ⟨_, root', parsed, isRoot', ?_⟩
      rw [← root'.shape_atMargin, ← Option.some.inj roots, root.shape_atMargin, shape]

theorem exists_course {source : String} {tree : Tree Kind} {root : Node Kind} (parsed : parse source = .ok tree)
    (isRoot : tree.root = some root) :
    ∃ s', RuleCourse (depthFor root.tokens) .compileUnit ⟨root.tokens, 1⟩ [root] s' ∧ s'.rest = [] := by
  obtain ⟨tokens, c', -, atEnd, reads⟩ := parse_reads parsed isRoot
  have course : RuleCourse (depthFor tokens) .compileUnit ⟨tokens, 1⟩ [root] c'.place := reads.course
  have atEnd : c'.place.rest = [] := atEnd
  obtain rfl : tokens = root.tokens := by
    have whole := course.tokens
    rw [atEnd] at whole
    simpa [Node.tokensOf] using whole
  exact ⟨c'.place, course, atEnd⟩

/-- The nodes are the same, or others with more tokens. -/
def Grows (xs ys : List (Node Kind)) : Prop :=
  ys = xs ∨ (Node.tokensOf xs).length < (Node.tokensOf ys).length

section Grows

variable {xs ys zs : List (Node Kind)}

theorem Grows.trans (first : Grows xs ys) (second : Grows ys zs) : Grows xs zs := by
  rcases first with rfl | more
  · exact second
  · rcases second with rfl | still
    · exact .inr more
    · exact .inr (by omega)

theorem Grows.append {xs' ys' : List (Node Kind)} (first : Grows xs ys) (second : Grows xs' ys') :
    Grows (xs ++ xs') (ys ++ ys') := by
  simp only [Grows, Node.tokensOf_append, List.length_append] at first second ⊢
  rcases first with rfl | more
  · exact second.imp (congrArg (ys ++ ·)) (by omega)
  · refine .inr ?_
    rcases second with rfl | still <;> omega

theorem Grows.cons {node node' : Node Kind} (first : Grows [node] [node']) (second : Grows xs ys) :
    Grows (node :: xs) (node' :: ys) := first.append second

theorem grows_wrappedCondition (condition : Node Kind) : Grows [condition] [wrappedCondition condition] := by
  rw [wrappedCondition]
  split
  · exact .inl rfl
  · refine .inr ?_
    simp only [enclosed, Node.tokensOf, Node.tokens, List.length_append, List.length_singleton]
    omega

theorem grows_wrappedBehind (name : Node Kind) (rest : List (Node Kind)) : Grows rest (wrappedBehind name rest) := by
  have none (rest : List (Node Kind)) : Grows rest (noParameters name.stop.line :: rest) :=
    .inr (by simp only [noParameters, Node.tokensOf, Node.tokens, List.length_append, List.length_singleton]; omega)
  cases rest with
  | nil => exact none []
  | cons parameters rest =>
    rw [wrappedBehind]
    split
    · refine Grows.cons ?_ (.inl rfl)
      rw [wrappedParameters]
      split
      · exact .inl rfl
      · refine .inr ?_
        cases parameters <;> simp only [Node.tokensOf, Node.tokens, Node.tokensOf_append, Node.children,
          List.length_append, List.length_singleton, List.length_nil] <;> omega
    · exact none _

theorem grows_wrappedHeader (rest : List (Node Kind)) : Grows rest (wrappedHeader rest) := by
  induction rest with
  | nil => exact .inl rfl
  | cons node rest ih =>
    rw [wrappedHeader]
    split
    · exact Grows.cons (.inl rfl) (grows_wrappedBehind node rest)
    · exact Grows.cons (.inl rfl) ih

theorem grows_rewrapped (kind : Kind) (rest : List (Node Kind)) : Grows rest (rewrapped kind rest) := by
  unfold rewrapped
  split
  · exact Grows.cons (grows_wrappedCondition _) (.inl rfl)
  · exact Grows.cons (grows_wrappedCondition _) (.inl rfl)
  · exact grows_wrappedHeader _
  · exact .inl rfl

theorem grows_wrapped (node : Node Kind) : Grows [node] [wrapped node] := by
  induction node using Node.induction with
  | step node ih =>
    cases node with
    | leaf id index token => exact .inl rfl
    | rule id kind first rest =>
      have below : Grows rest (wrappedOf rest) := by
        have inRest : ∀ child ∈ rest, Grows [child] [wrapped child] :=
          fun child isChild => ih child (List.mem_cons_of_mem _ isChild)
        clear ih
        induction rest with
        | nil => exact .inl rfl
        | cons child rest ih =>
          obtain ⟨first, others⟩ := List.forall_mem_cons.mp inRest
          exact Grows.cons first (ih others)
      have children := Grows.cons (ih first List.mem_cons_self) (below.trans (grows_rewrapped kind _))
      rcases children with same | more
      · obtain ⟨sameFirst, sameRest⟩ := List.cons.inj same
        exact .inl (by rw [wrapped, sameFirst, sameRest])
      · exact .inr (by simpa [wrapped, Node.tokensOf, Node.tokens] using more)

end Grows

theorem wrappable_of_parse {source : String} {tree : Tree Kind} (parsed : parse source = .ok tree)
    (understood : ∀ node ∈ tree.descendants, node.kind ≠ .otherStatement) :
    ∀ node ∈ tree.descendants, Wrappable node := by
  intro node member
  refine ⟨understood node member, fun isName => ?_⟩
  cases node with
  | rule => rfl
  | leaf id index token =>
    obtain ⟨lexed, -, root⟩ := parse_tree parsed
    have isToken : token ∈ tree.tokens := by
      cases isRoot : tree.root with
      | none => simp [Tree.descendants, isRoot] at member
      | some top =>
        rw [isRoot] at root
        rw [Tree.descendants, isRoot] at member
        have among := Node.tokens_among top member
        rw [root] at among
        exact among.subset (by simp [Node.tokens])
    have alone := standalone_of_lexFrom lexed token isToken
    have isKind : token.kind = .identifier := isName
    rw [isKind] at alone
    have plain := alone.isReserved
    refine Bool.eq_false_iff.mpr fun isWord => ?_
    have reserved : isReserved token.text = true :=
      List.any_eq_true.mpr ⟨"SELECT", by decide, isWord⟩
    rw [plain] at reserved
    cases reserved

/-- Every rule reads the tree with parentheses from the text with parentheses. -/
theorem all_wrapped (depth : Nat) : AllWrapped depth := by
  induction depth with
  | zero => exact fun _ _ _ _ _ course => course.elim
  | succ depth ih =>
    intro name s ys s' r' course opened enough wrappable diverges
    have conditional {kind : Kind} {more : Production Rule} (isKind : kind = .ifStatement ∨ kind = .whileStatement)
        (production : Grammar.production name =
          .node kind (.seq .take (.seq (.rule .expression) (.seq (.rule .statement) more))))
        (calm : (Production.seq (.rule .statement) more).calm wrappingViews wrapping.remade Rule.isOpened 0 = true)
        (contained : more.contained = true) (known : name.words ≠ [])
        (own : (⟨[.opener name.words], .free⟩ : View) ∈ name.sights wrappingViews) :
        Again wrapping s s' ys (name.sights wrappingViews) r' fun d d' =>
          RuleCourse (depth + 1 + 8) name d (wrapping.all ys) d' := by
      obtain ⟨first, isFirst, isKeyword, word, isWord, reads⟩ := opened known
      have course : Course (RuleCourse depth) (Grammar.production name) s [] s' ys := course
      rw [production] at course
      obtain ⟨changed, ⟨rest, rest', start, start'⟩, again⟩ := conditional_again ih isKind calm contained isFirst
        ⟨isKeyword, word, words_heads isWord, reads⟩ course wrappable diverges
      refine ⟨changed, ⟨_, own, ?_⟩, ?_⟩
      · rw [start']
        exact View.shows_opened start isKeyword isWord reads
      · rw [← production] at again
        exact again
    have calm (compound : name.isCompound = true) (noBody : name ≠ .statementBody) (notOpened : name.isOpened = false) :
        Again wrapping s s' ys (name.sights wrappingViews) r' fun d d' =>
          RuleCourse (depth + 1 + 8) name d (wrapping.all ys) d' := by
      obtain ⟨isCalm, seen⟩ := production_calm_wrapping name compound noBody notOpened
      obtain ⟨_, rfl, again⟩ := Course.again (fun _ remade => remade)
        (fun name s ys s' r' other course => ih name s ys s' r' course (opened_of_not other s))
        course isCalm enough wrappable
      exact (again r' diverges).weaken seen
    cases plain : name.isCompound with
    | false =>
      obtain ⟨diverges, shows, reads⟩ : Again wrapping s s' ys (name.sights wrappingViews) r' fun d d' =>
          RuleCourse (depth + 1) name d (wrapping.all ys) d' := plain_again plain course enough diverges
      exact ⟨diverges, shows, reads.mono (Nat.le_add_right ..)⟩
    | true =>
      cases name with
      | statementBody => exact body_again wrapping_choosing ih course wrappable diverges
      | createProcedure => exact procedure_again ih course opened wrappable diverges
      | ifStatement => exact conditional (.inl rfl) rfl (by decide) rfl nofun List.mem_cons_self
      | whileStatement => exact conditional (.inr rfl) rfl (by decide) rfl nofun List.mem_cons_self
      | compileUnit | statement | block | tryCatch => exact calm rfl nofun rfl
      | _ => cases plain

theorem parse_wrapped {source new : String} {tree : Tree Kind} {root : Node Kind}
    (parsed : parse source = .ok tree) (isRoot : tree.root = some root)
    (understood : ∀ node ∈ tree.descendants, node.kind ≠ .otherStatement) {tokens : List (Token Kind)}
    (lexed : lex new = .ok tokens) (same : tokens.map Token.atMargin = (wrapped root).tokens.map Token.atMargin) :
    ∃ tree' root', parse new = .ok tree' ∧ tree'.root = some root' ∧ root'.shape = (wrapped root).shape := by
  obtain ⟨s', course, atEnd⟩ := exists_course parsed isRoot
  have wrappable : ∀ node ∈ Node.descendantsOf [root], Wrappable node := by
    intro node member
    refine wrappable_of_parse parsed understood node ?_
    rw [Tree.descendants, isRoot]
    simpa [Node.descendantsOf] using member
  have again := all_wrapped (depthFor root.tokens) .compileUnit ⟨root.tokens, 1⟩ [root] s' [] course
    (opened_of_not rfl _) (Nat.zero_le _) wrappable (.inl atEnd)
  have reads := again.reads
  simp only [wrapping_all, List.map_cons, List.map_nil, Node.tokensOf, List.append_nil] at reads
  have length : tokens.length = (wrapped root).tokens.length := by simpa using congrArg List.length same
  rcases grows_wrapped root with unchanged | more
  · rw [List.head_eq_of_cons_eq unchanged] at same length ⊢
    refine parse_of_course course lexed same.symm ?_
    exact Nat.le_of_eq (by rw [depthFor, depthFor, length])
  · refine parse_of_course reads lexed same.symm ?_
    simp only [Node.tokensOf, List.append_nil] at more
    rw [depthFor, depthFor, length]
    omega

end Tsql

end SqlFerry
