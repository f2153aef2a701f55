import SqlFerry.Proofs.Tsql.Production
import SqlFerry.Tsql.Parser

/-! Reading loses no token. The tokens that were read and those still to be read are together all
tokens, and the leaves of the tree under construction are the tokens that were read. A text is read to
its end because every statement reads a token, so the tree of a text that can be read has all its
tokens as leaves. -/
namespace SqlFerry.Tsql

open Production

theorem readRule_stable {P : Cursor → Prop} (stable : Stable P) {depth : Nat} {rule : Rule}
    {c c' : Cursor} (start : P c) (ran : readRule depth rule c = .ok c') : P c' := by
  induction depth generalizing rule c c' with
  | zero => cases ran
  | succ depth ih => exact exec_stable stable (fun _ _ _ start ran => ih start ran) _ start ran

theorem readRule_length_le {depth : Nat} {rule : Rule} {c c' : Cursor}
    (ran : readRule depth rule c = .ok c') : c'.rest.length ≤ c.rest.length :=
  readRule_stable (stable_length c.rest.length) (Nat.le_refl _) ran

theorem production_contained (rule : Rule) : (Grammar.production rule).contained = true := by
  cases rule <;> rfl

theorem readRule_inside {depth : Nat} {rule : Rule} {c c' : Cursor} {kind : Kind}
    {front : List (Node Kind)} {outer : List (Kind × List (Node Kind))} {top : List (Node Kind)}
    (inside : c.builder.Inside kind front outer top) (ran : readRule depth rule c = .ok c') :
    c'.builder.Inside kind front outer top := by
  induction depth generalizing rule c c' kind front outer top with
  | zero => cases ran
  | succ depth ih =>
    exact exec_inside (fun _ _ _ _ _ _ _ inside ran => ih inside ran) _ inside
      (.inl (production_contained rule)) ran

/-- The rules that read a token where one is left. The others may find nothing to read. -/
def readsToken : Rule → Bool
  | .compileUnit | .tableElement | .tableConstraint | .alias | .caseTail => false
  | _ => true

/-- Except for statements the analysis of a production shows that its rule reads a token. -/
theorem production_reads {rule : Rule} (reading : readsToken rule = true) :
    rule = .statement ∨ (Grammar.production rule).reads readsToken = true := by
  revert reading
  cases rule <;> decide

theorem statement_reads {call : Rule → Cursor → Except ParseError Cursor}
    (called : ∀ name c c', call name c = .ok c' → c'.rest.length ≤ c.rest.length)
    (reading : ∀ c c', c.rest ≠ [] → call .statementBody c = .ok c' →
      c'.rest.length < c.rest.length)
    {mark : Checkpoint} {c c' : Cursor} (left : c.rest ≠ [])
    (ran : (Grammar.production .statement).exec call mark c = .ok c') :
    c'.rest.length < c.rest.length := by
  obtain ⟨inner, body, rfl⟩ := exec_node.mp ran
  obtain ⟨middle, first, last⟩ := exec_seq.mp body
  have lengthLast := exec_length_le called _ last
  rw [ifNot, exec] at first
  split at first
  · next semicolon =>
    obtain rfl : c.startNode .statement = middle := Except.ok.inj first
    obtain ⟨taken, second, done⟩ := exec_seq.mp last
    rw [whenever, exec, if_pos semicolon] at second
    cases second
    cases done
    have := List.length_pos_iff.mpr left
    simp [Cursor.rest_take]
    omega
  · have := reading (c.startNode .statement) _ left first
    exact Nat.lt_of_le_of_lt lengthLast this

theorem readRule_reads {depth : Nat} {rule : Rule} {c c' : Cursor}
    (reading : readsToken rule = true) (left : c.rest ≠ []) (ran : readRule depth rule c = .ok c') :
    c'.rest.length < c.rest.length := by
  induction depth generalizing rule c c' with
  | zero => cases ran
  | succ depth ih =>
    rcases production_reads reading with rfl | analysed
    · exact statement_reads (fun _ _ _ => readRule_length_le) (fun _ _ => ih rfl) left ran
    · exact exec_reads (fun _ _ _ => readRule_length_le) (fun _ _ _ => ih) _ analysed left ran

theorem production_advances (rule : Rule) :
    (Grammar.production rule).advances readsToken = true := by
  cases rule <;> decide

/-- The leaves are the tokens that were read, and with those still to be read they are `tokens`. -/
structure Accounted (tokens : List (Token Kind)) (c : Cursor) : Prop where
  complete : c.builder.Complete
  all : c.builder.tokens.toList ++ c.rest = tokens

theorem stable_accounted (tokens : List (Token Kind)) : Stable (Accounted tokens) where
  take c accounted := by
    unfold Cursor.take
    split
    · exact accounted
    · next token rest shape =>
      refine ⟨accounted.complete.token token, ?_⟩
      rw [← accounted.all, shape]
      simp
  startNode c kind accounted := ⟨accounted.complete.of_same (Builder.leaves_startNode ..) rfl,
    accounted.all⟩
  startNodeAt c mark kind accounted :=
    ⟨accounted.complete.of_same (Builder.leaves_startNodeAt ..) (Builder.tokens_startNodeAt ..),
      by rw [← accounted.all]; simp [Cursor.startNodeAt]⟩
  finishNode c accounted :=
    ⟨accounted.complete.of_same (Builder.leaves_finishNode _) (Builder.tokens_finishNode _),
      by rw [← accounted.all]; simp [Cursor.finishNode, Builder.tokens_finishNode]⟩

/-- A node that may stand at the top of a text. -/
def TopLevel (node : Node Kind) : Prop :=
  (node.kind = .statement ∨ node.kind = .batchSeparator) ∧ node.isLeaf = false

/-- Only the unit is open, and its children may stand at the top of a text. -/
def InUnit (c : Cursor) : Prop :=
  ∃ nodes, c.builder.openNodes = [(.compileUnit, nodes)] ∧ c.builder.top = [] ∧
    ∀ node ∈ nodes, TopLevel node

theorem inUnit_of_node {depth : Nat} {inner : Kind} (p : Production Rule) (mark : Checkpoint)
    {c c' : Cursor} (unit : InUnit c) (mayStand : inner = .statement ∨ inner = .batchSeparator)
    (ran : (node inner p).exec (readRule depth) mark c = .ok c') : InUnit c' := by
  obtain ⟨nodes, shape, top, all⟩ := unit
  obtain ⟨made, shape', top', kinds⟩ :=
    exec_node_made (fun _ _ _ _ _ _ _ => readRule_inside) p shape ran
  refine ⟨nodes ++ made, shape', top'.trans top, ?_⟩
  intro node member
  rcases List.mem_append.mp member with old | new
  · exact all node old
  · obtain ⟨kind, isRule⟩ := kinds node new
    exact ⟨kind ▸ mayStand, isRule⟩

theorem inUnit_step {depth : Nat} {mark : Checkpoint} {c c' : Cursor} (unit : InUnit c)
    (ran : (branch Grammar.atBatchSeparator Grammar.batchSeparator (Grammar.call .statement)).exec
      (readRule depth) mark c = .ok c') : InUnit c' := by
  rw [exec] at ran
  split at ran
  · exact inUnit_of_node _ mark unit (.inr rfl) ran
  · cases depth with
    | zero => cases ran
    | succ depth => exact inUnit_of_node _ ⟨0⟩ unit (.inl rfl) ran

theorem step_reads {depth : Nat} {mark : Checkpoint} {c c' : Cursor} (left : c.rest ≠ [])
    (ran : (branch Grammar.atBatchSeparator Grammar.batchSeparator (Grammar.call .statement)).exec
      (readRule depth) mark c = .ok c') : c'.rest.length < c.rest.length :=
  exec_reads (fun _ _ _ => readRule_length_le) (fun _ _ _ => readRule_reads) _ (by decide) left ran

/-- A unit that is read leaves no token and at most one node, the unit itself. -/
theorem readRule_compileUnit {depth : Nat} {c c' : Cursor}
    (closed : c.builder.openNodes = []) (fresh : c.builder.top = [])
    (ran : readRule depth .compileUnit c = .ok c') :
    c'.rest = [] ∧ c'.builder.openNodes = [] ∧
      (c'.builder.top = [] ∨ ∃ id first rest, c'.builder.top = [.rule id .compileUnit first rest] ∧
        ∀ child ∈ first :: rest, TopLevel child) := by
  cases depth with
  | zero => cases ran
  | succ depth =>
    obtain ⟨inner, body, rfl⟩ := exec_node.mp ran
    have opened : InUnit (c.startNode .compileUnit) :=
      ⟨[], by simp [Cursor.startNode, Builder.startNode, closed], fresh, by simp⟩
    obtain ⟨nodes, shape, top, all⟩ : InUnit inner :=
      iterate_preserves (fun _ _ unit _ stepped => inUnit_step unit stepped) opened body
    have stopped := iterate_stops (c := c.startNode .compileUnit)
      (by intro c holds; simpa [Complement.complement, Look.holds] using holds)
      (by
        intro c c' holds stepped
        exact step_reads (by simpa [Complement.complement, Look.holds] using holds) stepped)
      (Nat.le_refl _) body
    have read : inner.rest = [] := by simpa [Complement.complement, Look.holds] using stopped
    cases nodes with
    | nil =>
      refine ⟨read, ?_, .inl ?_⟩ <;> simp [Cursor.finishNode, Builder.finishNode, shape, top]
    | cons first rest =>
      refine ⟨read, ?_, .inr ⟨inner.builder.nodeCount, first, rest, ?_, all⟩⟩ <;>
        simp [Cursor.finishNode, Builder.finishNode, shape, top, Builder.push,
          Builder.setChildren, Builder.children]

/-- Reading loses, doubles and moves no token: the tree has the tokens of the text, and the leaves of
its root are these tokens in order, each with its place among them. -/
theorem parse_keeps_tokens (source : String) (tree : Tree Kind) (parsed : parse source = .ok tree) :
    lex source = .ok tree.tokens ∧ (tree.root.isSome ↔ tree.tokens ≠ []) ∧
      ∀ root, tree.root = some root → root.kind = .compileUnit ∧ root.isLeaf = false ∧
        (∀ child ∈ root.children, TopLevel child) ∧
        root.descendants.filterMap Node.entry? = tree.tokens.zipIdx := by
  obtain ⟨tokens, lexed, read⟩ := bind_eq_ok.mp parsed
  obtain ⟨stop, ran, built⟩ := bind_eq_ok.mp read
  obtain rfl : stop.builder.finish = tree := Except.ok.inj built
  obtain ⟨atEnd, closed, top⟩ := readRule_compileUnit rfl rfl ran
  have accounted := readRule_stable (stable_accounted tokens)
    ⟨Builder.complete_ofText source, rfl⟩ ran
  have all : stop.builder.tokens.toList = tokens := by
    rw [← accounted.all, atEnd, List.append_nil]
  have finished : stop.builder.finish =
      ⟨stop.builder.lines, tokens, stop.builder.arena, stop.builder.top.getLast?⟩ := by
    simp [Builder.finish, Builder.finishNodes, closed, all]
  have leaves : Node.leavesOf stop.builder.top = tokens.zipIdx := by
    have complete := accounted.complete
    rw [Builder.Complete, all, Builder.leaves, closed] at complete
    simpa using complete
  rw [finished]
  refine ⟨lexed, ?_, ?_⟩
  · rcases top with empty | ⟨id, first, rest, shape, -⟩
    · have none : tokens = [] := by simpa [empty] using leaves.symm
      simp [empty, none]
    · have some := Node.leavesOf_singleton_ne_nil (.rule id Kind.compileUnit first rest)
      rw [← shape, leaves] at some
      simpa [shape] using some
  · intro root isRoot
    rcases top with empty | ⟨id, first, rest, shape, children⟩
    · simp [empty] at isRoot
    · obtain rfl : .rule id .compileUnit first rest = root := by simpa [shape] using isRoot
      refine ⟨rfl, rfl, children, ?_⟩
      rw [← Node.leavesOf_singleton, ← shape, leaves]

theorem parse_keeps_tokens_of_two : ∃ tree root, parse "PRINT 1; ;" = .ok tree ∧
    tree.root = some root ∧ root.children.map Node.kind = [.statement, .statement] ∧
    root.descendants.filterMap Node.entry? = tree.tokens.zipIdx := by
  have lexed : lex "PRINT 1; ;" = .ok [⟨.keyword, "PRINT", 1, 0⟩, ⟨.numberLiteral, "1", 1, 6⟩,
      ⟨.semicolon, ";", 1, 7⟩, ⟨.semicolon, ";", 1, 9⟩] := by with_unfolding_all rfl
  have parsed := congrArg (· >>= parseTokens "PRINT 1; ;") lexed
  exact ⟨_, _, parsed, rfl, rfl, ((parse_keeps_tokens _ _ parsed).2.2 _ rfl).2.2.2⟩

end SqlFerry.Tsql
