import SqlFerry.Proofs.Pass.Repair
import SqlFerry.Proofs.Tsql.Rereading

/-! The text that the repair of parentheses leaves. It is read as the tree with parentheses, where none are
missing, and so the repair leaves it as it is. -/
namespace SqlFerry

open Tsql (Kind Plain plain_leaf Regular Header wrapped)

theorem Settled.of_shape {node other : Node Kind} (settled : Settled other) (same : node.shape = other.shape) :
    Settled node := by
  have isKind := Node.kind_of_shape same
  constructor
  · intro conditional condition isCondition
    rw [isKind] at conditional
    have children := Node.child?_of_shape same 1
    rw [Option.mem_def.mp isCondition, Option.map_some] at children
    obtain ⟨condition', isCondition', shape⟩ := Option.map_eq_some_iff.mp children.symm
    rw [← Node.kind_of_shape shape]
    exact settled.condition conditional _ isCondition'
  · intro isProcedure
    rw [isKind] at isProcedure
    rcases settled.parameters isProcedure with none | ⟨parameters, isParameters, isParen⟩
    · have children := Node.firstChild?_of_shape same Kind.qualifiedName
      rw [none] at children
      exact .inl (Option.map_eq_none_iff.mp children)
    · have children := Node.firstChild?_of_shape same Kind.procedureParameters
      rw [isParameters, Option.map_some] at children
      obtain ⟨parameters', isParameters', shape⟩ := Option.map_eq_some_iff.mp children
      exact .inr ⟨parameters', isParameters', by rw [Node.startToken_of_shape shape, isParen]⟩

section Wrapped

theorem plain_between (left right : Token Kind) {nodes : List (Node Kind)} (plain : Plain nodes) :
    Plain (.leaf 0 0 left :: (nodes ++ [.leaf 0 0 right])) := by
  rw [← List.singleton_append, Tsql.plain_append, Tsql.plain_append]
  exact ⟨plain_leaf 0 0 left, plain, plain_leaf 0 0 right⟩

theorem plain_wrappedCondition {condition : Node Kind} (plain : Plain [condition]) :
    Plain [Tsql.wrappedCondition condition] := by
  rw [Tsql.wrappedCondition]
  split
  · exact plain
  · exact Tsql.plain_rule.mpr ⟨rfl, plain_between _ _ plain⟩

theorem kind_wrappedCondition (condition : Node Kind) :
    (Tsql.wrappedCondition condition).kind = .parenExpression := by
  rw [Tsql.wrappedCondition]
  split
  · next isParen => exact isParen
  · rfl

theorem kind_wrapped (node : Node Kind) : (wrapped node).kind = node.kind := by
  cases node <;> rfl

variable {children words parameters others body : List (Node Kind)} {name : Node Kind}

theorem exists_wrappedBehind (header : Header children words name parameters others body) :
    ∃ id first rest, Tsql.wrappedBehind name parameters = [.rule id .procedureParameters first rest] ∧
      first.startToken.kind = .leftParen ∧ Plain (first :: rest) := by
  rcases header.listed with rfl | ⟨id, first, rest, rfl⟩
  · exact ⟨0, _, _, rfl, rfl, plain_between _ _ Tsql.plain_nil⟩
  · have plain := (Tsql.plain_rule.mp header.plainParameters).2
    rw [Tsql.wrappedBehind, if_pos (by rfl), Tsql.wrappedParameters]
    split
    · next isParen => exact ⟨id, first, rest, rfl, isParen, plain⟩
    · exact ⟨0, _, _, rfl, rfl, plain_between _ _ plain⟩

theorem header_wrapped (header : Header children words name parameters others body) :
    Header (words ++ name :: (Tsql.wrappedBehind name parameters ++ (others ++ body.map wrapped)))
      words name (Tsql.wrappedBehind name parameters) others (body.map wrapped) := by
  obtain ⟨id, first, rest, listed, -, plain⟩ := exists_wrappedBehind header
  refine { header with whole := rfl, listed := .inr ⟨id, first, rest, listed⟩, ended := ?_, plainParameters := ?_ }
  · rcases header.ended with rfl | ⟨last, rfl, isBody⟩
    · exact .inl rfl
    · exact .inr ⟨_, rfl, by rw [kind_wrapped, isBody]⟩
  · rw [listed]
    exact Tsql.plain_rule.mpr ⟨rfl, plain⟩

theorem settled_rule {id : Nat} {kind : Kind} {first : Node Kind} {rest : List (Node Kind)}
    (here : Settled (.rule id kind first rest))
    (below : ∀ child ∈ first :: rest, ∀ node ∈ child.descendants, Settled node) :
    ∀ node ∈ (Node.rule id kind first rest).descendants, Settled node := by
  rw [Node.descendants_eq]
  refine List.forall_mem_cons.mpr ⟨here, fun node member => ?_⟩
  obtain ⟨child, isChild, inside⟩ := List.mem_flatMap.mp member
  exact below child isChild node inside

/-- No parentheses are missing in the tree with parentheses. -/
theorem settled_wrapped {node : Node Kind} (regular : ∀ below ∈ node.descendants, Regular below) :
    ∀ below ∈ (wrapped node).descendants, Settled below := by
  induction node using Node.induction with
  | step node ih =>
    have inside (child : Node Kind) (isChild : child ∈ node.children) :
        ∀ below ∈ (wrapped child).descendants, Settled below :=
      ih child isChild fun below member =>
        regular below ((Node.descendants_among node (Node.descendants_of_child isChild)).subset member)
    have here := regular node (Node.mem_descendants node)
    cases node with
    | leaf id index token => exact settled_of_plain (plain_leaf id index token)
    | rule id kind first rest =>
      obtain ⟨inFirst, inRest⟩ := List.forall_mem_cons.mp inside
      have inOthers {others : List (Node Kind)} (among : others ⊆ first :: rest) :
          ∀ child ∈ others.map wrapped, ∀ below ∈ child.descendants, Settled below := by
        intro child member
        obtain ⟨old, isOld, rfl⟩ := List.mem_map.mp member
        exact inside old (among isOld)
      rw [wrapped, Tsql.wrappedOf_eq_map]
      by_cases conditional : kind = .ifStatement ∨ kind = .whileStatement
      · obtain ⟨-, condition, others, rfl, plain⟩ := here.1 conditional
        have same : wrapped condition = condition := List.head_eq_of_cons_eq (map_wrapped_plain plain)
        have rest : Tsql.rewrapped kind ((condition :: others).map wrapped) =
            Tsql.wrappedCondition condition :: others.map wrapped := by
          rw [List.map_cons, same]
          rcases conditional with rfl | rfl <;> rfl
        rw [rest]
        refine settled_rule ⟨fun _ condition' isCondition => ?_, ?_⟩ ?_
        · obtain rfl : Tsql.wrappedCondition condition = condition' := Option.some.inj isCondition
          exact kind_wrappedCondition condition
        · rintro rfl
          rcases conditional with contrary | contrary <;> cases contrary
        · refine List.forall_mem_cons.mpr ⟨inFirst, List.forall_mem_cons.mpr ⟨?_, inOthers fun _ => ?_⟩⟩
          · exact settled_of_plain (plain_wrappedCondition plain)
          · exact fun member => List.mem_cons_of_mem _ (List.mem_cons_of_mem _ member)
      by_cases procedure : kind = .createProcedure
      · subst procedure
        obtain ⟨words, name, parameters, others, body, header⟩ := here.2 rfl
        obtain ⟨id', left, more, listed, isParen, plain⟩ := exists_wrappedBehind header
        have nodes : wrapped first :: Tsql.rewrapped .createProcedure (rest.map wrapped) =
            words ++ name :: (Tsql.wrappedBehind name parameters ++ (others ++ body.map wrapped)) := by
          have whole := header.wrapped id
          obtain ⟨first', rest', shape⟩ := List.exists_cons_of_ne_nil
            (show words ++ name :: (Tsql.wrappedBehind name parameters ++ (others ++ body.map wrapped)) ≠ [] by simp)
          rw [Tsql.wrapping_all, Tsql.wrapping_all, shape] at whole
          rw [shape]
          simpa [Tsql.closed, wrapped, Tsql.wrappedOf_eq_map] using whole
        have found := (header_wrapped header).find?_parameters
        rw [← nodes, listed] at found
        refine settled_rule ⟨fun contrary => absurd contrary conditional, fun _ => .inr ⟨_, found, isParen⟩⟩ ?_
        rw [nodes, listed]
        have quiet {ys : List (Node Kind)} (plain : Plain ys) : ∀ child ∈ ys, ∀ below ∈ child.descendants, Settled below :=
          fun child member => settled_of_plain (plain.of_mem member)
        have inHead := quiet header.plainHead
        simp only [List.forall_mem_append, List.forall_mem_cons] at inHead ⊢
        refine ⟨inHead.1, inHead.2.1, ⟨?_, List.forall_mem_nil _⟩, quiet header.plainOthers, inOthers fun _ member => ?_⟩
        · exact settled_of_plain (Tsql.plain_rule.mpr ⟨rfl, plain⟩)
        · simp [header.whole, member]
      · rw [rewrapped_ordinary (Tsql.Kind.isOrdinary_of_ne conditional procedure)]
        refine settled_rule ⟨fun contrary => absurd contrary conditional, fun contrary => absurd contrary procedure⟩ ?_
        exact inOthers (List.Subset.refl _)

end Wrapped

section Text

variable {source : String} {tree : Tree Kind}

theorem leads_settled (parsed : Tsql.parse source = .ok tree) (settled : ∀ node ∈ tree.descendants, Settled node) :
    Pass.parenthesisRepair.Leads (Text.lines source) (Text.lines source) := by
  refine Pass.leads_idle parsed ?_
  unfold Visit.runTree
  split
  · next root isRoot =>
    refine run_settled ?_ _
    rwa [Tree.descendants, isRoot] at settled
  · rfl

/-- The repair leads to a text where no parentheses are missing. -/
theorem exists_leads (parsed : Tsql.parse source = .ok tree)
    (understood : ∀ node ∈ tree.descendants, node.kind ≠ .otherStatement) (held : Text.size source ≤ textLimit) :
    ∃ new tree', Pass.parenthesisRepair.Leads (Text.lines source) (Text.lines new) ∧ Tsql.parse new = .ok tree' ∧
      Parenthesized (tree.tokens.map Tsql.face) (tree'.tokens.map Tsql.face) ∧
      ∀ node ∈ tree'.descendants, Settled node := by
  cases isRoot : tree.root with
  | none =>
    have settled : ∀ node ∈ tree.descendants, Settled node := by simp [Tree.descendants, isRoot]
    exact ⟨source, tree, leads_settled parsed settled, parsed, .refl _, settled⟩
  | some root =>
    have regular : ∀ node ∈ root.descendants, Regular node := by
      have all := Tsql.parse_regular parsed
      rwa [Tree.descendants, isRoot] at all
    have repairs : Repairs (Pass.repairParentheses.run root.height (.ofNode root)) [root] :=
      repairs_run regular (Nat.le_refl _)
    obtain ⟨e, tokens, walked, quiet, lexed, margins, inserted⟩ := repairs.exists_tokens parsed isRoot held
    obtain ⟨tree', root', parsed', isRoot', shape⟩ := Tsql.parse_wrapped parsed isRoot understood lexed margins
    obtain ⟨lexed', -, -⟩ := Tsql.parse_tree parsed'
    obtain rfl : tokens = tree'.tokens := Except.ok.inj (lexed.symm.trans lexed')
    have same := (Tsql.parse_tree parsed).2.2
    rw [isRoot] at same
    have faces : tree'.tokens.map Tsql.face = (wrapped root).tokens.map Tsql.face := by
      have marked := congrArg (List.map Tsql.face) margins
      rw [List.map_map, List.map_map] at marked
      exact marked
    refine ⟨e.buffer.joined, tree', ?_, parsed', by rwa [faces, ← same], fun node member => ?_⟩
    · exact Pass.leads_of_rebuild (by rw [Text.unlines_lines, parsed]) (Pass.run_ofVisit walked) quiet
    · rw [Tree.descendants, isRoot'] at member
      obtain ⟨other, isBelow, sameShape⟩ := Node.exists_of_shape shape member
      exact (settled_wrapped regular other isBelow).of_shape sameShape

end Text

/-- Parentheses are repaired once and for all. The pass finds nothing to complain about and inserts nothing
but parentheses; in the tree of the text that it gives every condition and every list of parameters has
its parentheses, and the pass leaves this text as it is. -/
theorem parentheses_repaired (options : Options) (text : String) (tree : Tree Kind)
    (parsed : Tsql.parse (Buffer.ofText text).joined = .ok tree)
    (understood : ∀ node ∈ tree.descendants, node.kind ≠ .otherStatement)
    (held : Text.size (Buffer.ofText text).joined ≤ textLimit) :
    ∃ conversion tree', convertWith [.parenthesisRepair] options text = .ok conversion ∧
      conversion.diagnostics = [] ∧
      Tsql.parse conversion.text = .ok tree' ∧
      Parenthesized (tree.tokens.map Tsql.face) (tree'.tokens.map Tsql.face) ∧
      (∀ node ∈ tree'.descendants, node.kind = .ifStatement ∨ node.kind = .whileStatement →
        ∃ condition, node.child? 1 = some condition ∧ condition.kind = .parenExpression) ∧
      (∀ node ∈ tree'.descendants, node.kind = .createProcedure →
        ∃ parameters, node.firstChild? .procedureParameters = some parameters ∧
          parameters.startToken.kind = .leftParen) ∧
      ∃ again, convertWith [.parenthesisRepair, .parenthesisRepair] options text = .ok again ∧
        again.diagnostics = [] ∧ again.lines = conversion.lines := by
  obtain ⟨new, tree', leads, parsed', inserted, settled⟩ := exists_leads parsed understood held
  obtain ⟨conversion, again, ran, quiet, isText, ran', quiet', same⟩ :=
    @exists_settled_conversion .parenthesisRepair options text new leads (leads_settled parsed' settled)
  have regular := Tsql.parse_regular parsed'
  refine ⟨conversion, tree', ran, quiet, by rw [isText, parsed'], inserted, ?_, ?_, again, ran', quiet', same⟩
  · intro node member conditional
    have isRule : node.isLeaf = false :=
      Tsql.isLeaf_eq_false parsed' member (by rcases conditional with isKind | isKind <;> rw [isKind] <;> rfl)
    have here := regular node member
    cases node with
    | leaf => cases isRule
    | rule id kind first rest =>
      obtain ⟨-, condition, others, rfl, -⟩ := here.1 conditional
      exact ⟨condition, rfl, (settled _ member).condition conditional condition rfl⟩
  · intro node member isProcedure
    have isRule : node.isLeaf = false := Tsql.isLeaf_eq_false parsed' member (by rw [isProcedure]; rfl)
    have here := regular node member
    cases node with
    | leaf => cases isRule
    | rule id kind first rest =>
      obtain ⟨words, name, parameters, others, body, header⟩ := here.2 isProcedure
      refine ((settled _ member).parameters isProcedure).resolve_left fun none => ?_
      exact nomatch none.symm.trans header.find?_name

theorem parentheses_repaired_in_loop :
    ∃ conversion, convertWith [.parenthesisRepair] {}
        "CREATE PROC p @a INT -- (\r\nAS WHILE @a < (2) PRINT 1" = .ok conversion ∧
      conversion.diagnostics = [] ∧
      conversion.text = "CREATE PROC p(@a INT) -- (\nAS WHILE (@a < (2)) PRINT 1" ∧
      ∃ again, convertWith [.parenthesisRepair, .parenthesisRepair] {}
          "CREATE PROC p @a INT -- (\r\nAS WHILE @a < (2) PRINT 1" = .ok again ∧
        again.diagnostics = [] ∧ again.lines = conversion.lines := by
  let source := "CREATE PROC p @a INT -- (\nAS WHILE @a < (2) PRINT 1"
  have joined : (Buffer.ofText "CREATE PROC p @a INT -- (\r\nAS WHILE @a < (2) PRINT 1").joined = source := by
    decide
  have read : ((Tsql.parse source).toOption.any fun tree =>
      tree.descendants.all (·.kind ≠ .otherStatement)) = true := by decide +kernel
  cases parsed : Tsql.parse source with
  | error e =>
    rw [parsed] at read
    cases read
  | ok tree =>
  have understood : ∀ node ∈ tree.descendants, node.kind ≠ .otherStatement := by
    rw [parsed] at read
    simpa [Except.toOption] using read
  have leads : Pass.parenthesisRepair.Leads ["CREATE PROC p @a INT -- (", "AS WHILE @a < (2) PRINT 1"]
      ["CREATE PROC p(@a INT) -- (", "AS WHILE (@a < (2)) PRINT 1"] := Pass.leads_of_stage (by decide +kernel)
  obtain ⟨_, atEnd, leads⟩ := (@Session.at_ofText _ "CREATE PROC p @a INT -- (\r\nAS WHILE @a < (2) PRINT 1"
    (by decide)).step leads
  have shown := @text_of_run _ [.parenthesisRepair] {} _ _ (leads []) atEnd (by decide) (by decide)
  obtain ⟨conversion, -, ran, quiet, -, -, -, -, again⟩ :=
    parentheses_repaired {} _ tree (joined ▸ parsed) understood (by rw [joined]; decide)
  rw [ran] at shown
  exact ⟨conversion, ran, quiet, Option.some.inj shown, again⟩

end SqlFerry
