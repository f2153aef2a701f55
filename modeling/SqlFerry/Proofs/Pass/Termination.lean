import SqlFerry.Proofs.Pass.Marks
import SqlFerry.Proofs.Pass.Terminator
import SqlFerry.Proofs.Tsql.Punctuation

/-! The pass that ends statements. It leaves of a part of the text the tokens that stood there and the semicolons
of the tree, wherever the part stands. The text is read as the tree with semicolons, where none are missing, and
so the pass leaves it as it is. -/
namespace SqlFerry

open Strip
open Text (byteLength)
open Tsql (Kind Piece Sound IsMark Plain plain_leaf Orderly Punctuated spread ended addition semicolonOn)
open Tsql.Piece (stripsOf)

theorem isMark_semicolonOn (line : Nat) : IsMark (semicolonOn line) ';' :=
  ⟨by simp [semicolonOn], by decide, fun rest => by cases rest <;> rfl⟩

theorem size_semicolonOn (line : Nat) : byteLength (semicolonOn line).text.toList = 1 := by
  rw [(isMark_semicolonOn line).text]
  rfl

theorem inserting_punctuated : Inserting Punctuated := ⟨.refl, .append⟩

section Statement

variable {gaps : Token Kind → List Char} {before rest : List Char} {edit : Edit Unit} {id : Nat} {kind : Kind}
  {first : Node Kind} {others : List (Node Kind)}

theorem Dressed.semicolon {node : Node Kind} (sound : Sound before (spread gaps node.tokens) rest) :
    Dressed Punctuated gaps before rest node.tokens (node.tokens ++ [semicolonOn node.stop.line])
      (spread gaps node.tokens ++ [.made (semicolonOn node.stop.line) []]) := by
  have long := sound.length_le
  rw [node.tokens_eq_cons, List.length_cons, ← node.tokens_eq_cons] at long
  refine ⟨by simp, ?_, by simp [Tsql.Piece.old], ?_, ?_, fun back _ => ?_⟩
  · simpa [Tsql.face, semicolonOn] using (Punctuated.refl (node.tokens.map Tsql.face)).append (.mark .nil)
  · have put := @Tsql.Sound.put _ [] _ before rest _ (by simpa using sound) (isMark_semicolonOn node.stop.line)
      (congrArg Position.line sound.stop_node)
    simpa using put
  · simp only [Tsql.Piece.newOf_append, Tsql.Piece.oldOf_append, Tsql.Piece.newOf_cons, Tsql.Piece.oldOf_cons,
      Tsql.Piece.newOf_nil, Tsql.Piece.oldOf_nil, Tsql.Piece.new, Tsql.Piece.old, Text.byteLength_append,
      Text.byteLength_nil, newOf_spread, size_semicolonOn]
    omega
  · rw [spread_node] at sound ⊢
    obtain ⟨-, -, stands, -⟩ := sound
    exact opens_of_word stands _ _ _

theorem tokens_ended (none : addition (.rule id kind first others) first = []) :
    (ended (.rule id kind first others)).tokens = Node.tokensOf ((first :: others).map ended) := by
  simp [ended, Tsql.endedOf_eq_map, none, Node.tokensOf, Node.tokens]

/-- A statement gets its semicolon once what follows its body has been visited. -/
theorem Remakes.statement (lacks : Pass.lacksTerminator (.rule id .statement first others) first = true)
    (same : ended first = first) (below : Remakes Punctuated ended edit others) :
    Remakes Punctuated ended (edit >>= fun _ => Edit.insertAfter first ";") [.rule id .statement first others] := by
  intro gaps front back rest sound opens short room
  have old : Node.tokensOf [.rule id .statement first others] = first.tokens ++ Node.tokensOf others := by
    simp [Node.tokensOf, Node.tokens]
  have new : Node.tokensOf ([.rule id .statement first others].map ended) =
      first.tokens ++ [semicolonOn first.stop.line] ++ Node.tokensOf (others.map ended) := by
    have added : addition (.rule id .statement first others) first = [.leaf 0 0 (semicolonOn first.stop.line)] :=
      if_pos ⟨rfl, lacks⟩
    simp [ended, Tsql.endedOf_eq_map, same, added, Node.tokensOf, Node.tokens]
  rw [new]
  rw [old, Tsql.spread_append] at sound short room ⊢
  simp only [Tsql.Piece.oldOf_append, Text.byteLength_append] at short room
  obtain ⟨left, right⟩ := Tsql.sound_append.mp sound
  have start := below gaps (front ++ stripsOf (spread gaps first.tokens)) back rest (by simpa using right) opens
    (by simp only [oldOf_append, Tsql.Piece.oldOf_stripsOf, Text.byteLength_append]; omega)
    (by simp only [newOf_append, Tsql.Piece.newOf_stripsOf, newOf_spread, Text.byteLength_append]; omega)
  rw [Tsql.Piece.stripsOf_append, List.append_assoc (stripsOf _), ← List.append_assoc front]
  refine start.bind fun _ e dressed => ?_
  obtain ⟨ps, dressed, draft⟩ := dressed
  simp only [oldOf_append, Tsql.Piece.oldOf_stripsOf] at dressed
  have size := dressed.size
  have long := left.length_le
  rw [dressed.same] at size
  rw [first.tokens_eq_cons, List.length_cons, ← first.tokens_eq_cons] at long
  have shown : Shown (front ++ stripsOf (spread gaps first.tokens)) := by
    rw [stripsOf_spread]
    refine shown_kept front fun none => ?_
    rw [none, Text.byteLength_nil] at long
    omega
  have edits := @yields_put front back (spread gaps first.tokens) ps (semicolonOn first.stop.line) first.stop ';'
    (dressed.opens back opens) shown (isMark_semicolonOn _) left.stop_node
    (by simp only [Text.byteLength_append]; omega)
    (by simp [Tsql.Piece.new, newOf_spread, size_semicolonOn]; omega)
  obtain ⟨_, e', ran, draft'⟩ := edits e (by simpa using draft)
  refine ⟨_, e', ran, (spread gaps first.tokens ++ [.made (semicolonOn first.stop.line) []]) ++ ps, ?_,
    by simpa using draft'⟩
  rw [← dressed.same] at left
  exact (Dressed.semicolon left).append inserting_punctuated (by simpa [Tsql.Piece.old] using dressed)

end Statement

/-! Where no semicolon is missing. -/

/-- The node lacks no semicolon. -/
def Terminated (node : Node Kind) : Prop :=
  node.kind = .statement → ∀ body ∈ node.child? 0, Pass.lacksTerminator node body = false

theorem lacksTerminator_eq_false_iff {node body : Node Kind} : Pass.lacksTerminator node body = false ↔
    (body.kind.takesTerminator = true → ∃ child ∈ node.children, child.kind = .semicolon) := by
  simp [Pass.lacksTerminator, Node.firstChild?, Bool.and_eq_false_imp]

theorem Terminated.of_shape {node other : Node Kind} (terminated : Terminated other) (same : node.shape = other.shape) :
    Terminated node := by
  intro isStatement body isBody
  have children := Node.child?_of_shape same 0
  rw [Option.mem_def.mp isBody, Option.map_some] at children
  obtain ⟨body', isBody', shape⟩ := Option.map_eq_some_iff.mp children.symm
  have semicolons := congrArg Option.isNone (Node.firstChild?_of_shape same Kind.semicolon)
  rw [Option.isNone_map, Option.isNone_map] at semicolons
  have lacks := terminated (Node.kind_of_shape same ▸ isStatement) body' isBody'
  rwa [Pass.lacksTerminator, Node.kind_of_shape shape, ← semicolons] at lacks

theorem terminated_of_plain {node : Node Kind} (plain : Plain [node]) : ∀ below ∈ node.descendants, Terminated below := by
  intro below member isStatement body isBody
  rcases plain below (by simpa [Node.descendantsOf] using member) with isLeaf | other
  · cases below with
    | leaf => cases isBody
    | rule => cases isLeaf
  · rw [isStatement] at other
    cases other

section Visit

variable {recur : Site Kind → Edit Unit} {site : Site Kind}

theorem terminate_statement (isStatement : site.kind = .statement) :
    Pass.terminate recur site = (Visit.children recur site >>= fun _ => (site.node.child? 0).elim (pure ()) fun body =>
      if Pass.lacksTerminator site.node body then Edit.insertAfter body ";" else pure ()) := by
  rw [Pass.terminate, isStatement]
  cases site.node.child? 0 <;> rfl

theorem run_terminated (terminated : ∀ node ∈ site.node.descendants, Terminated node) (depth : Nat) :
    Pass.terminate.run depth site = pure () := by
  induction depth generalizing site with
  | zero => rfl
  | succ depth ih =>
    have children : Visit.children (Pass.terminate.run depth) site = pure () :=
      forM_eq_pure fun child isChild => ih fun node member => terminated node (descendants_of_site isChild member)
    rw [Visit.run]
    by_cases isStatement : site.kind = .statement
    · rw [terminate_statement isStatement, children]
      cases isBody : site.node.child? 0 with
      | none => rfl
      | some body =>
        have lacks := terminated site.node (Node.mem_descendants _) isStatement body isBody
        simp [lacks]
    · rw [Pass.terminate_passes isStatement _ _ rfl, children]

theorem remakes_run {depth : Nat} (orderly : ∀ node ∈ site.node.descendants, Orderly node)
    (enough : site.node.height ≤ depth) : Remakes Punctuated ended (Pass.terminate.run depth site) [site.node] := by
  induction depth generalizing site with
  | zero => cases node : site.node <;> simp [node, Node.height] at enough
  | succ depth ih =>
    cases node : site.node with
    | leaf id index token =>
      rw [run_terminated (by rw [node]; exact terminated_of_plain (plain_leaf id index token))]
      exact inserting_punctuated.remakes rfl
    | rule id kind first rest =>
      have nodes : site.children.map (·.node) = first :: rest := by
        rw [Site.children, Site.map_node_row, node]
        rfl
      have below (child : Site Kind) (isChild : child ∈ site.children) :
          Remakes Punctuated ended (Pass.terminate.run depth child) [child.node] := by
        refine ih (fun node member => orderly node (descendants_of_site isChild member)) ?_
        exact Nat.le_of_lt_succ (Nat.lt_of_lt_of_le (height_of_site isChild) enough)
      have children := Remakes.forM inserting_punctuated below
      rw [nodes] at children
      have isKind : site.kind = kind := by rw [Site.kind, node]; rfl
      have here := orderly site.node (Node.mem_descendants _)
      rw [node] at here
      rw [Visit.run]
      by_cases isStatement : kind = .statement
      · subst isStatement
        have isBody : site.node.child? 0 = some first := by rw [node]; rfl
        rw [terminate_statement isKind, isBody, Option.elim_some, node]
        split
        · next lacks =>
          have plain := here rfl first rfl (Bool.and_eq_true_iff.mp lacks).1
          obtain ⟨body, more, isChildren, rfl, rfl⟩ := List.map_eq_cons_iff.mp nodes
          have walk : Visit.children (Pass.terminate.run depth) site = more.forM (Pass.terminate.run depth) := by
            rw [Visit.children, isChildren]
            change Pass.terminate.run depth body >>= (fun _ => more.forM (Pass.terminate.run depth)) = _
            rw [run_terminated (terminated_of_plain plain)]
            rfl
          rw [walk]
          refine Remakes.statement lacks (Tsql.ended_of_plain plain) (Remakes.forM inserting_punctuated fun child member => below child ?_)
          rw [isChildren]
          exact List.mem_cons_of_mem _ member
        · next settled =>
          rw [bind_pure_unit]
          exact children.rule (tokens_ended (if_neg fun lacks => settled lacks.2))
      · rw [Pass.terminate_passes isStatement _ _ isKind]
        exact children.rule (tokens_ended (Tsql.addition_of_ne (by simpa [Node.kind] using isStatement) first))

end Visit

/-! Texts. -/

theorem kind_ended (node : Node Kind) : (ended node).kind = node.kind := by
  cases node <;> rfl

theorem lacksTerminator_ended (id : Nat) (first : Node Kind) (rest : List (Node Kind)) :
    Pass.lacksTerminator (ended (.rule id .statement first rest)) (ended first) = false := by
  refine lacksTerminator_eq_false_iff.mpr fun takes => ?_
  rw [kind_ended] at takes
  rw [ended, Tsql.endedOf_eq_map, Node.children]
  cases lacks : Pass.lacksTerminator (.rule id .statement first rest) first with
  | true => exact ⟨.leaf 0 0 (semicolonOn first.stop.line), by simp [addition, Node.kind, lacks], rfl⟩
  | false =>
    obtain ⟨child, isChild, isSemicolon⟩ := lacksTerminator_eq_false_iff.mp lacks takes
    refine ⟨ended child, ?_, by rw [kind_ended, isSemicolon]⟩
    rcases List.mem_cons.mp isChild with rfl | later
    · exact List.mem_cons_self
    · exact List.mem_cons_of_mem _ (List.mem_append_right _ (List.mem_map_of_mem later))

theorem terminated_ended (node : Node Kind) : ∀ below ∈ (ended node).descendants, Terminated below := by
  induction node using Node.induction with
  | step node ih =>
    cases node with
    | leaf id index token => exact terminated_of_plain (plain_leaf id index token)
    | rule id kind first rest =>
      obtain ⟨inFirst, inRest⟩ := List.forall_mem_cons.mp ih
      rw [Node.descendants_eq]
      refine List.forall_mem_cons.mpr ⟨?_, fun node member => ?_⟩
      · rintro isStatement body isBody
        obtain rfl : kind = .statement := isStatement
        obtain rfl : ended first = body := Option.some.inj isBody
        exact lacksTerminator_ended id first rest
      · obtain ⟨child, isChild, inside⟩ := List.mem_flatMap.mp member
        rw [ended, Tsql.endedOf_eq_map, Node.children, List.mem_cons, List.mem_append] at isChild
        rcases isChild with rfl | added | later
        · exact inFirst node inside
        · rw [addition] at added
          split at added
          · obtain rfl := List.mem_singleton.mp added
            exact terminated_of_plain (plain_leaf 0 0 _) node inside
          · cases added
        · obtain ⟨old, isOld, rfl⟩ := List.mem_map.mp later
          exact inRest old isOld node inside

section Text

variable {source : String} {tree : Tree Kind}

theorem leads_terminated (parsed : Tsql.parse source = .ok tree) (terminated : ∀ node ∈ tree.descendants, Terminated node) :
    Pass.statementTerminator.Leads (Text.lines source) (Text.lines source) := by
  refine Pass.leads_idle parsed ?_
  unfold Visit.runTree
  split
  · next root isRoot =>
    refine run_terminated ?_ _
    rwa [Tree.descendants, isRoot] at terminated
  · rfl

/-- The pass leads to a text that is read as the tree with semicolons. -/
theorem exists_leads_ended (parsed : Tsql.parse source = .ok tree)
    (complete : ∀ node ∈ tree.descendants, Tsql.isDangling node = false) (held : Text.size source ≤ textLimit) :
    ∃ new tree', Pass.statementTerminator.Leads (Text.lines source) (Text.lines new) ∧ Tsql.parse new = .ok tree' ∧
      Punctuated (tree.tokens.map Tsql.face) (tree'.tokens.map Tsql.face) ∧
      tree'.root.map Node.shape = tree.root.map fun root => (ended root).shape := by
  cases isRoot : tree.root with
  | none =>
    have terminated : ∀ node ∈ tree.descendants, Terminated node := by simp [Tree.descendants, isRoot]
    exact ⟨source, tree, leads_terminated parsed terminated, parsed, .refl _, by rw [isRoot]; rfl⟩
  | some root =>
    have orderly : ∀ node ∈ root.descendants, Orderly node := by
      have all := Tsql.parse_orderly parsed
      rwa [Tree.descendants, isRoot] at all
    have remakes : Remakes Punctuated ended (Pass.terminate.run root.height (.ofNode root)) [root] :=
      remakes_run orderly (Nat.le_refl _)
    obtain ⟨e, tokens, walked, quiet, lexed, margins, inserted⟩ := remakes.exists_tokens parsed isRoot held
    obtain ⟨tree', root', parsed', isRoot', shape⟩ := Tsql.parse_ended parsed isRoot complete lexed margins
    obtain ⟨lexed', -, -⟩ := Tsql.parse_tree parsed'
    obtain rfl : tokens = tree'.tokens := Except.ok.inj (lexed.symm.trans lexed')
    have same := (Tsql.parse_tree parsed).2.2
    rw [isRoot] at same
    have faces : tree'.tokens.map Tsql.face = (ended root).tokens.map Tsql.face := by
      have marked := congrArg (List.map Tsql.face) margins
      rw [List.map_map, List.map_map] at marked
      exact marked
    refine ⟨e.buffer.joined, tree', ?_, parsed', by rwa [faces, ← same], by rw [isRoot', Option.map_some, shape]; rfl⟩
    exact Pass.leads_of_rebuild (by rw [Text.unlines_lines, parsed]) (Pass.run_ofVisit walked) quiet

end Text

/-- Statements are ended once and for all, where nothing is missing at their ends. The pass finds nothing to complain
about and inserts nothing but semicolons; its text is read as the tree with a semicolon in every statement that
lacks one, so that none lacks one there, and the pass leaves this text as it is. -/
theorem statements_ended (options : Options) (text : String) (tree : Tree Kind)
    (parsed : Tsql.parse (Buffer.ofText text).joined = .ok tree)
    (complete : ∀ node ∈ tree.descendants, Tsql.isDangling node = false)
    (held : Text.size (Buffer.ofText text).joined ≤ textLimit) :
    ∃ conversion tree', convertWith [.statementTerminator] options text = .ok conversion ∧
      conversion.diagnostics = [] ∧
      Tsql.parse conversion.text = .ok tree' ∧
      Punctuated (tree.tokens.map Tsql.face) (tree'.tokens.map Tsql.face) ∧
      (tree'.root.map Node.shape = tree.root.map fun root => (ended root).shape) ∧
      (∀ node ∈ tree'.descendants, node.kind = .statement → ∀ body ∈ node.child? 0,
        body.kind.takesTerminator = true → ∃ child ∈ node.children, child.kind = .semicolon) ∧
      ∃ again, convertWith [.statementTerminator, .statementTerminator] options text = .ok again ∧
        again.diagnostics = [] ∧ again.lines = conversion.lines := by
  obtain ⟨new, tree', leads, parsed', inserted, shape⟩ := exists_leads_ended parsed complete held
  have terminated : ∀ node ∈ tree'.descendants, Terminated node := by
    intro node member
    cases isRoot' : tree'.root with
    | none => simp [Tree.descendants, isRoot'] at member
    | some root' =>
      rw [isRoot', Option.map_some] at shape
      obtain ⟨root, -, same⟩ := Option.map_eq_some_iff.mp shape.symm
      rw [Tree.descendants, isRoot'] at member
      obtain ⟨other, isBelow, sameShape⟩ := Node.exists_of_shape same.symm member
      exact (terminated_ended root other isBelow).of_shape sameShape
  obtain ⟨conversion, again, ran, quiet, isText, ran', quiet', same⟩ :=
    @exists_settled_conversion .statementTerminator options text new leads (leads_terminated parsed' terminated)
  refine ⟨conversion, tree', ran, quiet, by rw [isText, parsed'], inserted, shape, ?_, again, ran', quiet', same⟩
  intro node member isStatement body isBody
  exact lacksTerminator_eq_false_iff.mp (terminated node member isStatement body isBody)

theorem statements_ended_in_branches :
    ∃ conversion, convertWith [.statementTerminator] {}
        "IF @a = 1 PRINT 'x' -- y\r\nELSE BREAK" = .ok conversion ∧
      conversion.diagnostics = [] ∧
      conversion.text = "IF @a = 1 PRINT 'x'; -- y\nELSE BREAK;" ∧
      ∃ again, convertWith [.statementTerminator, .statementTerminator] {}
          "IF @a = 1 PRINT 'x' -- y\r\nELSE BREAK" = .ok again ∧
        again.diagnostics = [] ∧ again.lines = conversion.lines := by
  have read : ((Tsql.parse (Buffer.ofText
      "IF @a = 1 PRINT 'x' -- y\r\nELSE BREAK").joined).toOption.any fun tree =>
        tree.descendants.all (!Tsql.isDangling ·)) = true := by decide +kernel
  have shown : (convertWith [.statementTerminator] {}
      "IF @a = 1 PRINT 'x' -- y\r\nELSE BREAK").toOption.map (·.text) =
        some "IF @a = 1 PRINT 'x'; -- y\nELSE BREAK;" := by decide +kernel
  cases parsed : Tsql.parse (Buffer.ofText
      "IF @a = 1 PRINT 'x' -- y\r\nELSE BREAK").joined with
  | error e =>
    rw [parsed] at read
    cases read
  | ok tree =>
  have complete : ∀ node ∈ tree.descendants, Tsql.isDangling node = false := by
    rw [parsed] at read
    simpa [Except.toOption] using read
  obtain ⟨conversion, -, ran, quiet, -, -, -, -, again⟩ :=
    statements_ended {} _ tree parsed complete (by decide)
  rw [ran] at shown
  exact ⟨conversion, ran, quiet, Option.some.inj shown, again⟩

end SqlFerry
