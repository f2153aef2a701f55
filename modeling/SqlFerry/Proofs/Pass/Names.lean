import SqlFerry.Conversion
import SqlFerry.Proofs.Editor.Sweep
import SqlFerry.Proofs.Stage
import SqlFerry.Proofs.Text.Words
import SqlFerry.Proofs.Tree.Nodes
import SqlFerry.Proofs.Tsql.Structure

/-! The passes that rename variables and temporary tables are substitutions of tokens. A walk over the
tree comes to every token once and in the order of the text, so that it sweeps over the text; where
it comes to a token that is to be renamed, the token still stands there as it was. -/
namespace SqlFerry

open Tsql (Kind)
open Text (byteLength)

theorem Buffer.lines_joined_ofText (text : String) :
    Text.lines (Buffer.ofText text).joined = (Buffer.ofText text).lines := by
  refine Text.lines_unlines (fun line member => ?_) ?_
  · obtain ⟨_, inText, rfl⟩ := List.mem_map.mp member
    have whole := Text.flat_of_mem_lines inText
    unfold dropReturn
    split
    · rw [String.toList_ofList]
      exact fun inside => whole (List.dropLast_subset _ inside)
    · exact whole
  · simp [ofText, Text.lines, Text.splitOn, Text.pieces_ne_nil]

/-- The text from a position on with new texts in the place of its tokens. Characters are kept up to
the position of the next token. -/
def substitute {κ : Type} (new : Token κ → List Char) :
    Position → List Char → List (Token κ) → List Char
  | _, cs, [] => cs
  | p, cs, token :: tokens =>
    if token.start = p then
      new token ++ substitute new token.stop (cs.drop token.text.toList.length) tokens
    else
      match cs with
      | [] => []
      | c :: cs => c :: substitute new (p.step c) cs (token :: tokens)
termination_by _ cs tokens => cs.length + tokens.length

theorem substitute_token {κ : Type} (new : Token κ → List Char) {p : Position}
    {gap text rest : List Char} {token : Token κ} {tokens : List (Token κ)}
    (start : token.start = p.advance gap) (isText : token.text.toList = text) :
    substitute new p (gap ++ text ++ rest) (token :: tokens) =
      gap ++ new token ++ substitute new (p.advance (gap ++ text)) rest tokens := by
  induction gap generalizing p with
  | nil =>
    have stop : token.stop = p.advance text := by rw [Token.stop, start, isText]; rfl
    have here : token.start = p := start
    rw [substitute.eq_def new p]
    simp [here, stop, isText]
  | cons c gap ih =>
    have later : token.start ≠ p := by
      intro same
      exact absurd (Position.advance_eq_self (start.symm.trans same)) (by simp)
    rw [List.cons_append, List.cons_append, substitute, if_neg later, ih start]
    rfl

/-- A walk that does something at leaves only comes to all tokens in their order. -/
theorem Visit.yields_run {visit : Visit} {holds : List (Token Kind) → Editor → Prop}
    (atLeaf : ∀ recur site id index token rest, site.node = .leaf id index token →
      Yields (holds (token :: rest)) (visit recur site) fun _ => holds rest)
    (atRule : ∀ recur site, site.node.isLeaf = false → Tsql.Fits site.node →
      visit recur site = Visit.children recur site)
    {depth : Nat} {site : Site Kind} (fits : Tsql.AllFit site.node)
    (enough : site.node.height ≤ depth) (rest : List (Token Kind)) :
    Yields (holds (site.node.tokens ++ rest)) (visit.run depth site) fun _ => holds rest := by
  induction depth generalizing site rest with
  | zero => cases node : site.node <;> simp [node, Node.height] at enough
  | succ depth ih =>
    rw [run]
    cases node : site.node with
    | leaf id index token => exact atLeaf _ site id index token rest node
    | rule id kind first others =>
      rw [node] at fits enough
      obtain ⟨root, below⟩ := Tsql.allFit_rule.mp fits
      rw [atRule _ site (by rw [node]; rfl) (by rw [node]; exact root), children]
      have nodes : site.children.map (·.node) = first :: others := by
        rw [Site.children, Site.map_node_row, node]
        rfl
      have tokens : (Node.rule id kind first others).tokens =
          Node.tokensOf (site.children.map (·.node)) := by
        rw [nodes]
        rfl
      rw [tokens]
      refine Yields.forM (fun sites => holds (Node.tokensOf (sites.map (·.node)) ++ rest))
        site.children ?_
      intro child later suffix
      have member : child.node ∈ first :: others := by
        rw [← nodes]
        exact List.mem_map_of_mem (suffix.subset List.mem_cons_self)
      have short : child.node.height ≤ depth := by
        have inside := Node.height_le_heightOf member
        simp only [Node.height, Node.heightOf] at enough inside
        omega
      rw [List.map_cons, Node.tokensOf, List.append_assoc]
      exact ih (below _ member) short _

section Renaming

/-- What is known of the tokens of a text: the source shows them, and those of the kind stand on one
line. -/
structure Known (lines : List String) (kind : Kind) (token : Token Kind) : Prop where
  text : textBetween lines token.start token.stop = token.text
  flat : token.kind = kind → '\n' ∉ token.text.toList

/-- The sweep over a text in front of some tokens, on the way to its result. -/
def Ahead (lines : List String) (kind : Kind) (new : Token Kind → List Char) (result : List Char)
    (tokens : List (Token Kind)) (e : Editor) : Prop :=
  ∃ before cs done, byteLength (before ++ cs) ≤ textLimit ∧ Tsql.Laid before cs tokens ∧
    (∀ token ∈ tokens, Known lines kind token) ∧ Swept before cs done e ∧
    done ++ substitute new (Position.origin.advance before) cs tokens = result

variable {lines : List String} {kind : Kind} {new : Token Kind → List Char} {result : List Char}
  {token : Token Kind} {rest : List (Token Kind)} {e : Editor}

theorem Ahead.cases (ahead : Ahead lines kind new result (token :: rest) e) :
    ∃ before text after done, byteLength (before ++ text ++ after) ≤ textLimit ∧
      token.start = Position.origin.advance before ∧ token.text.toList = text ∧ text ≠ [] ∧
      Known lines kind token ∧ (∀ other ∈ rest, Known lines kind other) ∧
      Swept before (text ++ after) done e ∧ Tsql.Laid (before ++ text) after rest ∧
      done ++ new token ++
        substitute new (Position.origin.advance (before ++ text)) after rest = result := by
  obtain ⟨before, cs, done, fits, laid, known, swept, whole⟩ := ahead
  cases laid with
  | @token _ gap text after _ _ isGap visible laid =>
    have start : Position.mk (1 + (before ++ gap).count '\n')
        (byteLength (Text.lastLine (before ++ gap))) = Position.origin.advance (before ++ gap) :=
      (Position.advance_origin _).symm
    have inside : textLimit ≤ columnLimit := by decide
    simp only [Text.byteLength_append] at fits
    refine ⟨before ++ gap, text, after, done ++ gap, ?_, start, String.toList_ofList, visible,
      known _ List.mem_cons_self, fun other later => known other (List.mem_cons_of_mem _ later),
      ?_, laid, ?_⟩
    · simp only [Text.byteLength_append]
      omega
    · rw [List.append_assoc] at swept
      exact swept.skipAll (by simp only [Text.byteLength_append]; omega)
    · rw [← whole, substitute_token new _ String.toList_ofList]
      · simp [Position.advance_append]
      · rw [← Position.advance_append]
        exact start

theorem Ahead.keep (ahead : Ahead lines kind new result (token :: rest) e)
    (same : new token = token.text.toList) : Ahead lines kind new result rest e := by
  obtain ⟨before, text, after, done, fits, start, isText, visible, -, known, swept, laid, whole⟩ :=
    ahead.cases
  have inside : textLimit ≤ columnLimit := by decide
  refine ⟨before ++ text, after, done ++ text, fits, laid, known, ?_, ?_⟩
  · apply swept.skipAll
    simp only [Text.byteLength_append] at fits ⊢
    omega
  · rw [← whole, same, isText]

theorem Ahead.over (ahead : Ahead lines kind new result [] e) :
    e.buffer.joined = .ofList result ∧ e.diagnostics = [] := by
  obtain ⟨before, cs, done, fits, -, -, swept, rfl⟩ := ahead
  have inside : textLimit ≤ columnLimit := by decide
  rw [Text.byteLength_append] at fits
  have all : Swept (before ++ cs) [] (done ++ cs) e :=
    Swept.skipAll (by rwa [List.append_nil]) (by rw [List.append_nil]; omega)
  obtain ⟨front, shown, first, others, -, -, -, l, -, -, notes⟩ := swept
  exact ⟨by rw [all.joined, substitute], notes⟩

theorem Ahead.replace {tree : Tree Kind} {text : String} (isLines : tree.lines = lines)
    (isKind : token.kind = kind) (isNew : new token = text.toList)
    (fits : byteLength result ≤ textLimit) (id index : Nat) :
    Yields (Ahead lines kind new result (token :: rest))
      (discard (Edit.replaceUntouched tree (.leaf id index token) text))
      fun _ => Ahead lines kind new result rest := by
  intro e ahead
  obtain ⟨before, old, after, done, held, start, isText, visible, known, others, swept, laid, whole⟩ :=
    ahead.cases
  have flat : '\n' ∉ old := isText ▸ known.flat isKind
  have stop : token.stop = (Position.origin.advance before).advance old := by
    rw [Token.stop, start, isText]
  have untouched : e.isUntouched tree (.leaf id index token) = true := by
    have source : tree.text (.leaf id index token) = token.text := by
      rw [Tree.text, isLines]
      exact known.text
    have current : e.textOf (.leaf id index token) = .ofList old := by
      change e.textSpan token.start token.stop = _
      rw [start, stop, swept.textSpan flat]
    rw [Editor.isUntouched, source, current, ← isText, String.ofList_toList, beq_self_eq_true]
  have room : byteLength done + Text.size text + byteLength after ≤ columnLimit := by
    have limits : textLimit + textLimit ≤ columnLimit := by decide
    have size : Text.size text = byteLength (new token) := by rw [isNew, Text.size]
    rw [← whole] at fits
    simp only [Text.byteLength_append] at fits held
    omega
  have first : (Node.leaf id index token).start =
      ⟨(Position.origin.advance before).line, (Position.origin.advance before).column⟩ := start
  have last : (Node.leaf id index token).stop = ⟨(Position.origin.advance before).line,
      (Position.origin.advance before).column + byteLength old⟩ :=
    stop.trans (Position.advance_of_no_line_end _ flat)
  have replaced := swept.replace flat visible room
  rw [← Edit.replaceNode_eq first last] at replaced
  have careful : Yields (· = e) (discard (Edit.replaceUntouched tree (.leaf id index token) text))
      fun _ => Swept (before ++ old) after (done ++ text.toList) :=
    yields_replaceUntouched (by rintro _ rfl; exact untouched) replaced
  obtain ⟨_, e', ran, swept'⟩ := careful e rfl
  exact ⟨_, e', ran, before ++ old, after, done ++ text.toList, held, laid, others, swept',
    by rw [← whole, isNew]⟩

end Renaming

/-- What stands in the place of a token when those of a kind are renamed. -/
def newText (kind : Kind) (rename : String → String) (token : Token Kind) : List Char :=
  if token.kind = kind then (rename token.text).toList else token.text.toList

/-- The source with the tokens of a kind renamed and all else unchanged. -/
def renamed (kind : Kind) (rename : String → String) (source : String)
    (tokens : List (Token Kind)) : String :=
  .ofList (substitute (newText kind rename) .origin source.toList tokens)

section Passes

variable {kind : Kind} {rename : Context → String → String} {visit : Context → Visit}

/-- A pass that renames the tokens of a kind. -/
structure Renames (kind : Kind) (rename : Context → String → String) (visit : Context → Visit) :
    Prop where
  named : kind = .userVariable ∨ kind = .tempTable
  here : ∀ ctx recur site, site.kind = kind →
    visit ctx recur site = ctx.replaceUntouched site.node (rename ctx (ctx.text site.node))
  elsewhere : ∀ ctx recur site, site.kind ≠ kind → visit ctx recur site = Visit.children recur site

theorem renames_variables :
    Renames .userVariable Context.variableName Pass.renameVariables where
  named := .inl rfl
  here ctx recur site isKind := by rw [Pass.renameVariables, isKind]; rfl
  elsewhere ctx recur site other := by
    unfold Pass.renameVariables
    split
    · next isKind => exact absurd isKind other
    · rfl

theorem renames_tables : Renames .tempTable Context.tempTableName Pass.renameTempTables where
  named := .inr rfl
  here ctx recur site isKind := by rw [Pass.renameTempTables, isKind]; rfl
  elsewhere ctx recur site other := by
    unfold Pass.renameTempTables
    split
    · next isKind => exact absurd isKind other
    · rfl

theorem Renames.known (renames : Renames kind rename visit) {source : String}
    {tokens : List (Token Kind)} (lexed : Tsql.lex source = .ok tokens) :
    ∀ token ∈ tokens, Known (Text.lines source) kind token := by
  intro token member
  have laid : Tsql.Laid [] source.toList tokens := Tsql.laid_lexFrom lexed
  refine ⟨laid.textBetween token member, fun isKind => ?_⟩
  obtain ⟨c, rest, n, found, text⟩ := Tsql.mem_lexFrom lexed token member
  rw [text]
  exact Tsql.flat_of_tokenPiece found (isKind ▸ renames.named)

theorem Renames.ne_kind (renames : Renames kind rename visit) {node : Node Kind}
    (isRule : node.isLeaf = false) (fits : Tsql.Fits node) : node.kind ≠ kind := by
  cases node with
  | leaf => cases isRule
  | rule id other first rest =>
    rintro rfl
    have notToken : other.isToken = false := fits.1
    rcases renames.named with rfl | rfl <;> cases notToken

theorem Renames.yields_leaf (renames : Renames kind rename visit) (ctx : Context)
    {result : List Char} (heldResult : byteLength result ≤ textLimit)
    (recur : Site Kind → Edit Unit) (site : Site Kind) (id index : Nat) (token : Token Kind)
    (rest : List (Token Kind)) (node : site.node = .leaf id index token) :
    Yields (Ahead ctx.tree.lines kind (newText kind (rename ctx)) result (token :: rest))
      (visit ctx recur site)
      fun _ => Ahead ctx.tree.lines kind (newText kind (rename ctx)) result rest := by
  have siteKind : site.kind = token.kind := by rw [Site.kind, node]; rfl
  by_cases isKind : token.kind = kind
  · intro e ahead
    obtain ⟨_, _, _, _, -, -, -, -, known, -⟩ := ahead.cases
    have text : ctx.text site.node = token.text := by
      rw [node]
      exact known.text
    rw [renames.here ctx recur site (siteKind.trans isKind), text, node]
    exact Ahead.replace rfl isKind (by rw [newText, if_pos isKind]) heldResult id index e ahead
  · rw [renames.elsewhere ctx recur site (siteKind ▸ isKind), Visit.children, Site.children, node]
    exact Yields.pure fun e ahead => ahead.keep (by rw [newText, if_neg isKind])

/-- The walk of a renaming pass over a tree. -/
theorem Renames.yields_walk (renames : Renames kind rename visit) {source : String} (ctx : Context)
    (parsed : Tsql.parse source = .ok ctx.tree) (held : Text.size source ≤ textLimit)
    (heldResult : Text.size (renamed kind (rename ctx) source ctx.tree.tokens) ≤ textLimit) :
    Yields (· = Editor.ofLines (Text.lines source)) ((visit ctx).runTree ctx.tree) fun _ e =>
      e.buffer.joined = renamed kind (rename ctx) source ctx.tree.tokens ∧ e.diagnostics = [] := by
  obtain ⟨lexed, lines, root⟩ := Tsql.parse_tree parsed
  have fits := Tsql.parse_allFit parsed
  generalize isResult : renamed kind (rename ctx) source ctx.tree.tokens = result at heldResult ⊢
  have start : Ahead ctx.tree.lines kind (newText kind (rename ctx)) result.toList ctx.tree.tokens
      (.ofLines (Text.lines source)) := by
    refine ⟨[], source.toList, [], held, Tsql.laid_lexFrom lexed, lines ▸ renames.known lexed,
      .ofLines source (Nat.le_trans held (by decide)), ?_⟩
    rw [← isResult, renamed, String.toList_ofList]
    rfl
  have walk : Yields
      (Ahead ctx.tree.lines kind (newText kind (rename ctx)) result.toList ctx.tree.tokens)
      ((visit ctx).runTree ctx.tree)
      fun _ => Ahead ctx.tree.lines kind (newText kind (rename ctx)) result.toList [] := by
    unfold Visit.runTree
    split
    · next node isRoot =>
      rw [isRoot] at root
      rw [← root, ← List.append_nil node.tokens]
      have all : Tsql.AllFit (Site.ofNode node).node := by
        intro below member
        exact fits below (by rw [Tree.descendants, isRoot]; exact member)
      refine Visit.yields_run (renames.yields_leaf ctx heldResult) ?_ all (Nat.le_refl _) []
      intro recur site isRule fit
      exact renames.elsewhere ctx recur site (renames.ne_kind isRule fit)
    · next isRoot =>
      rw [isRoot] at root
      rw [root]
      exact Yields.pure fun _ h => h
  refine walk.weaken ?_ ?_
  · rintro _ rfl
    exact start
  · rintro - e ahead
    obtain ⟨joined, notes⟩ := ahead.over
    exact ⟨by simpa using joined, notes⟩

theorem Renames.session (renames : Renames kind rename visit) (name : String) (options : Options)
    {text : String} {tree : Tree Kind}
    (parsed : Tsql.parse (Buffer.ofText text).joined = .ok tree)
    (held : Text.size (Buffer.ofText text).joined ≤ textLimit)
    (heldResult : Text.size (renamed kind (rename (.ofTree options tree)) (Buffer.ofText text).joined
      tree.tokens) ≤ textLimit) :
    ∃ session, (Session.ofText text).run [.ofVisit name fun tree => visit (.ofTree options tree)] =
        .ok session ∧ session.diagnostics = [] ∧ Text.unlines session.contents =
          renamed kind (rename (.ofTree options tree)) (Buffer.ofText text).joined tree.tokens := by
  have walk : Yields (· = Editor.ofText text) ((visit (.ofTree options tree)).runTree tree)
      fun _ e => e.buffer.joined = renamed kind (rename (.ofTree options tree))
        (Buffer.ofText text).joined tree.tokens ∧ e.diagnostics = [] := by
    have walk := renames.yields_walk (.ofTree options tree) parsed held heldResult
    rw [Buffer.lines_joined_ofText] at walk
    exact walk
  obtain ⟨_, e, ran, joined, notes⟩ := walk _ rfl
  have source : (Editor.ofText text).buffer.joined = (Buffer.ofText text).joined := rfl
  have read : (Snapshot.ofText text).tree = .ok tree := by
    simp only [Snapshot.tree, Snapshot.ofText, source, parsed]
  have passed : ((Pass.ofVisit name fun tree => visit (.ofTree options tree)).run tree).run
      (Editor.ofText text) = .ok .rebuild e := by
    rw [Pass.ofVisit, EStateM.run_bind, ran]
    rfl
  have stage := Stage.run_of_rebuild read passed
  have handedOn : (Editor.ofLines e.contents).contents = e.contents := by
    simp [Editor.contents, Editor.ofLines, Buffer.resplit, Buffer.joined, Text.unlines_lines]
  refine ⟨_, congrArg (· >>= _ >>= _) stage, ?_, ?_⟩
  · simp [notes, Session.ofText]
  · change Text.unlines (Editor.ofLines e.contents).contents = _
    rw [handedOn, ← joined]
    exact Text.unlines_lines _

end Passes

def variablesRenamed (options : Options) (tree : Tree Kind) (source : String) : String :=
  renamed .userVariable
    (fun name => variableName options ((Tsql.Declarations.ofTree tree).isParameter name) name)
    source tree.tokens

def tablesRenamed (options : Options) (tree : Tree Kind) (source : String) : String :=
  renamed .tempTable (tempTableName options) source tree.tokens

/-- Renaming is a substitution of tokens: the passes find nothing to complain about, and the text that
they give has new names in the place of the variables, or of the temporary tables, and is otherwise
unchanged. -/
theorem renaming_substitutes_tokens (options : Options) (text : String) (tree : Tree Kind)
    (parsed : Tsql.parse (Buffer.ofText text).joined = .ok tree)
    (held : Text.size (Buffer.ofText text).joined ≤ textLimit) :
    (Text.size (variablesRenamed options tree (Buffer.ofText text).joined) ≤ textLimit →
      ∃ conversion, convertWith [.variableNames] options text = .ok conversion ∧
        conversion.diagnostics = [] ∧
        conversion.text = variablesRenamed options tree (Buffer.ofText text).joined) ∧
    (Text.size (tablesRenamed options tree (Buffer.ofText text).joined) ≤ textLimit →
      ∃ conversion, convertWith [.tableNames] options text = .ok conversion ∧
        conversion.diagnostics = [] ∧
        conversion.text = tablesRenamed options tree (Buffer.ofText text).joined) := by
  constructor
  · intro heldResult
    obtain ⟨session, ran, notes, contents⟩ :=
      renames_variables.session "variable-names" options parsed held heldResult
    refine ⟨⟨session.contents, session.diagnostics, session.reports⟩, ?_, notes, contents⟩
    rw [convertWith, List.map_singleton]
    exact congrArg (· >>= _) ran
  · intro heldResult
    obtain ⟨session, ran, notes, contents⟩ :=
      renames_tables.session "table-names" options parsed held heldResult
    refine ⟨⟨session.contents, session.diagnostics, session.reports⟩, ?_, notes, contents⟩
    rw [convertWith, List.map_singleton]
    exact congrArg (· >>= _) ran

theorem renaming_over_lines :
    (∃ conversion, convertWith [.variableNames] {} "PRINT @a\r\nSELECT @A + 1 INTO #t -- @a" =
        .ok conversion ∧ conversion.diagnostics = [] ∧
        conversion.text = "PRINT _vA\nSELECT _vA + 1 INTO #t -- @a") ∧
    ∃ conversion, convertWith [.tableNames] {} "PRINT @a\r\nSELECT @A + 1 INTO #t -- @a" =
        .ok conversion ∧ conversion.diagnostics = [] ∧
        conversion.text = "PRINT @a\nSELECT @A + 1 INTO _tmpT -- @a" := by
  have source : (Buffer.ofText "PRINT @a\r\nSELECT @A + 1 INTO #t -- @a").joined =
      "PRINT @a\nSELECT @A + 1 INTO #t -- @a" := by with_unfolding_all rfl
  have lexed : Tsql.lex "PRINT @a\nSELECT @A + 1 INTO #t -- @a" = .ok [⟨.keyword, "PRINT", 1, 0⟩,
      ⟨.userVariable, "@a", 1, 6⟩, ⟨.keyword, "SELECT", 2, 0⟩, ⟨.userVariable, "@A", 2, 7⟩,
      ⟨.plus, "+", 2, 10⟩, ⟨.numberLiteral, "1", 2, 12⟩, ⟨.keyword, "INTO", 2, 14⟩,
      ⟨.tempTable, "#t", 2, 19⟩] := by with_unfolding_all rfl
  obtain ⟨tree, parsed, inVariables, inTables⟩ : ∃ tree,
      Tsql.parse "PRINT @a\nSELECT @A + 1 INTO #t -- @a" = .ok tree ∧
      variablesRenamed {} tree "PRINT @a\nSELECT @A + 1 INTO #t -- @a" =
        "PRINT _vA\nSELECT _vA + 1 INTO #t -- @a" ∧
      tablesRenamed {} tree "PRINT @a\nSELECT @A + 1 INTO #t -- @a" =
        "PRINT @a\nSELECT @A + 1 INTO _tmpT -- @a" :=
    ⟨_, congrArg (· >>= Tsql.parseTokens "PRINT @a\nSELECT @A + 1 INTO #t -- @a") lexed,
      by with_unfolding_all rfl, by with_unfolding_all rfl⟩
  have both := renaming_substitutes_tokens {} "PRINT @a\r\nSELECT @A + 1 INTO #t -- @a" tree
    (by rw [source]; exact parsed) (by rw [source]; decide)
  rw [source, inVariables, inTables] at both
  exact ⟨both.1 (by decide), both.2 (by decide)⟩

end SqlFerry
