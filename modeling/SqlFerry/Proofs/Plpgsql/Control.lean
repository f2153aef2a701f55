import SqlFerry.Plpgsql.Converter
import SqlFerry.Proofs.Pass.Walk
import SqlFerry.Proofs.Tree.Sites
import SqlFerry.Proofs.Tsql.Program

/-! Converting control flow. Statements are converted inside of a line that has begun, and behind a
blank; branches and loops put their closing words behind everything inside of them. -/
namespace SqlFerry

open Text (byteLength)
open Tsql (Kind Form Forms Code Guard Variable Word keyword space)

/-- The text of a line that has begun. -/
def Begun (text : List Char) : Prop := ∃ c rest, text = c :: rest ∧ Text.isIndent c = false

/-- The text in front of a new word. -/
structure Ready (text : List Char) : Prop where
  begun : Begun text
  loose : EndsLoose text

theorem Begun.append {text : List Char} (begun : Begun text) (more : List Char) :
    Begun (text ++ more) := by
  obtain ⟨c, rest, rfl, tight⟩ := begun
  exact ⟨c, rest ++ more, rfl, tight⟩

theorem endsLoose_space (text : List Char) : EndsLoose (text ++ space) := by
  simp [EndsLoose, space]
  decide

theorem Begun.ready {text : List Char} (begun : Begun text) : Ready (text ++ space) :=
  ⟨begun.append space, endsLoose_space text⟩

theorem Begun.word {text : List Char} (begun : Begun text) (word : List Char) :
    Ready (text ++ (word ++ space)) := by
  rw [← List.append_assoc]
  exact (begun.append word).ready

section Lines

variable {page : Page} {behind : List Char → Prop} {column : Nat} {text new : List Char}
  {node : Node Kind} {edit : Edit Unit}

theorem Page.Shows.indentationOf {front back : List Patch} {e : Editor}
    (shown : page.Shows (front ++ back) e) (begun : Begun (Patch.textOf front))
    (isLine : node.start.line = page.number) : e.indentationOf node = "" := by
  obtain ⟨l, holds, patched, -⟩ := shown
  obtain ⟨c, rest, starts, tight⟩ := begun
  have isText : l.text.toList = c :: (rest ++ Patch.textOf back) := by
    rw [patched.text, Patch.textOf_append, starts, List.cons_append]
  have present : row? e.texts page.number = some l.text := (Editor.row?_lines_iff.mp (row?_number holds)).1
  rw [Editor.indentationOf, isLine, present]
  simp [Text.indentation, isText, tight]

/-- Text that is put on a new line behind the stretch once it is turned. On a line that has begun there
is no indentation to repeat. -/
theorem TurnsIn.insertLine (turns : TurnsIn page Ready behind column text edit new)
    (visible : new ≠ []) (isLine : node.start.line = page.number) (more : String) :
    TurnsIn page Ready behind column text
      (edit >>= fun _ => get >>= fun e => Edit.insert page.number (column + byteLength text)
        ("\n" ++ e.indentationOf node ++ more))
      (new ++ ("\n" ++ more).toList) := by
  intro front back start ready passes fits
  have inserted {shown : List Char} (visible : shown ≠ []) (line : String) :
      Rewrites page Ready behind (byteLength text + byteLength (shown ++ line.toList)) column
        [.made (byteLength text) shown] (Edit.insert page.number (column + byteLength text) line)
        [.made (byteLength text) (shown ++ line.toList)] := by
    have size : byteLength line.toList = Text.size line := rfl
    have here := @Rewrites.insert page Ready behind (byteLength text + byteLength (shown ++ line.toList))
      column [.made (byteLength text) shown] (by simpa using visible) line (by simp; omega)
    simpa using here
  have first := Rewrites.weaken turns (fun _ h => h) (fun _ h => h)
    (show _ ≤ byteLength text + byteLength (new ++ ("\n" ++ more).toList) by simp) front back start ready
    passes fits
  refine first.bind fun _ => Yields.get fun e shown => ?_
  have none : e.indentationOf node = "" :=
    Page.Shows.indentationOf (by simpa using shown) ready.begun isLine
  rw [none, String.append_empty]
  refine Yields.of_imp (inserted visible ("\n" ++ more) front back start ready passes fits) ?_
  rintro _ rfl
  exact shown

end Lines

namespace Tsql

theorem Word.startsTight {w : String} (word : Word w) (tight : w.toList.all (!Text.isIndent ·) = true)
    (more : List Char) : StartsTight (word.1.text.toList ++ more) := by
  have all : ∀ c ∈ word.1.text.toList, (!Text.isIndent c) = true :=
    Text.all_of_sameWord (by decide) word.sameWord tight
  cases text : word.1.text.toList with
  | nil => exact absurd text word.1.visible
  | cons c cs => simpa [StartsTight] using all c (by simp [text])

/-! ### The converted text -/

variable (rename : String → String)

def Variable.target (v : Variable) : List Char := (rename v.1.text).toList

/-- A jump by its word, of which only that out of a loop has another one. -/
def Jump.target (text : String) : Jump → String
  | leave => "EXIT"
  | finish | again => text

def Simple.target : Simple → List Char
  | print _ value => "RAISE NOTICE '%',".toList ++ space ++ value.1.text.toList
  | assign _ name value => name.target rename ++ space ++ ":=".toList ++ space ++ value.1.text.toList
  | jump j word => (j.target word.1.text).toList

def Guard.target (g : Guard) : List Char :=
  '(' :: g.name.target rename ++ space ++ g.op.1.text.toList ++ space ++ g.value.1.text.toList ++ [')']

mutual

/-- A statement with its semicolon. The closing words of a branch or a loop stand in the place of `END`,
or on a line of their own. -/
def Code.target : Code → List Char
  | .simple s => s.target rename ++ [';']
  | .when word g yes => word.1.text.toList ++ space ++ g.target rename ++ " THEN".toList ++ space ++ (match yes with
      | .block _ body _ => Code.targets body ++ "END IF;".toList
      | other => other.target ++ ("\n" ++ "END IF;").toList)
  | .choose word g yes otherwise no => word.1.text.toList ++ space ++ g.target rename ++ " THEN".toList ++ space ++
      (match yes with
      | .block _ body _ => Code.targets body
      | other => other.target ++ space) ++ otherwise.1.text.toList ++ space ++ (match no with
      | .block _ body _ => Code.targets body ++ "END IF;".toList
      | other => other.target ++ ("\n" ++ "END IF;").toList)
  | .loop word g body => word.1.text.toList ++ space ++ g.target rename ++ " LOOP".toList ++ space ++
      (match body with
      | .block _ body _ => Code.targets body ++ "END LOOP;".toList
      | other => other.target ++ ("\n" ++ "END LOOP;").toList)
  | .block first body last => first.1.text.toList ++ space ++ Code.targets body ++ (last.1.text.toList ++ [';'])

def Code.targets : List Code → List Char
  | [] => []
  | s :: ss => s.target ++ space ++ Code.targets ss

end

def Code.isBlock : Code → Bool
  | .block _ _ _ => true
  | _ => false

/-- A branch with another one behind it. -/
def Code.middle : Code → List Char
  | .block _ body _ => Code.targets rename body
  | s => s.target rename ++ space

/-- The last branch without the closing words on a line of their own. -/
def Code.last (closer : String) : Code → List Char
  | .block _ body _ => Code.targets rename body ++ closer.toList
  | s => s.target rename

def Code.closed (closer : String) : Code → List Char
  | .block _ body _ => Code.targets rename body ++ closer.toList
  | s => s.target rename ++ ("\n" ++ closer).toList

theorem Code.middle_other {s : Code} (other : s.isBlock = false) :
    s.middle rename = s.target rename ++ space := by
  cases s with
  | block => cases other
  | _ => rfl

theorem Code.last_other {s : Code} (other : s.isBlock = false) (closer : String) :
    s.last rename closer = s.target rename := by
  cases s with
  | block => cases other
  | _ => rfl

theorem Code.closed_other {s : Code} (other : s.isBlock = false) (closer : String) :
    s.closed rename closer = s.target rename ++ ("\n" ++ closer).toList := by
  cases s with
  | block => cases other
  | _ => rfl

theorem Code.exists_block {s : Code} (isBlock : s.isBlock = true) :
    ∃ first body last, s = .block first body last := by
  cases s <;> first | exact ⟨_, _, _, rfl⟩ | cases isBlock

theorem Simple.target_print (word : Word "PRINT") (value : Integer) : (print word value).target rename =
    "RAISE NOTICE '%',".toList ++ space ++ value.1.text.toList := rfl

theorem Simple.target_assign (word : Word "SET") (name : Variable) (value : Integer) :
    (assign word name value).target rename =
      name.target rename ++ space ++ ":=".toList ++ space ++ value.1.text.toList := rfl

theorem Code.target_simple (s : Simple) : Code.target rename (.simple s) = s.target rename ++ [';'] := rfl

theorem Code.target_block (first : Word "BEGIN") (body : List Code) (last : Word "END") :
    Code.target rename (.block first body last) =
      first.1.text.toList ++ space ++ Code.targets rename body ++ (last.1.text.toList ++ [';']) := rfl

theorem Code.targets_cons (s : Code) (ss : List Code) : Code.targets rename (s :: ss) =
    s.target rename ++ space ++ Code.targets rename ss := rfl

theorem Code.target_when (word : Word "IF") (g : Guard) (yes : Code) : Code.target rename (.when word g yes) =
    word.1.text.toList ++ space ++ g.target rename ++ " THEN".toList ++ space ++ yes.closed rename "END IF;" := by
  cases yes <;> rfl

theorem Code.target_choose (word : Word "IF") (g : Guard) (yes : Code) (other : Word "ELSE") (no : Code) :
    Code.target rename (.choose word g yes other no) =
      word.1.text.toList ++ space ++ g.target rename ++ " THEN".toList ++ space ++ yes.middle rename ++
        other.1.text.toList ++ space ++ no.closed rename "END IF;" := by
  cases yes <;> cases no <;> rfl

theorem Code.target_loop (word : Word "WHILE") (g : Guard) (body : Code) :
    Code.target rename (.loop word g body) =
      word.1.text.toList ++ space ++ g.target rename ++ " LOOP".toList ++ space ++
        body.closed rename "END LOOP;" := by
  cases body <;> rfl

end Tsql

namespace Plpgsql

/-- The kinds of nodes where nothing is done but below them. -/
def passedKinds : List Kind := [
  .keyword, .identifier, .numberLiteral, .stringLiteral, .leftParen, .rightParen, .semicolon, .equals, .notEquals, .less,
  .greater, .lessEquals, .greaterEquals, .comparisonExpression, .parenExpression, .qualifiedName,
  .continueStatement, .statement, .compileUnit]

variable {ctx : Context} {page : Page} {column : Nat} {recur : Site Kind → Edit Unit} {site : Site Kind}

theorem convert_passes {kind : Kind} (passed : kind ∈ passedKinds) : (convert ctx).Passes kind := by
  intro recur site isKind
  rw [convert, isKind]
  simp only [passedKinds, List.mem_cons, List.not_mem_nil, or_false] at passed
  rcases passed with rfl | rfl | rfl | rfl | rfl | rfl | rfl | rfl | rfl | rfl | rfl | rfl | rfl | rfl | rfl |
    rfl | rfl | rfl | rfl <;> rfl

theorem recur_leaf {kind : Kind} {text : String} (passed : kind ∈ passedKinds)
    (reaches : (convert ctx).Reaches site.node recur)
    (fills : (Form.leaf kind text).Fills page.number column site.node) : recur site = pure () := by
  obtain ⟨below, rfl, -⟩ := reaches.step
  rw [convert_passes passed below site fills.kind]
  obtain ⟨id, index, token, isNode, -, -⟩ := fills
  rw [Visit.children, Site.children, isNode]
  rfl

theorem recur_passed {kind : Kind} (passed : kind ∈ passedKinds) (isKind : site.node.kind = kind)
    (reaches : (convert ctx).Reaches site.node recur) :
    ∃ below, recur site = Visit.children below site ∧
      ∀ child ∈ site.node.children, (convert ctx).Reaches child below := by
  obtain ⟨below, rfl, inside⟩ := reaches.step
  exact ⟨below, convert_passes passed below site isKind, inside⟩

theorem turns_variable (v : Variable) (reaches : (convert ctx).Reaches site.node recur)
    (fills : v.1.form.Fills page.number column site.node)
    (prints : Prints ctx.tree.lines page.number column v.1.text.toList) :
    Turns page column v.1.text.toList (recur site) (v.target ctx.variableName) := by
  obtain ⟨below, rfl, -⟩ := reaches.step
  have isSite : site.kind = .userVariable := fills.kind.trans v.kind
  have source : ctx.text site.node = v.1.text := by
    rw [Context.text, prints.treeText fills.spans, String.ofList_toList]
  rw [convert, isSite]
  simp only [Context.renameVariable, source]
  exact Turns.replaceUntouched prints fills.spans _

section Simple

open Tsql (Simple Integer Jump)

theorem turns_print (word : Word "PRINT") (value : Integer)
    (reaches : (convert ctx).Reaches site.node recur)
    (fills : (Simple.print word value).form.Fills page.number column site.node) :
    Turns page column (Simple.print word value).form.text (recur site)
      ((Simple.print word value).target ctx.variableName) := by
  obtain ⟨below, rfl, inside⟩ := reaches.step
  have isSite : site.kind = .print := fills.kind
  obtain ⟨id, first, _, isNode, atWord, number, _, rfl, atNumber, rfl⟩ := fills
  rw [isNode] at inside
  have atFirst : below ⟨first, site.node :: site.ancestors, none, some number⟩ = pure () :=
    recur_leaf (by decide) (inside _ (by simp [Node.children])) atWord
  have atSecond : below ⟨number, site.node :: site.ancestors, some first, none⟩ = pure () :=
    recur_leaf (by rw [value.kind]; decide) (inside _ (by simp [Node.children])) atNumber
  have edit : convert ctx below site = Edit.replaceToken first.startToken "RAISE NOTICE '%'," := by
    rw [convert, isSite]
    simp only [convertPrint, Visit.children, Site.children, isNode, Node.children, Site.row]
    rw [isNode] at atFirst atSecond
    simp [atFirst, atSecond, Node.startToken]
  obtain ⟨_, _, token, rfl, -, on⟩ := atWord
  have whole := (Turns.replaceToken on "RAISE NOTICE '%',").append
    (Turns.keep page _ (space ++ value.1.text.toList))
  rw [edit, Simple.target_print]
  simpa [Simple.form, Tsql.Lexeme.form, Form.text, Forms.text, Node.startToken] using whole

theorem turns_assign (set : Word "SET") (name : Variable) (value : Integer)
    (reaches : (convert ctx).Reaches site.node recur)
    (fills : (Simple.assign set name value).form.Fills page.number column site.node)
    (prints : Prints ctx.tree.lines page.number column (Simple.assign set name value).form.text) :
    TurnsIn page Ready AnyText column (Simple.assign set name value).form.text (recur site)
      ((Simple.assign set name value).target ctx.variableName) := by
  obtain ⟨below, rfl, inside⟩ := reaches.step
  have isSite : site.kind = .setVariable := fills.kind
  obtain ⟨id, word, _, isNode, atWord, renamed, _, rfl, atVariable, equals, _, rfl, atEquals, number, _, rfl,
    atNumber, rfl⟩ := fills
  rw [isNode] at inside
  have text : (Simple.assign set name value).form.text = set.1.text.toList ++ space ++ (name.1.text.toList ++
      (space ++ ("=".toList ++ (space ++ value.1.text.toList)))) := by
    simp [Simple.form, Tsql.Lexeme.form, Form.text, Forms.text]
  rw [text] at prints ⊢
  let place : Site Kind := ⟨renamed, site.node :: site.ancestors, some word, some equals⟩
  have atPlace : name.1.form.Fills page.number (column + byteLength (set.1.text.toList ++ space)) place.node := by
    rw [Text.byteLength_append, ← Nat.add_assoc]
    exact atVariable
  have atSign : equals.Spans page.number (column + byteLength (set.1.text.toList ++ space) +
      byteLength name.1.text.toList + byteLength space) "=".toList := by
    rw [Text.byteLength_append, ← Nat.add_assoc column]
    exact atEquals.spans
  have atFourth : below ⟨number, site.node :: site.ancestors, some equals, none⟩ = pure () :=
    recur_leaf (by rw [value.kind]; decide) (inside _ (by simp [Node.children])) atNumber
  have edit : convert ctx below site = Edit.removeToken word.startToken >>= fun _ =>
      below place >>= fun _ => Edit.replaceNode equals ":=" := by
    have noCount : ¬(number.kind = .systemVariable ∧
        Text.sameWord (ctx.text number) "@@ROWCOUNT" = true) := by
      rw [atNumber.kind]
      simp [Tsql.Lexeme.form, Form.kind, value.kind]
    rw [convert, isSite]
    simp only [place]
    rw [isNode] at atFourth ⊢
    simp [convertSetVariable, Site.children, isNode, Node.children, Site.row, Site.kind, noCount, atFourth]
  have renames := turns_variable name (inside renamed (by simp [Node.children])) atPlace prints.back.front
  have assigns := (Turns.keep page _ space).append ((Turns.replaceNode atSign ":=").append
    (Turns.keep page _ (space ++ value.1.text.toList)))
  obtain ⟨_, _, token, rfl, -, on⟩ := atWord
  have removes : TurnsIn page Ready StartsTight column (set.1.text.toList ++ space)
      (Edit.removeToken token) [] :=
    (Turns.removeToken on Tsql.isIndent_space).weaken (fun _ ready => ready.loose) fun _ tight => tight
  have tight : ∀ behind, AnyText behind → StartsTight (name.1.text.toList ++ (space ++ ("=".toList ++
      (space ++ value.1.text.toList))) ++ behind) := by
    intro behind _
    obtain ⟨rest, isName, -⟩ := name.text
    rw [isName]
    simp [StartsTight, Text.isIndent]
  have whole := removes.append (turns_iff.mp (renames.append assigns)) (fun _ _ => trivial) tight
  rw [edit, Simple.target_assign]
  simpa [Node.startToken] using whole

theorem turns_jump (j : Jump) (word : Word j.word) (reaches : (convert ctx).Reaches site.node recur)
    (fills : (Simple.jump j word).form.Fills page.number column site.node) :
    Turns page column (Simple.jump j word).form.text (recur site)
      ((Simple.jump j word).target ctx.variableName) := by
  obtain ⟨below, rfl, inside⟩ := reaches.step
  have isSite : site.kind = j.kind := fills.kind
  obtain ⟨id, node, _, isNode, atWord, rfl⟩ := fills
  rw [isNode] at inside
  have atFirst : below ⟨node, site.node :: site.ancestors, none, none⟩ = pure () :=
    recur_leaf (by decide) (inside _ (by simp [Node.children])) atWord
  have children : Visit.children below site = pure () := by
    rw [Visit.children, Site.children, isNode]
    rw [isNode] at atFirst
    simp [Node.children, Site.row, atFirst]
  have text : (Simple.jump j word).form.text = word.1.text.toList := by
    simp [Simple.form, Form.text, Forms.text]
  rw [text, convert, isSite]
  cases j with
  | finish =>
    have noValue : site.child? 1 = none := by
      rw [Site.child?, Site.children, isNode]
      rfl
    simp only [Jump.kind, convertReturn, noValue, children]
    exact Turns.keep page column _
  | leave =>
    obtain ⟨_, _, token, rfl, -, on⟩ := atWord
    simp only [Jump.kind, isNode, Node.startToken]
    exact Turns.replaceToken on "EXIT"
  | again =>
    simp only [Jump.kind, children]
    exact Turns.keep page column _

theorem turns_simple (s : Simple) (reaches : (convert ctx).Reaches site.node recur)
    (fills : s.form.Fills page.number column site.node)
    (prints : Prints ctx.tree.lines page.number column s.form.text) :
    TurnsIn page Ready AnyText column s.form.text (recur site) (s.target ctx.variableName) := by
  cases s with
  | print word value => exact (turns_print word value reaches fills).turnsIn
  | assign word name value => exact turns_assign word name value reaches fills prints
  | jump j word => exact (turns_jump j word reaches fills).turnsIn

end Simple

theorem turns_comparison (g : Guard) (reaches : (convert ctx).Reaches site.node recur)
    (fills : g.comparison.Fills page.number column site.node)
    (prints : Prints ctx.tree.lines page.number column g.comparison.text) :
    Turns page column g.comparison.text (recur site) (g.name.target ctx.variableName ++
      (space ++ g.op.1.text.toList ++ space ++ g.value.1.text.toList)) := by
  obtain ⟨below, edit, inside⟩ :=
    @recur_passed _ _ _ .comparisonExpression (by decide) fills.kind reaches
  obtain ⟨id, name, _, isNode, atName, op, _, rfl, atOp, value, _, rfl, atValue, rfl⟩ := fills
  have text : g.comparison.text =
      g.name.1.text.toList ++ (space ++ g.op.1.text.toList ++ space ++ g.value.1.text.toList) := by
    simp [Guard.comparison, Tsql.Lexeme.form, Form.text, Forms.text]
  rw [text] at prints ⊢
  rw [isNode] at inside
  have isSign : g.op.1.kind ∈ passedKinds := by
    have signs : ∀ kind ∈ [Kind.equals, .notEquals, .less, .greater, .lessEquals, .greaterEquals],
      kind ∈ passedKinds := by decide
    exact signs _ (List.contains_iff_mem.mp g.op.2)
  have atSecond : below ⟨op, site.node :: site.ancestors, some name, some value⟩ = pure () :=
    recur_leaf isSign (inside _ (by simp [Node.children])) atOp
  have atThird : below ⟨value, site.node :: site.ancestors, some op, none⟩ = pure () :=
    recur_leaf (by rw [g.value.kind]; decide) (inside _ (by simp [Node.children])) atValue
  let first : Site Kind := ⟨name, site.node :: site.ancestors, none, some op⟩
  have children : Visit.children below site = below first := by
    simp only [first]
    rw [isNode] at atSecond atThird ⊢
    simp [Visit.children, Site.children, isNode, Node.children, Site.row, atSecond, atThird]
  have renames := @turns_variable ctx page column below first g.name (inside name (by simp [Node.children]))
    atName prints.front
  have whole := renames.append (Turns.keep page _
    (space ++ g.op.1.text.toList ++ space ++ g.value.1.text.toList))
  rw [bind_pure_unit] at whole
  rwa [edit, children]

theorem turns_guard (g : Guard) (reaches : (convert ctx).Reaches site.node recur)
    (fills : (g.form .ended).Fills page.number column site.node)
    (prints : Prints ctx.tree.lines page.number column (g.form .ended).text) :
    Turns page column (g.form .ended).text (recur site) (g.target ctx.variableName) := by
  have text : (g.form .ended).text = "(".toList ++ (g.comparison.text ++ ")".toList) := by
    simp [Guard.form, Tsql.parens, Form.text, Forms.text]
  obtain ⟨below, edit, inside⟩ := @recur_passed _ _ _ .parenExpression (by decide) fills.kind reaches
  obtain ⟨id, left, _, isNode, atLeft, comparison, _, rfl, atComparison, right, _, rfl, atRight, rfl⟩ := fills
  rw [text] at prints ⊢
  rw [isNode] at inside
  have atFirst : below ⟨left, site.node :: site.ancestors, none, some comparison⟩ = pure () :=
    recur_leaf (by decide) (inside _ (by simp [Node.children])) atLeft
  have atThird : below ⟨right, site.node :: site.ancestors, some comparison, none⟩ = pure () :=
    recur_leaf (by decide) (inside _ (by simp [Node.children])) atRight
  let middle : Site Kind := ⟨comparison, site.node :: site.ancestors, some left, some right⟩
  have children : Visit.children below site = below middle := by
    simp only [middle]
    rw [isNode] at atFirst atThird ⊢
    simp [Visit.children, Site.children, isNode, Node.children, Site.row, atFirst, atThird]
  have compares := @turns_comparison ctx page _ below middle g (inside comparison (by simp [Node.children]))
    atComparison prints.back.front
  have whole := (Turns.keep page column "(".toList).append (compares.append (Turns.keep page _ ")".toList))
  rw [edit, children]
  simpa [Guard.target] using whole

section Statements

def spaced (ss : List Code) : List Char := ss.flatMap fun s => (s.form .ended).text ++ space

theorem space_spaced (ss : List Code) :
    space ++ spaced ss = (Code.forms .ended .nil ss).text ++ space := by
  induction ss with
  | nil => rfl
  | cons s ss ih =>
    simp only [spaced, List.flatMap_cons, Code.forms, Forms.text, List.append_assoc] at ih ⊢
    rw [ih]

theorem fill_forms {rest : Forms} {ss : List Code} {nodes : List (Node Kind)} {number : Nat}
    (fill : (Code.forms .ended rest ss).Fill number column nodes) : ∃ front back, nodes = front ++ back ∧
      (Code.forms .ended .nil ss).Fill number column front ∧
      rest.Fill number (column + byteLength (Code.forms .ended .nil ss).text) back := by
  induction ss generalizing column nodes with
  | nil => exact ⟨[], nodes, rfl, rfl, by simpa [Code.forms, Forms.text] using fill⟩
  | cons s ss ih =>
    obtain ⟨node, nodes, rfl, atNode, later⟩ := fill
    obtain ⟨front, back, rfl, atFront, atBack⟩ := ih later
    refine ⟨node :: front, back, rfl, ⟨node, front, rfl, atNode, atFront⟩, ?_⟩
    simpa [Code.forms, Forms.text, Nat.add_assoc] using atBack

theorem kind_form (s : Code) : (s.form .ended).kind = .statement := by cases s <;> rfl

theorem kind_of_fill {ss : List Code} {nodes : List (Node Kind)} {number : Nat}
    (fill : (Code.forms .ended .nil ss).Fill number column nodes) :
    ∀ node ∈ nodes, node.kind = .statement := by
  induction ss generalizing column nodes with
  | nil =>
    obtain rfl : nodes = [] := fill
    simp
  | cons s ss ih =>
    obtain ⟨node, nodes, rfl, atNode, later⟩ := fill
    rw [List.forall_mem_cons]
    exact ⟨atNode.kind.trans (kind_form s), ih later⟩

def Converts (ctx : Context) (page : Page) (s : Code) : Prop :=
  ∀ recur column (site : Site Kind), (convert ctx).Reaches site.node recur →
    (s.form .ended).Fills page.number column site.node →
    Prints ctx.tree.lines page.number column (s.form .ended).text →
    TurnsIn page Ready AnyText column (s.form .ended).text (recur site) (s.target ctx.variableName)

theorem turns_statements {ss : List Code} {sites : List (Site Kind)}
    (converts : ∀ s ∈ ss, Converts ctx page s)
    (reaches : ∀ site ∈ sites, (convert ctx).Reaches site.node recur)
    (fill : (Code.forms .ended .nil ss).Fill page.number column (sites.map (·.node)))
    (prints : Prints ctx.tree.lines page.number (column + byteLength space) (spaced ss)) :
    TurnsIn page Ready AnyText (column + byteLength space) (spaced ss) (sites.forM recur)
      (Code.targets ctx.variableName ss) := by
  induction ss generalizing column sites with
  | nil =>
    obtain rfl : sites = [] := List.map_eq_nil_iff.mp fill
    exact (Turns.keep page _ []).turnsIn
  | cons s ss ih =>
    obtain ⟨node, nodes, isNodes, atNode, later⟩ := fill
    obtain ⟨site, sites, rfl, rfl, rfl⟩ := List.map_eq_cons_iff.mp isNodes
    rw [List.forall_mem_cons] at converts reaches
    have isSpaced : spaced (s :: ss) = (s.form .ended).text ++ space ++ spaced ss := rfl
    rw [isSpaced] at prints ⊢
    have here := (converts.1 recur _ site reaches.1 atNode prints.front.front).append
      (turns_iff.mp (Turns.keep page _ space)) (fun _ _ => trivial) fun _ _ => trivial
    have there := ih converts.2 reaches.2 later (by
      simpa [Text.byteLength_append, Nat.add_assoc] using prints.back)
    have whole := here.append (by simpa [Text.byteLength_append, Nat.add_assoc] using there)
      (fun _ ready => ready.begun.word _) fun _ _ => trivial
    rw [bind_pure_unit] at whole
    exact whole

end Statements

section Blocks

variable (opening : Word "BEGIN") (ending : Word "END")

def blockForm (body : List Code) : Form :=
  .rule .block opening.form (Code.forms .ended (.cons space ending.form .nil) body)

/-- What stands in a block in front of its last word. -/
def blockFront (body : List Code) : List Char := opening.1.text.toList ++ space ++ spaced body

theorem blockFront_eq (body : List Code) :
    blockFront opening body = opening.1.text.toList ++ space ++ spaced body := rfl

theorem text_forms (rest : Forms) (ss : List Code) :
    (Code.forms .ended rest ss).text = (Code.forms .ended .nil ss).text ++ rest.text := by
  induction ss with
  | nil => rfl
  | cons s ss ih => simp [Code.forms, Forms.text, ih]

theorem text_blockForm (body : List Code) :
    (blockForm opening ending body).text = blockFront opening body ++ ending.1.text.toList := by
  rw [blockForm, Form.text, text_forms, Forms.text, blockFront_eq, List.append_assoc, List.append_assoc _ space,
    space_spaced]
  simp [Forms.text]

/-- The parts of a block. -/
structure BlockAt (page : Page) (column : Nat) (body : List Code) (site first last : Site Kind)
    (sites : List (Site Kind)) : Prop where
  children : site.children = first :: (sites ++ [last])
  statements : site.childrenOf .statement = sites
  begins : opening.form.Fills page.number column first.node
  fill : (Code.forms .ended .nil body).Fill page.number (column + byteLength opening.1.text.toList)
    (sites.map (·.node))
  ends : ending.form.Fills page.number (column + byteLength (blockFront opening body)) last.node
  start : site.node.startToken = first.node.startToken
  stop : site.node.stopToken = last.node.startToken

variable {opening ending}

theorem stopTokenOf_append (token : Token Kind) (nodes : List (Node Kind)) (node : Node Kind) :
    Node.stopTokenOf token (nodes ++ [node]) = node.stopToken := by
  induction nodes generalizing token with
  | nil => rfl
  | cons next nodes ih => exact ih next.stopToken

theorem blockAt_of_fills {body : List Code}
    (fills : (blockForm opening ending body).Fills page.number column site.node) :
    ∃ first last sites, BlockAt opening ending page column body site first last sites := by
  obtain ⟨id, word, nodes, isNode, atWord, fill⟩ := fills
  obtain ⟨front, back, rfl, atFront, node, _, rfl, atNode, rfl⟩ := fill_forms fill
  have nodes : site.children.map (·.node) = word :: (front ++ [node]) := by
    rw [Site.children, Site.map_node_row, isNode]
    rfl
  obtain ⟨first, others, children, rfl, isOthers⟩ := List.map_eq_cons_iff.mp nodes
  obtain ⟨sites, back, rfl, rfl, isBack⟩ := List.map_eq_append_iff.mp isOthers
  obtain ⟨last, rfl, rfl⟩ := List.map_eq_singleton_iff.mp isBack
  have kinds : ∀ site ∈ sites, (site.kind == .statement) = true := by
    intro site member
    have := kind_of_fill atFront site.node (List.mem_map_of_mem member)
    exact beq_iff_eq.mpr this
  have notFirst : (first.kind == .statement) = false := by
    rw [Site.kind, atWord.kind]
    rfl
  have notLast : (last.kind == .statement) = false := by
    rw [Site.kind, atNode.kind]
    rfl
  refine ⟨first, last, sites, children, ?_, atWord, atFront, ?_, ?_, ?_⟩
  · rw [Site.childrenOf, children]
    simp [notFirst, notLast, List.filter_eq_self.mpr kinds]
  · have column' : column + byteLength (blockFront opening body) = column + byteLength opening.form.text +
        byteLength (Code.forms .ended .nil body).text + byteLength space := by
      rw [blockFront_eq, List.append_assoc, space_spaced, Text.byteLength_append, Text.byteLength_append]
      simp only [Nat.add_assoc, Tsql.text_keyword]
    rw [column']
    exact atNode
  · rw [isNode]; rfl
  · obtain ⟨_, _, token, isLeaf, -, -⟩ := atNode
    rw [isNode, Node.stopToken, stopTokenOf_append, isLeaf]
    rfl

variable {body : List Code} {first last : Site Kind} {sites : List (Site Kind)}

theorem startsTight_form (s : Code) (text : List Char) : StartsTight ((s.form .ended).text ++ text) := by
  obtain ⟨w, word, tight, rest, front⟩ : ∃ (w : String) (word : Word w)
      (_ : w.toList.all (!Text.isIndent ·) = true) (rest : List Char),
      (s.form .ended).text = word.1.text.toList ++ rest := by
    cases s with
    | simple s =>
      cases s with
      | print word _ => exact ⟨_, word, by decide, _, List.append_assoc _ _ _⟩
      | assign word _ _ => exact ⟨_, word, by decide, _, List.append_assoc _ _ _⟩
      | jump j word => exact ⟨_, word, by cases j <;> decide, _, List.append_assoc _ _ _⟩
    | when word _ _ | choose word _ _ _ _ | loop word _ _ | block word _ _ =>
      exact ⟨_, word, by decide, _, List.append_assoc _ _ _⟩
  rw [front, List.append_assoc]
  exact word.startsTight tight _

theorem startsTight_spaced {text : List Char} (tight : StartsTight text) (ss : List Code) :
    StartsTight (spaced ss ++ text) := by
  cases ss with
  | nil => exact tight
  | cons s ss =>
    have isSpaced : spaced (s :: ss) ++ text = (s.form .ended).text ++ (space ++ (spaced ss ++ text)) := by
      simp [spaced]
    rw [isSpaced]
    exact startsTight_form s _

theorem endsLoose_targets {text : List Char} (loose : EndsLoose text) (rename : String → String) (ss : List Code) :
    EndsLoose (text ++ Code.targets rename ss) := by
  induction ss generalizing text with
  | nil => simpa [Code.targets] using loose
  | cons s ss ih =>
    rw [Code.targets_cons, ← List.append_assoc, ← List.append_assoc]
    exact ih (endsLoose_space _)

theorem turns_opened (block : BlockAt opening ending page column body site first last sites)
    (converts : ∀ s ∈ body, Converts ctx page s)
    (reaches : ∀ child ∈ site.node.children, (convert ctx).Reaches child recur)
    (prints : Prints ctx.tree.lines page.number column (blockFront opening body)) :
    TurnsIn page Ready StartsTight column (blockFront opening body)
      (Edit.removeToken site.node.startToken >>= fun _ => (site.childrenOf .statement).forM recur)
      (Code.targets ctx.variableName body) := by
  have inside : ∀ child ∈ sites, (convert ctx).Reaches child.node recur := by
    intro child member
    refine reaches _ (Site.node_of_child ?_)
    rw [block.children]
    simp [member]
  rw [blockFront_eq] at prints ⊢
  have statements := turns_statements converts inside block.fill (by
    simpa only [Text.byteLength_append, Nat.add_assoc] using prints.back)
  obtain ⟨_, _, token, isLeaf, -, on⟩ := block.begins
  have removes : TurnsIn page Ready StartsTight column (opening.1.text.toList ++ space)
      (Edit.removeToken token) [] :=
    (Turns.removeToken on Tsql.isIndent_space).weaken (fun _ ready => ready.loose) fun _ tight => tight
  rw [Nat.add_assoc, ← Text.byteLength_append] at statements
  have inBlock : TurnsIn page Ready StartsTight _ (spaced body) _ _ :=
    statements.weaken (fun _ ready => ready) fun _ _ => trivial
  have whole := removes.append inBlock (fun text ready => by rwa [List.append_nil]) fun text tight =>
    startsTight_spaced tight body
  rwa [block.start, isLeaf, block.statements]

/-- A block in the place of a branch that is the last one. -/
theorem turns_closedBlock (block : BlockAt opening ending page column body site first last sites) {edit : Edit Unit}
    {new : List Char}
    (opened : TurnsIn page Ready StartsTight column (blockFront opening body) edit new) (closer : String) :
    TurnsIn page Ready AnyText column (blockForm opening ending body).text
      (edit >>= fun _ => Edit.replaceToken site.node.stopToken closer) (new ++ closer.toList) := by
  obtain ⟨_, _, token, isLeaf, -, on⟩ := block.ends
  have closes : TurnsIn page AnyText AnyText _ ending.1.text.toList (Edit.replaceToken token closer) closer.toList :=
    turns_iff.mp (Turns.replaceToken on closer)
  rw [text_blockForm, block.stop, isLeaf]
  exact opened.append closes (fun _ _ => trivial) fun _ _ => ending.startsTight (by decide) _

/-- A block whose last word goes, with the blanks behind it. -/
theorem turns_droppedBlock (block : BlockAt opening ending page column body site first last sites) {edit : Edit Unit}
    (opened : TurnsIn page Ready StartsTight column (blockFront opening body) edit
      (Code.targets ctx.variableName body)) (run : List Char)
    (blank : ∀ c ∈ run, Text.isIndent c = true) :
    TurnsIn page Ready StartsTight column ((blockForm opening ending body).text ++ run)
      (edit >>= fun _ => Edit.removeToken site.node.stopToken) (Code.targets ctx.variableName body) := by
  obtain ⟨_, _, token, isLeaf, -, on⟩ := block.ends
  have removes := Turns.removeToken on blank
  have whole := opened.append removes (fun _ ready => endsLoose_targets ready.loose _ body) fun _ _ => by
    rw [List.append_assoc]
    exact ending.startsTight (by decide) _
  rw [text_blockForm, block.stop, isLeaf, List.append_assoc]
  rwa [List.append_nil] at whole

end Blocks

section Branches

/-- A statement is converted, and if it is a block, so is each statement inside. -/
structure Handles (ctx : Context) (page : Page) (s : Code) : Prop where
  whole : Converts ctx page s
  inside : ∀ first body last, s = .block first body last → ∀ inner ∈ body, Converts ctx page inner

variable {s : Code} {branch : Site Kind} {opening : Word "BEGIN"} {ending : Word "END"}

theorem firstChild?_block {body : List Code}
    (fills : ((Code.block opening body ending).form .ended).Fills page.number column branch.node) : ∃ block : Site Kind,
      branch.firstChild? .block = some block ∧ branch.children = [block] ∧
      (blockForm opening ending body).Fills page.number column block.node := by
  obtain ⟨id, node, _, isNode, atBlock, rfl⟩ := fills
  have isBlock : node.kind = .block := atBlock.kind
  have children : branch.children = [⟨node, branch.node :: branch.ancestors, none, none⟩] := by
    rw [Site.children, isNode]
    rfl
  refine ⟨_, ?_, children, atBlock⟩
  rw [Site.firstChild?, children]
  simp [Site.kind, isBlock]

theorem firstChild?_other (other : s.isBlock = false)
    (fills : (s.form .ended).Fills page.number column branch.node) : branch.firstChild? .block = none := by
  cases s with
  | simple s =>
    obtain ⟨id, node, _, isNode, atBody, semicolon, _, rfl, atSemicolon, rfl⟩ := fills
    have isBody : node.kind ≠ .block := by
      rw [atBody.kind]
      rcases s with _ | _ | ⟨_ | _ | _, _⟩ <;> exact Kind.noConfusion
    have isEnd : semicolon.kind = .semicolon := atSemicolon.kind
    simp [Site.firstChild?, Site.children, isNode, Node.children, Site.row, Site.kind, isBody, isEnd]
  | block => cases other
  | when | choose | loop =>
    obtain ⟨id, node, _, isNode, atBody, rfl⟩ := fills
    have isBody : node.kind ≠ .block := by
      rw [atBody.kind]
      exact Kind.noConfusion
    simp [Site.firstChild?, Site.children, isNode, Node.children, Site.row, Site.kind, isBody]

theorem text_block (body : List Code) :
    ((Code.block opening body ending).form .ended).text = (blockForm opening ending body).text :=
  List.append_nil _

theorem turns_branchBlock {body : List Code} (converts : ∀ inner ∈ body, Converts ctx page inner)
    (reaches : (convert ctx).Reaches branch.node recur)
    (fills : ((Code.block opening body ending).form .ended).Fills page.number column branch.node)
    (prints : Prints ctx.tree.lines page.number column ((Code.block opening body ending).form .ended).text) :
    ∃ block first last sites, branch.firstChild? .block = some block ∧
      BlockAt opening ending page column body block first last sites ∧
      TurnsIn page Ready StartsTight column (blockFront opening body)
        (Edit.removeToken block.node.startToken >>= fun _ => (block.childrenOf .statement).forM recur)
        (Code.targets ctx.variableName body) := by
  obtain ⟨block, found, children, atBlock⟩ := firstChild?_block fills
  obtain ⟨first, last, sites, parts⟩ := blockAt_of_fills atBlock
  rw [text_block, text_blockForm] at prints
  have reachesBlock : (convert ctx).Reaches block.node recur :=
    reaches.child (Site.node_of_child (by rw [children]; exact List.mem_singleton_self _))
  exact ⟨block, first, last, sites, found, parts,
    turns_opened parts converts (fun child member => reachesBlock.child member) prints.front⟩

/-- The last branch, which takes the closing words if it is a block. -/
theorem turns_last (handles : Handles ctx page s) (reaches : (convert ctx).Reaches branch.node recur)
    (fills : (s.form .ended).Fills page.number column branch.node)
    (prints : Prints ctx.tree.lines page.number column (s.form .ended).text) (closer : String) :
    ∃ edit, convertBranch branch (some closer) recur = (edit >>= fun _ => pure s.isBlock) ∧
      TurnsIn page Ready AnyText column (s.form .ended).text edit (s.last ctx.variableName closer) := by
  cases isBlock : s.isBlock with
  | false =>
    refine ⟨recur branch, ?_, ?_⟩
    · rw [convertBranch, firstChild?_other isBlock fills]
    · rw [Code.last_other _ isBlock]
      exact handles.whole recur column branch reaches fills prints
  | true =>
    obtain ⟨opening, body, ending, rfl⟩ := Code.exists_block isBlock
    obtain ⟨block, first, last, sites, found, parts, opened⟩ :=
      turns_branchBlock (handles.inside opening body ending rfl) reaches fills prints
    rw [text_block]
    refine ⟨_, ?_, turns_closedBlock parts opened closer⟩
    rw [convertBranch, found]
    simp

theorem turns_middle (handles : Handles ctx page s) (reaches : (convert ctx).Reaches branch.node recur)
    (fills : (s.form .ended).Fills page.number column branch.node)
    (prints : Prints ctx.tree.lines page.number column (s.form .ended).text) :
    ∃ edit, convertBranch branch none recur = (edit >>= fun _ => pure false) ∧
      TurnsIn page Ready StartsTight column ((s.form .ended).text ++ space) edit
        (s.middle ctx.variableName) := by
  cases isBlock : s.isBlock with
  | false =>
    refine ⟨recur branch, ?_, ?_⟩
    · rw [convertBranch, firstChild?_other isBlock fills]
    · rw [Code.middle_other _ isBlock]
      have whole := (handles.whole recur column branch reaches fills prints).append
        (turns_iff.mp (Turns.keep page _ space)) (fun _ _ => trivial) fun _ _ => trivial
      rw [bind_pure_unit] at whole
      exact whole.weaken (fun _ ready => ready) fun _ _ => trivial
  | true =>
    obtain ⟨opening, body, ending, rfl⟩ := Code.exists_block isBlock
    obtain ⟨block, first, last, sites, found, parts, opened⟩ :=
      turns_branchBlock (handles.inside opening body ending rfl) reaches fills prints
    rw [text_block]
    refine ⟨_, ?_, turns_droppedBlock parts opened space Tsql.isIndent_space⟩
    rw [convertBranch, found]
    simp

def closing (site : Site Kind) (closer : String) (closed : Bool) : Edit Unit := do
  if !closed then
    let indent := (← get).indentationOf site.node
    Edit.insertAfter site.node ("\n" ++ indent ++ closer)

theorem turns_closing {edit : Edit Unit} {text front : List Char} {closer : String} (visible : front ≠ [])
    (spans : site.node.Spans page.number column text)
    (turns : TurnsIn page Ready AnyText column text edit (front ++ s.last ctx.variableName closer)) :
    TurnsIn page Ready AnyText column text (edit >>= fun _ => closing site closer s.isBlock)
      (front ++ s.closed ctx.variableName closer) := by
  cases isBlock : s.isBlock with
  | true =>
    obtain ⟨opening, body, ending, rfl⟩ := Code.exists_block isBlock
    have same : (Code.block opening body ending).closed ctx.variableName closer =
        (Code.block opening body ending).last ctx.variableName closer := rfl
    rw [same]
    simpa [closing] using turns
  | false =>
    have isClosed : s.closed ctx.variableName closer =
        s.last ctx.variableName closer ++ ("\n" ++ closer).toList := by
      cases s <;> first | rfl | cases isBlock
    have isLine : site.node.start.line = page.number := congrArg Position.line spans.start
    have whole := turns.insertLine (by simp [visible]) isLine closer
    rw [isClosed, ← List.append_assoc]
    simpa [closing, spans.insertAfter] using whole

/-- The condition of a branch or a loop, with the opening word behind it. -/
theorem turns_condition {condition : Site Kind} {word : String} (g : Guard) (opener : String)
    (reaches : (convert ctx).Reaches condition.node recur)
    (fills : (g.form .ended).Fills page.number (column + byteLength (word.toList ++ space)) condition.node)
    (prints : Prints ctx.tree.lines page.number (column + byteLength (word.toList ++ space))
      (g.form .ended).text) :
    Turns page column (word.toList ++ space ++ (g.form .ended).text)
      (recur condition >>= fun _ => Edit.insertAfter condition.node opener)
      (word.toList ++ space ++ (g.target ctx.variableName ++ opener.toList)) := by
  have visible : g.target ctx.variableName ≠ [] := by simp [Guard.target]
  have opened := (turns_guard g reaches fills prints).insert visible opener
  have whole := (Turns.keep page column (word.toList ++ space)).append opened
  rw [fills.spans.insertAfter]
  simpa using whole

theorem convertConditional_eq {opener closer : String} {condition branch : Site Kind} {edit : Edit Unit}
    (isCondition : site.child? 1 = some condition) (isBranch : site.childrenOf .statement = [branch])
    (converts : convertBranch branch (some closer) recur = (edit >>= fun _ => pure s.isBlock)) :
    convertConditional opener closer recur site =
      ((recur condition >>= fun _ => Edit.insertAfter condition.node opener) >>= fun _ => edit) >>=
        fun _ => closing site closer s.isBlock := by
  rw [convertConditional, isCondition]
  simp only [isBranch, convertBranches, converts, bind_assoc, pure_bind, closing]

theorem turns_conditional {kind : Kind} {word : String} (opener closer : String) (g : Guard)
    (visible : word.toList ≠ []) (handles : Handles ctx page s)
    (reaches : ∀ child ∈ site.node.children, (convert ctx).Reaches child recur)
    (fills : (Form.rule kind (keyword word) (.cons space (g.form .ended)
      (.cons space (s.form .ended) .nil))).Fills page.number column site.node)
    (prints : Prints ctx.tree.lines page.number column
      (word.toList ++ space ++ (g.form .ended).text ++ space ++ (s.form .ended).text)) :
    TurnsIn page Ready AnyText column
      (word.toList ++ space ++ (g.form .ended).text ++ space ++ (s.form .ended).text)
      (convertConditional opener closer recur site)
      (word.toList ++ space ++ (g.target ctx.variableName ++ opener.toList) ++ space ++
        s.closed ctx.variableName closer) := by
  have spans := fills.spans
  obtain ⟨id, first, _, isNode, atFirst, condition, _, rfl, atCondition, branch, _, rfl, atBranch, rfl⟩ := fills
  have nodes : site.node.children = [first, condition, branch] := by rw [isNode]; rfl
  let second : Site Kind := ⟨condition, site.node :: site.ancestors, some first, some branch⟩
  let third : Site Kind := ⟨branch, site.node :: site.ancestors, some condition, none⟩
  have children : site.children =
      [⟨first, site.node :: site.ancestors, none, some condition⟩, second, third] := by
    rw [Site.children, nodes]
    rfl
  have isCondition : site.child? 1 = some second := by rw [Site.child?, children]; rfl
  have isBranch : site.childrenOf .statement = [third] := by
    have word : first.kind = .keyword := atFirst.kind
    have guard : condition.kind = .parenExpression := atCondition.kind
    have statement : branch.kind = .statement := atBranch.kind.trans (kind_form s)
    simp [Site.childrenOf, children, Site.kind, second, third, word, guard, statement]
  have atSecond : (g.form .ended).Fills page.number (column + byteLength (word.toList ++ space))
      second.node := by
    simp only [Text.byteLength_append, ← Nat.add_assoc]
    exact atCondition
  have atThird : (s.form .ended).Fills page.number (column + byteLength (word.toList ++ space ++
      (g.form .ended).text ++ space)) third.node := by
    simp only [Text.byteLength_append, ← Nat.add_assoc]
    exact atBranch
  rw [nodes] at reaches
  obtain ⟨edit, converts, turns⟩ := turns_last handles (reaches branch (by simp)) atThird prints.back closer
  have opened := turns_condition g opener (reaches condition (by simp)) atSecond prints.front.front.back
  have front : TurnsIn page Ready AnyText column (word.toList ++ space ++ (g.form .ended).text ++ space) _ _ :=
    (opened.append (Turns.keep page _ space)).turnsIn
  have whole := front.append turns (fun _ ready => ready.begun.word _) fun _ _ => trivial
  rw [bind_pure_unit] at whole
  rw [convertConditional_eq isCondition isBranch converts]
  refine turns_closing ?_ ?_ whole
  · simp [visible]
  · simpa [Form.text, Forms.text] using spans

theorem discard_bind_pure {α : Type} (edit : Edit Unit) (a : α) :
    (discard (edit >>= fun _ => pure a) : Edit PUnit) = edit := by
  rw [Functor.discard, map_const]
  simp

theorem convertConditional_choose {opener closer : String} {condition yes no : Site Kind}
    {edit next : Edit Unit} (isCondition : site.child? 1 = some condition)
    (areBranches : site.childrenOf .statement = [yes, no])
    (convertsYes : convertBranch yes none recur = (edit >>= fun _ => pure false))
    (convertsNo : convertBranch no (some closer) recur = (next >>= fun _ => pure s.isBlock)) :
    convertConditional opener closer recur site =
      (((recur condition >>= fun _ => Edit.insertAfter condition.node opener) >>= fun _ => edit) >>= fun _ =>
        next) >>= fun _ => closing site closer s.isBlock := by
  rw [convertConditional, isCondition]
  simp only [areBranches, convertBranches, convertsYes, convertsNo, discard_bind_pure, bind_assoc, pure_bind,
    closing]

theorem turns_choose {yes no : Code} (conditional : Word "IF") (g : Guard) (otherwise : Word "ELSE")
    (handlesYes : Handles ctx page yes) (handlesNo : Handles ctx page no)
    (reaches : ∀ child ∈ site.node.children, (convert ctx).Reaches child recur)
    (fills : (Form.rule .ifStatement conditional.form (.cons space (g.form .ended)
      (.cons space (yes.form .ended) (.cons space otherwise.form
        (.cons space (no.form .ended) .nil))))).Fills page.number column site.node)
    (prints : Prints ctx.tree.lines page.number column (conditional.1.text.toList ++ space ++ (g.form .ended).text ++ space ++
      ((yes.form .ended).text ++ space ++ (otherwise.1.text.toList ++ space ++ (no.form .ended).text)))) :
    TurnsIn page Ready AnyText column
      (conditional.1.text.toList ++ space ++ (g.form .ended).text ++ space ++
        ((yes.form .ended).text ++ space ++ (otherwise.1.text.toList ++ space ++ (no.form .ended).text)))
      (convertIf recur site) ((Code.choose conditional g yes otherwise no).target ctx.variableName) := by
  have spans : site.node.Spans page.number column (conditional.1.text.toList ++ space ++ (g.form .ended).text ++ space ++
      ((yes.form .ended).text ++ space ++ (otherwise.1.text.toList ++ space ++ (no.form .ended).text))) := by
    simpa [Form.text, Forms.text] using fills.spans
  obtain ⟨id, first, _, isNode, atFirst, condition, _, rfl, atCondition, branch, _, rfl, atBranch, word, _, rfl,
    atWord, other, _, rfl, atOther, rfl⟩ := fills
  have nodes : site.node.children = [first, condition, branch, word, other] := by rw [isNode]; rfl
  let second : Site Kind := ⟨condition, site.node :: site.ancestors, some first, some branch⟩
  let third : Site Kind := ⟨branch, site.node :: site.ancestors, some condition, some word⟩
  let fifth : Site Kind := ⟨other, site.node :: site.ancestors, some word, none⟩
  have children : site.children = [⟨first, site.node :: site.ancestors, none, some condition⟩, second, third,
      ⟨word, site.node :: site.ancestors, some branch, some other⟩, fifth] := by
    rw [Site.children, nodes]
    rfl
  have isCondition : site.child? 1 = some second := by rw [Site.child?, children]; rfl
  have areBranches : site.childrenOf .statement = [third, fifth] := by
    have keywords : first.kind = .keyword ∧ word.kind = .keyword := ⟨atFirst.kind, atWord.kind⟩
    have guard : condition.kind = .parenExpression := atCondition.kind
    have statements : branch.kind = .statement ∧ other.kind = .statement :=
      ⟨atBranch.kind.trans (kind_form yes), atOther.kind.trans (kind_form no)⟩
    simp [Site.childrenOf, children, Site.kind, second, third, fifth, keywords, guard, statements]
  have atSecond : (g.form .ended).Fills page.number (column + byteLength (conditional.1.text.toList ++ space))
      second.node := by
    simp only [Text.byteLength_append, ← Nat.add_assoc]
    exact atCondition
  have atThird : (yes.form .ended).Fills page.number (column + byteLength (conditional.1.text.toList ++ space ++
      (g.form .ended).text ++ space)) third.node := by
    simp only [Text.byteLength_append, ← Nat.add_assoc]
    exact atBranch
  have atFifth : (no.form .ended).Fills page.number (column + byteLength (conditional.1.text.toList ++ space ++
      (g.form .ended).text ++ space) + byteLength ((yes.form .ended).text ++ space) +
      byteLength (otherwise.1.text.toList ++ space)) fifth.node := by
    simp only [Text.byteLength_append, ← Nat.add_assoc]
    exact atOther
  rw [nodes] at reaches
  obtain ⟨edit, convertsYes, turnsYes⟩ := turns_middle handlesYes (reaches branch (by simp)) atThird
    prints.back.front.front
  obtain ⟨next, convertsNo, turnsNo⟩ := turns_last handlesNo (reaches other (by simp)) atFifth
    prints.back.back.back "END IF;"
  have opened := turns_condition g " THEN" (reaches condition (by simp)) atSecond prints.front.front.back
  have front : TurnsIn page Ready AnyText column (conditional.1.text.toList ++ space ++ (g.form .ended).text ++ space) _ _ :=
    (opened.append (Turns.keep page _ space)).turnsIn
  have between (column : Nat) : TurnsIn page Begun AnyText column (otherwise.1.text.toList ++ space) (pure ())
      (otherwise.1.text.toList ++ space) :=
    (Turns.keep page _ _).turnsIn
  have behind := turnsYes.append
    ((between _).append turnsNo (fun _ begun => begun.word _) fun _ _ => trivial)
    (fun _ ready => ready.begun.append _) fun _ _ => by
      simp only [List.append_assoc]
      exact otherwise.startsTight (by decide) _
  have whole := front.append behind (fun _ ready => ready.begun.word _) fun _ _ => trivial
  rw [convertIf, convertConditional_choose isCondition areBranches convertsYes convertsNo]
  have closed := @turns_closing ctx page column site no _ _ (conditional.1.text.toList ++ space ++ (g.target ctx.variableName ++
    " THEN".toList) ++ space ++ yes.middle ctx.variableName ++ otherwise.1.text.toList ++ space) "END IF;" (by simp [conditional.1.visible]) spans
    (by simpa only [List.append_assoc, bind_pure_unit, bind_assoc, pure_bind] using whole)
  rw [Code.target_choose]
  simpa only [List.append_assoc, bind_assoc] using closed

end Branches

section Codes

theorem recur_single {kind : Kind} {form : Form} (passed : kind ∈ passedKinds)
    (reaches : (convert ctx).Reaches site.node recur)
    (fills : (Form.rule kind form .nil).Fills page.number column site.node) : ∃ below inner,
      recur site = below inner ∧ form.Fills page.number column inner.node ∧
      (convert ctx).Reaches inner.node below ∧ inner.parent? = some site.node ∧
      site.node.children = [inner.node] := by
  have passes below : convert ctx below site = Visit.children below site :=
    convert_passes passed below site fills.kind
  obtain ⟨id, node, _, isNode, atNode, rfl⟩ := fills
  have nodes : site.node.children = [node] := by rw [isNode]; rfl
  obtain ⟨below, inner, edit, rfl, inside, parent⟩ := reaches.single passes nodes
  exact ⟨below, inner, edit, atNode, inside, parent, nodes⟩

theorem recur_statement {form : Form} (reaches : (convert ctx).Reaches site.node recur)
    (fills : (Tsql.statement form).Fills page.number column site.node) : ∃ below inner,
      recur site = convert ctx below inner ∧ form.Fills page.number column inner.node ∧
      (∀ child ∈ inner.node.children, (convert ctx).Reaches child below) ∧
      inner.parent? = some site.node ∧ site.node.children = [inner.node] := by
  obtain ⟨below, inner, edit, atInner, reachesInner, parent, nodes⟩ := recur_single (by decide) reaches fills
  obtain ⟨deeper, rfl, reachesDeeper⟩ := reachesInner.step
  exact ⟨deeper, inner, edit, atInner, reachesDeeper, parent, nodes⟩

theorem converts_simple (s : Tsql.Simple) : Converts ctx page (.simple s) := by
  intro recur column site reaches fills prints
  obtain ⟨below, edit, inside⟩ := @recur_passed _ _ _ .statement (by decide) fills.kind reaches
  obtain ⟨id, node, _, isNode, atNode, semicolon, _, rfl, atSemicolon, rfl⟩ := fills
  have nodes : site.node.children = [node, semicolon] := by rw [isNode]; rfl
  rw [nodes] at inside
  let inner : Site Kind := ⟨node, site.node :: site.ancestors, none, some semicolon⟩
  have atEnd : below ⟨semicolon, site.node :: site.ancestors, some node, none⟩ = pure () :=
    recur_leaf (by decide) (inside _ (by simp)) atSemicolon
  have children : Visit.children below site = below inner := by
    rw [Visit.children, Site.children, nodes]
    simp [Site.row, inner, atEnd]
  have text : ((Code.simple s).form .ended).text = s.form.text ++ [';'] := by
    simp [Code.form, Tsql.Style.ending, Form.text, Forms.text]
  rw [text] at prints ⊢
  have body := @turns_simple ctx page column below inner s (inside node (by simp)) atNode prints.front
  have whole := body.append (turns_iff.mp (Turns.keep page _ [';'])) (fun _ _ => trivial) fun _ _ => trivial
  rw [bind_pure_unit] at whole
  rw [edit, children]
  exact whole

theorem converts_block (opening : Word "BEGIN") (ending : Word "END") {body : List Code}
    (converts : ∀ s ∈ body, Converts ctx page s) : Converts ctx page (.block opening body ending) := by
  intro recur column site reaches fills prints
  obtain ⟨below, block, edit, atBlock, inside, parent, nodes⟩ := recur_statement reaches fills
  have isBlock : block.kind = .block := atBlock.kind
  obtain ⟨first, last, sites, parts⟩ := blockAt_of_fills atBlock
  have noSemicolon : site.node.firstChild? .semicolon = none := by
    have : block.node.kind = .block := isBlock
    simp [Node.firstChild?, nodes, this]
  have reachesAll : ∀ child ∈ block.children, (convert ctx).Reaches child.node below :=
    fun child member => inside _ (Site.node_of_child member)
  rw [parts.children] at reachesAll
  have atFirst : below first = pure () := recur_leaf (by decide) (reachesAll first (by simp)) parts.begins
  have atLast : below last = pure () := recur_leaf (by decide) (reachesAll last (by simp)) parts.ends
  have converted : convert ctx below block =
      sites.forM below >>= fun _ => Edit.insertAfter block.node ";" := by
    rw [convert, isBlock]
    simp only [convertBlock, parent, Visit.children, parts.children]
    simp [atFirst, atLast, noSemicolon]
  rw [text_block, text_blockForm, blockFront_eq] at prints ⊢
  have statements := turns_statements converts (fun child member => reachesAll child (by simp [member]))
    parts.fill (by simpa only [Text.byteLength_append, Nat.add_assoc] using prints.front.back)
  rw [Nat.add_assoc, ← Text.byteLength_append] at statements
  have begins : TurnsIn page Ready AnyText column (opening.1.text.toList ++ space) (pure ()) _ :=
    (Turns.keep page column _).turnsIn
  have front := begins.append statements (fun _ ready => ready.begun.word _) fun _ _ => trivial
  have whole := (front.append (turns_iff.mp (Turns.keep page _ ending.1.text.toList)) (fun _ _ => trivial)
    fun _ _ => trivial).insert (by simp [opening.1.visible]) ";"
  have spans : block.node.Spans page.number column (blockForm opening ending body).text := atBlock.spans
  rw [text_blockForm, blockFront_eq] at spans
  rw [edit, converted, spans.insertAfter, Code.target_block]
  simpa using whole

mutual

/-- Every statement is converted. -/
theorem handles : ∀ s : Code, Handles ctx page s
  | .simple s => ⟨converts_simple s, fun _ _ _ other => by cases other⟩
  | .when word g yes => by
    refine ⟨fun recur column site reaches fills prints => ?_, fun _ _ _ other => by cases other⟩
    obtain ⟨below, inner, edit, atInner, inside, -⟩ := recur_statement reaches fills
    have isSite : inner.kind = .ifStatement := atInner.kind
    have text : ((Code.when word g yes).form .ended).text =
        word.1.text.toList ++ space ++ (g.form .ended).text ++ space ++ (yes.form .ended).text := by
      simp [Code.form, Tsql.statement, Form.text, Forms.text]
    rw [text] at prints ⊢
    have whole := turns_conditional " THEN" "END IF;" g word.1.visible (handles yes) inside atInner prints
    rw [edit, convert, isSite, Code.target_when]
    simpa only [List.append_assoc, convertIf] using whole
  | .choose word g yes other no => by
    refine ⟨fun recur column site reaches fills prints => ?_, fun _ _ _ other => by cases other⟩
    obtain ⟨below, inner, edit, atInner, inside, -⟩ := recur_statement reaches fills
    have isSite : inner.kind = .ifStatement := atInner.kind
    have text : ((Code.choose word g yes other no).form .ended).text =
        word.1.text.toList ++ space ++ (g.form .ended).text ++ space ++
          ((yes.form .ended).text ++ space ++ (other.1.text.toList ++ space ++ (no.form .ended).text)) := by
      simp [Code.form, Tsql.statement, Form.text, Forms.text]
    rw [text] at prints ⊢
    rw [edit, convert, isSite]
    exact turns_choose word g other (handles yes) (handles no) inside atInner prints
  | .loop word g body => by
    refine ⟨fun recur column site reaches fills prints => ?_, fun _ _ _ other => by cases other⟩
    obtain ⟨below, inner, edit, atInner, inside, -⟩ := recur_statement reaches fills
    have isSite : inner.kind = .whileStatement := atInner.kind
    have text : ((Code.loop word g body).form .ended).text =
        word.1.text.toList ++ space ++ (g.form .ended).text ++ space ++ (body.form .ended).text := by
      simp [Code.form, Tsql.statement, Form.text, Forms.text]
    rw [text] at prints ⊢
    have whole := turns_conditional " LOOP" "END LOOP;" g word.1.visible (handles body) inside atInner prints
    rw [edit, convert, isSite, Code.target_loop]
    simpa only [List.append_assoc, convertWhile] using whole
  | .block first body last => by
    have inside : ∀ s ∈ body, Converts ctx page s := fun s member => (handlesAll body s member).whole
    refine ⟨converts_block first last inside, fun _ _ _ same => ?_⟩
    cases same
    exact inside

theorem handlesAll : ∀ ss : List Code, ∀ s ∈ ss, Handles ctx page s
  | [] => by simp
  | s :: ss => by
    rw [List.forall_mem_cons]
    exact ⟨handles s, handlesAll ss⟩

end

end Codes

end Plpgsql

end SqlFerry
