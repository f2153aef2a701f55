import SqlFerry.Pass.Parentheses
import SqlFerry.Proofs.Pass.Walk
import SqlFerry.Proofs.Tsql.Code

/-! Parentheses around the conditions and parameters of a procedure of plain control flow. -/
namespace SqlFerry.Pass

open Patch
open Text (byteLength)
open Tsql (Kind Form Forms Code Guard keyword space)

variable {page : Page} {column : Nat} {recur : Site Kind → Edit Unit} {site : Site Kind}

theorem repairParentheses_passes {kind : Kind}
    (other : kind ∉ [.ifStatement, .whileStatement, .createProcedure]) :
    repairParentheses.Passes kind := by
  intro recur site isKind
  rw [repairParentheses, isKind]
  split <;> simp_all

theorem turns_wrapCondition {kind : Kind} {word : String} {condition : Form} {rest : Forms}
    {others : List Char} (visible : word.toList ≠ []) (bare : condition.kind ≠ .parenExpression)
    (first : (keyword word).Becomes repairParentheses page word.toList)
    (same : condition.Becomes repairParentheses page condition.text)
    (later : rest.Become repairParentheses page others)
    (reaches : ∀ child ∈ site.node.children, repairParentheses.Reaches child recur)
    (fills : (Form.rule kind (keyword word) (.cons space condition rest)).Fills page.number column
      site.node) :
    Turns page column (word.toList ++ (space ++ condition.text ++ rest.text))
      (wrapCondition recur site)
      (word.toList ++ space ++ ['('] ++ (condition.text ++ [')']) ++ others) := by
  obtain ⟨id, top, nodes, isNode, atWord, node, nodes, rfl, atCondition, atRest⟩ := fills
  have second : site.node.child? 1 = some node := by rw [isNode]; rfl
  have isBare : node.kind ≠ .parenExpression := atCondition.kind ▸ bare
  have children : Visit.children recur site =
      recur ⟨top, site.node :: site.ancestors, none, some node⟩ >>= fun _ =>
        recur ⟨node, site.node :: site.ancestors, some top, nodes.head?⟩ >>= fun _ =>
          (Site.row (site.node :: site.ancestors) (some node) nodes).forM recur := by
    rw [Visit.children, Site.children, isNode]
    rfl
  rw [isNode] at reaches
  have atTop : Turns page column (word.toList ++ space)
      (recur ⟨top, site.node :: site.ancestors, none, some node⟩) (word.toList ++ space) := by
    have kept := (first recur column ⟨top, site.node :: site.ancestors, none, some node⟩
      (reaches _ (by simp [Node.children])) atWord).append (Turns.keep page _ space)
    rwa [bind_pure_unit] at kept
  have atNode := same recur _ ⟨node, site.node :: site.ancestors, some top, nodes.head?⟩
    (reaches _ (by simp [Node.children])) atCondition
  have atOthers := later recur _ (site.node :: site.ancestors) (some node) nodes
    (fun other member => reaches other (by simp [Node.children, member])) atRest
  have wrapped := atTop.wrap (by simpa [Nat.add_assoc] using atNode)
    (by simpa [Nat.add_assoc] using atOthers) (by simp [visible]) atCondition.spans.visible "(" ")"
  rw [wrapCondition, second]
  simp only [if_pos isBare, atCondition.spans.insertBefore, atCondition.spans.insertAfter, children]
  simpa [Nat.add_assoc] using wrapped

theorem becomes_plain {form : Form} (plain : ∀ kind ∈ form.kinds, kind ∈ Tsql.plainKinds) :
    form.Becomes repairParentheses page form.text := by
  have others : ∀ kind ∈ Tsql.plainKinds,
      kind ∉ [Kind.ifStatement, .whileStatement, .createProcedure] := by decide
  exact form.becomes_same fun kind member => repairParentheses_passes (others kind (plain kind member))

theorem keyword_becomes_same (word : String) :
    (keyword word).Becomes repairParentheses page word.toList :=
  Form.becomes_leaf word (repairParentheses_passes (by decide))

theorem becomes_statement {body : Form} {new : List Char}
    (inside : body.Becomes repairParentheses page new) :
    (Tsql.statement body).Becomes repairParentheses page new := by
  have whole := Form.becomes_rule (repairParentheses_passes (by decide : Kind.statement ∉ _)) inside
    Forms.become_nil
  rwa [List.append_nil] at whole

theorem becomes_conditional {kind : Kind} {word : String} (g : Guard) {rest : Forms}
    {others : List Char} (isKind : kind = .ifStatement ∨ kind = .whileStatement)
    (visible : word.toList ≠ []) (later : rest.Become repairParentheses page others) :
    (Tsql.statement (.rule kind (keyword word) (.cons space (g.form .bare) rest))).Becomes
      repairParentheses page (word.toList ++ (space ++ (g.form .guarded).text ++ others)) := by
  refine becomes_statement fun recur column site reaches fills => ?_
  obtain ⟨below, rfl, inside⟩ := reaches.step
  have edit : repairParentheses below site = wrapCondition below site := by
    have isSite : site.kind = kind := fills.kind
    rw [repairParentheses, isSite]
    rcases isKind with rfl | rfl <;> rfl
  have wrapped := turns_wrapCondition visible (by simp [Guard.comparison, Form.kind])
    (keyword_becomes_same word) (becomes_plain g.kinds_comparison) later inside fills
  rw [edit]
  simpa [Guard.form, Tsql.parens, Form.text, Forms.text] using wrapped

mutual

/-- Every condition of a statement gets its parentheses. -/
theorem Code.becomes_guarded : ∀ s : Code,
    (s.form .bare).Becomes repairParentheses page (s.form .guarded).text
  | .simple s => by
    have whole := @becomes_statement page _ _ (becomes_plain s.kinds_form)
    simpa [Code.form, Tsql.statement, Tsql.Style.ending, Form.text, Forms.text] using whole
  | .when word g yes => by
    have later := Forms.become_cons space (becomes_guarded yes) Forms.become_nil
    have whole := becomes_conditional g (.inl rfl) word.1.visible later
    simpa [Code.form, Tsql.statement, Form.text, Forms.text] using whole
  | .choose word g yes other no => by
    have later := Forms.become_cons space (becomes_guarded yes) (Forms.become_cons space
      (keyword_becomes_same other.1.text) (Forms.become_cons space (becomes_guarded no) Forms.become_nil))
    have whole := becomes_conditional g (.inl rfl) word.1.visible later
    simpa [Code.form, Tsql.statement, Form.text, Forms.text] using whole
  | .loop word g body => by
    have later := Forms.become_cons space (becomes_guarded body) Forms.become_nil
    have whole := becomes_conditional g (.inr rfl) word.1.visible later
    simpa [Code.form, Tsql.statement, Form.text, Forms.text] using whole
  | .block first body last => by
    have closing := Forms.become_cons space (@keyword_becomes_same page last.1.text) Forms.become_nil
    have inside := @become_guarded _ (.cons space last.form .nil)
      (by simpa [Form.text, Forms.text] using closing) body
    have whole := becomes_statement (Form.becomes_rule (repairParentheses_passes
      (by decide : Kind.block ∉ _)) (keyword_becomes_same first.1.text) inside)
    simpa [Code.form, Tsql.statement, Form.text, Forms.text] using whole

theorem Code.become_guarded {rest rest' : Forms}
    (later : rest.Become repairParentheses page rest'.text) : ∀ ss : List Code,
    (Code.forms .bare rest ss).Become repairParentheses page (Code.forms .guarded rest' ss).text
  | [] => later
  | s :: ss => by
    have whole := Forms.become_cons space (becomes_guarded s) (become_guarded later ss)
    simpa [Code.forms, Forms.text] using whole

end

theorem becomes_body (s : Code) (ss : List Code) :
    (Form.rule .procedureBody (s.form .bare) (Code.forms .bare .nil ss)).Becomes repairParentheses page
      (Form.rule .procedureBody (s.form .guarded) (Code.forms .guarded .nil ss)).text :=
  Form.becomes_rule (repairParentheses_passes (by decide)) (Code.becomes_guarded s)
    (@Code.become_guarded page .nil .nil Forms.become_nil ss)

theorem text_procedure (style : Tsql.Style) (body : List Code) :
    (Tsql.procedure style body).text =
      "CREATE PROC p".toList ++ ((style.parameters .nil).text ++ (" AS".toList ++ (Code.body style body).text)) := by
  cases style <;> rfl

/-- Where there are no parameters, their parentheses are put behind the name. -/
theorem wrapParameters_eq {node create proc name as : Node Kind} {others : List (Node Kind)}
    (nodes : node.children = create :: proc :: name :: as :: others)
    (kinds : create.kind = .keyword ∧ proc.kind = .keyword ∧ name.kind = .qualifiedName ∧ as.kind = .keyword)
    (bodies : ∀ other ∈ others, other.kind = .procedureBody) :
    wrapParameters node = Edit.insertAfter name "()" := by
  have isName : node.firstChild? .qualifiedName = some name := by simp [Node.firstChild?, nodes, kinds]
  have isNone : node.firstChild? .procedureParameters = none := by
    simp +contextual [Node.firstChild?, nodes, kinds, bodies]
  rw [wrapParameters, isName, isNone]

theorem turns_wrapParameters {name : Node Kind}
    (atName : (Form.rule .qualifiedName (.leaf .identifier "p") .nil).Fills page.number
      (column + byteLength "CREATE PROC ".toList) name) :
    Turns page column "CREATE PROC p".toList (Edit.insertAfter name "()") "CREATE PROC p()".toList := by
  rw [atName.spans.insertAfter]
  exact (Turns.keep page column "CREATE PROC p".toList).insert (by decide) "()"

theorem becomes_procedure (body : List Code) :
    (Tsql.procedure .bare body).Becomes repairParentheses page (Tsql.procedure .guarded body).text := by
  intro recur column site reaches fills
  obtain ⟨below, rfl, inside⟩ := reaches.step
  have isSite : site.kind = .createProcedure := fills.kind
  obtain ⟨id, create, _, isNode, atCreate, proc, _, rfl, atProc, name, _, rfl, atName, as, others, rfl,
    atAs, atBody⟩ := fills
  let left := "CREATE PROC p".toList
  have kinds : create.kind = .keyword ∧ proc.kind = .keyword ∧ name.kind = .qualifiedName ∧
      as.kind = .keyword := ⟨atCreate.kind, atProc.kind, atName.kind, atAs.kind⟩
  have named : Turns page column left (Edit.insertAfter name "()") (left ++ "()".toList) :=
    turns_wrapParameters atName
  have wrapped (noParameters : ∀ node ∈ others, node.kind = .procedureBody) :
      wrapParameters site.node = Edit.insertAfter name "()" :=
    wrapParameters_eq (by rw [isNode]; rfl) kinds noParameters
  rw [repairParentheses, isSite]
  cases body with
  | nil =>
    obtain rfl : others = [] := atBody
    have none : site.firstChild? .procedureBody = none := by
      simp [Site.firstChild?, Site.children, isNode, Node.children, Site.row, Site.kind, kinds]
    simp only [none, wrapped (by simp)]
    have whole := named.append (Turns.keep page _ " AS".toList)
    rw [bind_pure_unit] at whole
    exact whole
  | cons s ss =>
    obtain ⟨node, _, rfl, atNode, rfl⟩ := atBody
    have isBody : node.kind = .procedureBody := atNode.kind
    have found : site.firstChild? .procedureBody =
        some ⟨node, site.node :: site.ancestors, some as, Option.none⟩ := by
      simp [Site.firstChild?, Site.children, isNode, Node.children, Site.row, Site.kind, kinds, isBody]
    simp only [found, wrapped (by simp [isBody])]
    have atBody := becomes_body s ss below _ ⟨node, site.node :: site.ancestors, some as, none⟩
      (inside _ (by simp [isNode, Node.children])) atNode
    have right := (Turns.keep page (column + byteLength left) (" AS".toList ++ space)).append atBody
    have whole := right.append_back named
    have bare : (Tsql.procedure .bare (s :: ss)).text = left ++ (" AS".toList ++ space ++
        (Form.rule .procedureBody (s.form .bare) (Code.forms .bare .nil ss)).text) := by
      simp [text_procedure, Tsql.Style.parameters, Code.body, Forms.text, left]
    have guarded : (Tsql.procedure .guarded (s :: ss)).text = left ++ "()".toList ++
        (" AS".toList ++ space ++
          (Form.rule .procedureBody (s.form .guarded) (Code.forms .guarded .nil ss)).text) := by
      simp [text_procedure, Tsql.Style.parameters, Tsql.parens, Code.body, Form.text, Forms.text, left]
    rw [pure_bind] at whole
    rw [bare, guarded]
    exact whole

theorem becomes_program_guarded (body : List Code) :
    (Tsql.program .bare body).Becomes repairParentheses page (Tsql.program .guarded body).text :=
  Form.becomes_rule (repairParentheses_passes (by decide)) (by simpa [Tsql.statement, Form.text, Forms.text] using becomes_statement (becomes_procedure body))
    Forms.become_nil

end SqlFerry.Pass
