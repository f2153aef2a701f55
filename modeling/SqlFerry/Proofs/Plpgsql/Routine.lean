import SqlFerry.Proofs.Plpgsql.Control

/-! Converting a procedure without parameters: its header gets new words, and its body is converted in
between. -/
namespace SqlFerry

namespace Tsql

variable (rename : String → String)

/-- Statements with a blank in front of each. -/
def Code.row (ss : List Code) : List Char := ss.flatMap fun s => space ++ s.target rename

/-- The body of a function, which has no `BEGIN` and `END` of its own. -/
def Code.bodyTarget : List Code → List Char
  | [.block _ inner _] => space ++ Code.targets rename inner
  | ss => Code.row rename ss

theorem Code.bodyTarget_other {body : List Code}
    (other : ∀ first inner last, body ≠ [.block first inner last]) :
    Code.bodyTarget rename body = Code.row rename body := by
  unfold Code.bodyTarget
  split
  · exact absurd rfl (other _ _ _)
  · rfl

end Tsql

namespace Plpgsql

open Text (byteLength)
open Tsql (Kind Form Forms Code keyword space)

variable {ctx : Context} {page : Page} {column : Nat} {recur : Site Kind → Edit Unit} {site : Site Kind}

/-- The nodes of a procedure that has neither parameters nor options. -/
structure HeaderAt (node : Node Kind) (create proc as : Token Kind) (name parameters : Node Kind)
    (rest : List (Node Kind)) : Prop where
  nodes : ∃ i j k l m n, node.children =
    .leaf i j create :: .leaf k l proc :: name :: parameters :: .leaf m n as :: rest
  isCreate : create.text = "CREATE" ∧ create.kind = .keyword
  isProc : proc.text = "PROC" ∧ proc.kind = .keyword
  isAs : as.text = "AS" ∧ as.kind = .keyword
  isName : name.kind = .qualifiedName ∧ name.token? = none
  isList : parameters.kind = .procedureParameters ∧ parameters.token? = none
  isEmpty : ∀ node ∈ parameters.children, node.kind ≠ .procedureParameter
  isBody : ∀ node ∈ rest, node.kind = .procedureBody ∧ node.token? = none

theorem forM_congr {α : Type} {f g : α → Edit PUnit} {items : List α} (same : ∀ item ∈ items, f item = g item) :
    forM items f = forM items g := by
  induction items with
  | nil => rfl
  | cons item items ih =>
    rw [List.forall_mem_cons] at same
    rw [List.forM_cons, List.forM_cons, same.1, ih same.2]

section Header

variable {create proc as : Token Kind} {name parameters : Node Kind} {rest : List (Node Kind)}

theorem HeaderAt.leafTokens {node : Node Kind} (header : HeaderAt node create proc as name parameters rest) :
    node.leafTokens = [create, proc, as] := by
  obtain ⟨i, j, k, l, m, n, nodes⟩ := header.nodes
  have noTokens : rest.filterMap Node.token? = [] :=
    List.filterMap_eq_nil_iff.mpr fun node member => (header.isBody node member).2
  have leaf (i j : Nat) (token : Token Kind) : (Node.leaf i j token).token? = some token := rfl
  simp only [Node.leafTokens, nodes, List.filterMap_cons, leaf, header.isName.2, header.isList.2, noTokens]

theorem HeaderAt.isWord {node : Node Kind} (header : HeaderAt node create proc as name parameters rest)
    (word : String) : create.isWord word = Text.sameWord "CREATE" word ∧
      proc.isWord word = Text.sameWord "PROC" word ∧ as.isWord word = Text.sameWord "AS" word := by
  simp only [Token.isWord, header.isCreate.1, header.isProc.1, header.isAs.1, and_self]

theorem HeaderAt.wordToken?_as {node : Node Kind} (header : HeaderAt node create proc as name parameters rest) :
    node.wordToken? "AS" = some as := by
  simp only [Node.wordToken?, header.leafTokens, List.find?_cons, header.isWord]
  rfl

/-- The edits of a procedure in order. -/
theorem convertProcedure_eq (header : HeaderAt site.node create proc as name parameters rest)
    (atName : ∀ site : Site Kind, site.node = name → recur site = pure ()) : ∃ before,
    convertProcedure ctx recur site =
      Edit.replaceToken create "CREATE OR REPLACE" >>= fun _ =>
      Edit.replaceToken proc "FUNCTION" >>= fun _ =>
      (Site.row (site.node :: site.ancestors) (some before) rest).forM (convertBody · recur) >>= fun _ =>
      Edit.replaceToken as ("RETURNS " ++
        Tsql.returnType ctx.options ctx.tree ctx.declarations site.node ++ " AS") := by
  have words : site.node.wordToken? "CREATE" = some create ∧ site.node.wordToken? "OR" = none ∧
      site.node.wordToken? "ALTER" = none ∧ site.node.wordToken? "FOR" = none := by
    simp only [Node.wordToken?, header.leafTokens, List.find?_cons, header.isWord]
    exact ⟨rfl, rfl, rfl, rfl⟩
  have procWord : site.node.leafTokens.find? (fun t => t.isWord "PROCEDURE" || t.isWord "PROC") = some proc := by
    simp only [header.leafTokens, List.find?_cons, header.isWord]
    rfl
  obtain ⟨i, j, k, l, m, n, nodes⟩ := header.nodes
  have children : ∃ first second third fourth fifth before, site.children =
      first :: second :: third :: fourth :: fifth :: Site.row (site.node :: site.ancestors) (some before) rest ∧
      first.kind = .keyword ∧ second.kind = .keyword ∧ third.node = name ∧ fourth.node = parameters ∧
      fifth.kind = .keyword := by
    rw [Site.children, nodes]
    exact ⟨_, _, _, _, _, _, rfl, header.isCreate.2, header.isProc.2, rfl, rfl, header.isAs.2⟩
  obtain ⟨first, second, third, fourth, fifth, before, children, isFirst, isSecond, isThird, isFourth,
    isFifth⟩ := children
  have isName : third.kind = .qualifiedName := by rw [Site.kind, isThird]; exact header.isName.1
  have isList : fourth.kind = .procedureParameters := by rw [Site.kind, isFourth]; exact header.isList.1
  have noParameters : fourth.childrenOf .procedureParameter = [] := by
    refine List.filter_eq_nil_iff.mpr fun child member => ?_
    have inside := Site.node_of_child member
    rw [isFourth] at inside
    simpa [Site.kind] using header.isEmpty _ inside
  have bodies : ∀ child ∈ Site.row (site.node :: site.ancestors) (some before) rest,
      child.kind = .procedureBody := by
    intro child member
    obtain ⟨front, back, whole, -⟩ := Site.mem_row member
    exact (header.isBody child.node (by rw [whole]; simp)).1
  refine ⟨before, ?_⟩
  simp only [convertProcedure, convertCreateWords, convertProcedureWord, dropReplication, words, procWord,
    header.wordToken?_as, children, List.forM_eq_forM, List.forM_cons, isFirst, isSecond, isName, isList, isFifth, noParameters, atName third isThird,
    convertParameters, pure_bind]
  rw [forM_congr]
  intro child member
  rw [bodies child member]

end Header

section Body

theorem turns_row {ss : List Code} {sites : List (Site Kind)}
    (reaches : ∀ site ∈ sites, (convert ctx).Reaches site.node recur)
    (fill : (Code.forms .ended .nil ss).Fill page.number column (sites.map (·.node)))
    (prints : Prints ctx.tree.lines page.number column (Code.forms .ended .nil ss).text) :
    TurnsIn page Begun AnyText column (Code.forms .ended .nil ss).text (sites.forM recur)
      (Code.row ctx.variableName ss) := by
  induction ss generalizing column sites with
  | nil =>
    obtain rfl : sites = [] := List.map_eq_nil_iff.mp fill
    exact (Turns.keep page _ []).turnsIn
  | cons s ss ih =>
    obtain ⟨node, nodes, isNodes, atNode, later⟩ := fill
    obtain ⟨site, sites, rfl, rfl, rfl⟩ := List.map_eq_cons_iff.mp isNodes
    rw [List.forall_mem_cons] at reaches
    have text : (Code.forms .ended .nil (s :: ss)).text =
      space ++ (s.form .ended).text ++ (Code.forms .ended .nil ss).text := rfl
    have target : Code.row ctx.variableName (s :: ss) =
      space ++ s.target ctx.variableName ++ Code.row ctx.variableName ss := rfl
    rw [text] at prints ⊢
    have blank : TurnsIn page Begun AnyText column space (pure ()) space := (Turns.keep page _ _).turnsIn
    have here := blank.append ((handles s).whole recur _ site reaches.1 atNode prints.front.back)
      (fun _ begun => begun.ready) fun _ _ => trivial
    have there := ih reaches.2 later (by simpa [Text.byteLength_append, Nat.add_assoc] using prints.back)
    have whole := here.append (by simpa [Text.byteLength_append, Nat.add_assoc] using there)
      (fun _ begun => begun.append _) fun _ _ => trivial
    rw [pure_bind] at whole
    rw [target]
    exact whole

theorem turns_convertBody {s : Code} {ss : List Code} (reaches : (convert ctx).Reaches site.node recur)
    (fills : (Form.rule .procedureBody (s.form .ended) (Code.forms .ended .nil ss)).Fills page.number
      (column + byteLength space) site.node)
    (prints : Prints ctx.tree.lines page.number column (Code.forms .ended .nil (s :: ss)).text) :
    TurnsIn page Begun StartsTight column (Code.forms .ended .nil (s :: ss)).text (convertBody site recur)
      (Code.bodyTarget ctx.variableName (s :: ss)) := by
  obtain ⟨id, top, others, isNode, atTop, atOthers⟩ := fills
  have nodes : site.children.map (·.node) = top :: others := by
    rw [Site.children, Site.map_node_row, isNode]
    rfl
  have fill : (Code.forms .ended .nil (s :: ss)).Fill page.number column (site.children.map (·.node)) :=
    ⟨top, others, nodes, atTop, atOthers⟩
  have inside : ∀ child ∈ site.children, (convert ctx).Reaches child.node recur :=
    fun child member => reaches.child (Site.node_of_child member)
  have all : site.childrenOf .statement = site.children := by
    refine List.filter_eq_self.mpr fun child member => ?_
    exact beq_iff_eq.mpr (kind_of_fill fill _ (List.mem_map_of_mem member))
  by_cases sole : ∃ opening inner ending, s :: ss = [.block opening inner ending]
  · obtain ⟨opening, inner, ending, isSole⟩ := sole
    obtain ⟨rfl, rfl⟩ := List.cons.inj isSole
    obtain rfl : others = [] := atOthers
    obtain ⟨branch, children, rfl⟩ := List.map_eq_singleton_iff.mp nodes
    rw [children] at inside all
    obtain ⟨block, first, last, sites, found, parts, opened⟩ := turns_branchBlock
      (fun s _ => (handles s).whole) (inside branch (by simp)) atTop prints.front.back
    have edit : convertBody site recur = (Edit.removeToken block.node.startToken >>= fun _ =>
        (block.childrenOf .statement).forM recur) >>= fun _ => Edit.removeToken block.node.stopToken := by
      simp [convertBody, soleBlock?, all, found]
    have text : (Code.forms .ended .nil [Code.block opening inner ending]).text =
        space ++ ((blockForm opening ending inner).text ++ []) := by
      rw [← text_block]
      simp [Code.forms, Forms.text]
    have blank : TurnsIn page Begun AnyText column space (pure ()) space := (Turns.keep page _ _).turnsIn
    have whole := blank.append (turns_droppedBlock parts opened [] (by simp)) (fun _ begun => begun.ready)
      fun _ _ => trivial
    rw [edit, text]
    exact whole
  · have none : soleBlock? site = none := by
      rw [soleBlock?, all]
      split
      · next branch children =>
        have isOne : [branch.node] = top :: others := by rw [← nodes, children]; rfl
        obtain ⟨rfl, rfl⟩ := List.cons.inj isOne
        have isNil : ss = [] := by
          cases ss with
          | nil => rfl
          | cons s ss =>
            obtain ⟨_, _, isCons, -⟩ := atOthers
            cases isCons
        refine firstChild?_other ?_ atTop
        cases s with
        | block first inner last => exact absurd ⟨first, inner, last, by rw [isNil]⟩ sole
        | _ => rfl
      · rfl
    rw [convertBody, none, Code.bodyTarget_other _ fun first inner last same => sole ⟨first, inner, last, same⟩]
    exact (turns_row inside fill prints).weaken (fun _ begun => begun) fun _ _ => trivial

theorem turns_body {body : List Code} {nodes : List (Node Kind)} {ancestors : List (Node Kind)}
    {before : Option (Node Kind)} (reaches : ∀ node ∈ nodes, (convert ctx).Reaches node recur)
    (fill : (Code.body .ended body).Fill page.number column nodes)
    (prints : Prints ctx.tree.lines page.number column (Code.body .ended body).text) :
    TurnsIn page Begun StartsTight column (Code.body .ended body).text
      ((Site.row ancestors before nodes).forM (convertBody · recur))
      (Code.bodyTarget ctx.variableName body) := by
  cases body with
  | nil =>
    obtain rfl : nodes = [] := fill
    exact (Turns.keep page column []).turnsIn
  | cons s ss =>
    obtain ⟨node, _, rfl, atNode, rfl⟩ := fill
    have text : (Code.body .ended (s :: ss)).text = (Code.forms .ended .nil (s :: ss)).text := by
      simp [Code.body, Code.forms, Form.text, Forms.text]
    rw [text] at prints ⊢
    have whole := @turns_convertBody ctx page column recur ⟨node, ancestors, before, none⟩ s ss
      (reaches node (by simp)) atNode prints
    simpa [Site.row] using whole

end Body

section Program

def headerFront : List Char := "CREATE PROC p() ".toList

def targetFront : List Char := "CREATE OR REPLACE FUNCTION p() ".toList

theorem begun_targetFront : Begun targetFront :=
  ⟨'C', "REATE OR REPLACE FUNCTION p() ".toList, by decide, by decide⟩

theorem headerAt_of_fills {body : List Code} {node : Node Kind} {number : Nat}
    (fills : (Tsql.procedure .ended body).Fills number column node) :
    ∃ create proc as name parameters rest, HeaderAt node create proc as name parameters rest ∧
      create.On number column "CREATE".toList ∧
      proc.On number (column + byteLength "CREATE ".toList) "PROC".toList ∧
      (Form.rule .qualifiedName (.leaf .identifier "p") .nil).Fills number
        (column + byteLength "CREATE PROC ".toList) name ∧
      as.On number (column + byteLength headerFront) "AS".toList ∧
      (Code.body .ended body).Fill number (column + byteLength headerFront + byteLength "AS".toList) rest := by
  obtain ⟨id, _, _, rfl, ⟨i, j, create, rfl, createKind, createOn⟩, _, _, rfl,
    ⟨k, l, proc, rfl, procKind, procOn⟩, name, _, rfl, atName, parameters, _, rfl, atParameters, _, rest, rfl,
    ⟨m, n, as, rfl, asKind, asOn⟩, atBody⟩ := fills
  refine ⟨create, proc, as, name, parameters, rest, ⟨⟨i, j, k, l, m, n, rfl⟩,
    ⟨String.toList_inj.mp createOn.text, createKind⟩, ⟨String.toList_inj.mp procOn.text, procKind⟩,
    ⟨String.toList_inj.mp asOn.text, asKind⟩, ?_, ?_, ?_, ?_⟩, createOn, procOn, atName, asOn, atBody⟩
  · obtain ⟨_, _, _, rfl, -⟩ := atName
    exact ⟨rfl, rfl⟩
  · obtain ⟨_, _, _, rfl, -⟩ := atParameters
    exact ⟨rfl, rfl⟩
  · obtain ⟨_, left, _, rfl, atLeft, right, _, rfl, atRight, rfl⟩ := atParameters
    have isLeft : left.kind = .leftParen := atLeft.kind
    have isRight : right.kind = .rightParen := atRight.kind
    simp [Node.children, isLeft, isRight]
  · cases body with
    | nil =>
      obtain rfl : rest = [] := atBody
      simp
    | cons s ss =>
      obtain ⟨_, _, rfl, ⟨_, _, _, rfl, -⟩, rfl⟩ := atBody
      simp [Node.kind, Node.token?]

/-- Three parts of a line, of which the last one is turned before the second. -/
theorem rewrites_parts {first second third first' second' third' : List Char} {room : Nat}
    {edit next last : Edit Unit} (begun : Begun first')
    (atFirst : Turns page 0 first edit first')
    (atThird : TurnsIn page Begun StartsTight (byteLength first + byteLength second) third next third')
    (atSecond : Turns page (byteLength first) second last second')
    (fits : byteLength first + byteLength second + byteLength third + byteLength first' +
      byteLength second' + byteLength third' ≤ room) :
    Rewrites page (· = []) (· = []) room 0 [.kept first, .kept second, .kept third]
      (edit >>= fun _ => next >>= fun _ => last)
      [.made (byteLength first) first', .made (byteLength second) second', .made (byteLength third) third'] := by
  have one : Rewrites page (· = []) (· = []) room 0 [.kept first, .kept second, .kept third] edit
      [.made (byteLength first) first', .kept second, .kept third] :=
    Rewrites.inside [] [.kept second, .kept third] (turns_iff.mp atFirst) (fun _ _ => trivial)
      (fun _ _ => trivial) (by simp; omega)
  have two : Rewrites page (· = []) (· = []) room 0
      [.made (byteLength first) first', .kept second, .kept third] next
      [.made (byteLength first) first', .kept second, .made (byteLength third) third'] := by
    refine @Rewrites.inside _ _ _ _ _ _ _ 0 _ _ _ [.made (byteLength first) first', .kept second] []
      (by simpa [TurnsIn] using atThird) ?_ ?_ (show _ ≤ room by simp; omega)
    · rintro _ rfl
      simpa using begun.append second
    · rintro _ rfl
      simp [StartsTight]
  have three : Rewrites page (· = []) (· = []) room 0
      [.made (byteLength first) first', .kept second, .made (byteLength third) third'] last
      [.made (byteLength first) first', .made (byteLength second) second',
        .made (byteLength third) third'] :=
    @Rewrites.inside _ _ _ _ _ _ _ 0 _ _ _ [.made (byteLength first) first'] [.made (byteLength third) third']
      (by simpa [TurnsIn] using turns_iff.mp atSecond) (fun _ _ => trivial) (fun _ _ => trivial)
      (show _ ≤ room by simp; omega)
  exact one.seq (two.seq three)

theorem turns_header {create proc : Token Kind} (createOn : create.On page.number 0 "CREATE".toList)
    (procOn : proc.On page.number (0 + byteLength "CREATE ".toList) "PROC".toList) :
    Turns page 0 headerFront
      (Edit.replaceToken create "CREATE OR REPLACE" >>= fun _ => Edit.replaceToken proc "FUNCTION")
      targetFront := by
  have first := (Turns.replaceToken createOn "CREATE OR REPLACE").append (Turns.keep page _ space)
  have second := (Turns.replaceToken procOn "FUNCTION").append (Turns.keep page _ " p() ".toList)
  have whole := first.append second
  have source : headerFront = "CREATE".toList ++ space ++ ("PROC".toList ++ " p() ".toList) := by decide
  have target : targetFront = "CREATE OR REPLACE".toList ++ space ++ ("FUNCTION".toList ++ " p() ".toList) := by
    decide
  rw [bind_pure_unit, bind_pure_unit] at whole
  rw [source, target]
  exact whole

theorem rewrites_procedure {body : List Code} {room : Nat}
    (reaches : ∀ child ∈ site.node.children, (convert ctx).Reaches child recur)
    (fills : (Tsql.procedure .ended body).Fills page.number 0 site.node)
    (prints : Prints ctx.tree.lines page.number (byteLength headerFront + byteLength "AS".toList)
      (Code.body .ended body).text) {type : String}
    (isType : Tsql.returnType ctx.options ctx.tree ctx.declarations site.node = type)
    (fits : byteLength headerFront + byteLength "AS".toList + byteLength (Code.body .ended body).text +
      byteLength targetFront + byteLength ("RETURNS " ++ type ++ " AS").toList +
      byteLength (Code.bodyTarget ctx.variableName body) ≤ room) :
    Rewrites page (· = []) (· = []) room 0
      [.kept headerFront, .kept "AS".toList, .kept (Code.body .ended body).text]
      (convertProcedure ctx recur site)
      [.made (byteLength headerFront) targetFront,
        .made (byteLength "AS".toList) ("RETURNS " ++ type ++ " AS").toList,
        .made (byteLength (Code.body .ended body).text) (Code.bodyTarget ctx.variableName body)] := by
  obtain ⟨create, proc, as, name, parameters, rest, header, createOn, procOn, atName, asOn, atBody⟩ :=
    headerAt_of_fills fills
  obtain ⟨i, j, k, l, m, n, nodes⟩ := header.nodes
  rw [nodes] at reaches
  have nameKept : ∀ other : Site Kind, other.node = name → recur other = pure () := by
    rintro other rfl
    obtain ⟨below, inner, edit, atInner, reachesInner, -⟩ :=
      recur_single (by decide) (reaches other.node (by simp)) atName
    rw [edit]
    exact recur_leaf (by decide) reachesInner atInner
  obtain ⟨before, edit⟩ := @convertProcedure_eq ctx recur site _ _ _ _ _ _ header nameKept
  rw [Nat.zero_add] at asOn atBody
  have front := turns_header createOn procOn
  have middle := @turns_body ctx page _ recur body rest (site.node :: site.ancestors) (some before)
    (fun node member => reaches node (by simp [member])) atBody prints
  have last := Turns.replaceToken asOn ("RETURNS " ++ type ++ " AS")
  have whole := rewrites_parts begun_targetFront front middle last fits
  rw [edit, isType]
  simpa only [bind_assoc] using whole

end Program

section Results

/-! ### What the context says -/

mutual

/-- Every `RETURN` of the form is without a value. -/
def Form.NoValue : Form → Prop
  | .leaf _ _ => True
  | .rule kind first rest => (kind = .returnStatement → rest = .nil) ∧ Form.NoValue first ∧ Forms.NoValue rest

def Forms.NoValue : Forms → Prop
  | .nil => True
  | .cons _ form rest => Form.NoValue form ∧ Forms.NoValue rest

end

mutual

theorem child?_of_noValue {number : Nat} : ∀ {form : Form} {column : Nat} {node : Node Kind}, Form.NoValue form →
    form.Fills number column node → ∀ below ∈ node.descendants, below.kind = .returnStatement →
      below.child? 1 = none
  | .leaf kind text, column, node, _, fills => by
    obtain ⟨id, index, token, rfl, -, -⟩ := fills
    simp [Node.descendants, Node.child?, Node.children]
  | .rule kind first rest, column, node, ⟨isReturn, inFirst, inRest⟩, fills => by
    obtain ⟨id, top, others, rfl, atFirst, atRest⟩ := fills
    rw [Node.descendants, List.forall_mem_cons, List.forall_mem_append]
    refine ⟨fun isKind => ?_, child?_of_noValue inFirst atFirst, child?_of_noValues inRest atRest⟩
    rw [isReturn isKind] at atRest
    obtain rfl : others = [] := atRest
    rfl

theorem child?_of_noValues {number : Nat} : ∀ {forms : Forms} {column : Nat} {nodes : List (Node Kind)},
    Forms.NoValue forms → forms.Fill number column nodes → ∀ below ∈ Node.descendantsOf nodes,
      below.kind = .returnStatement → below.child? 1 = none
  | .nil, column, nodes, _, fill => by
    obtain rfl : nodes = [] := fill
    simp [Node.descendantsOf]
  | .cons gap form rest, column, nodes, ⟨inFirst, inRest⟩, fill => by
    obtain ⟨node, others, rfl, atFirst, atRest⟩ := fill
    rw [Node.descendantsOf, List.forall_mem_append]
    exact ⟨child?_of_noValue inFirst atFirst, child?_of_noValues inRest atRest⟩

end

theorem noValue_simple (s : Tsql.Simple) : Form.NoValue s.form := by
  rcases s with _ | _ | ⟨_ | _ | _, _⟩ <;>
    simp [Tsql.Simple.form, Form.NoValue, Forms.NoValue, keyword, Tsql.Lexeme.form, Tsql.Jump.kind]

theorem noValue_guard (g : Tsql.Guard) : Form.NoValue (g.form .ended) := by
  simp [Tsql.Guard.form, Tsql.Guard.comparison, Tsql.parens, Form.NoValue, Forms.NoValue, Tsql.Lexeme.form]

mutual

theorem noValue_code : ∀ s : Code, Form.NoValue (s.form .ended)
  | .simple s => by simp [Code.form, Tsql.Style.ending, Form.NoValue, Forms.NoValue, noValue_simple]
  | .when word g yes => by
    simp [Code.form, Tsql.statement, keyword, Form.NoValue, Forms.NoValue, noValue_guard, noValue_code yes]
  | .choose word g yes other no => by
    simp [Code.form, Tsql.statement, keyword, Form.NoValue, Forms.NoValue, noValue_guard, noValue_code yes,
      noValue_code no]
  | .loop word g body => by
    simp [Code.form, Tsql.statement, keyword, Form.NoValue, Forms.NoValue, noValue_guard, noValue_code body]
  | .block first body last => by
    have inside := @noValue_codes (.cons space last.form .nil)
      (by simp [keyword, Form.NoValue, Forms.NoValue]) body
    simpa [Code.form, Tsql.statement, Form.NoValue, Forms.NoValue, keyword] using inside

theorem noValue_codes {rest : Forms} (later : Forms.NoValue rest) : ∀ ss : List Code,
    Forms.NoValue (Code.forms .ended rest ss)
  | [] => later
  | s :: ss => ⟨noValue_code s, noValue_codes later ss⟩

end

theorem noValue_procedure (body : List Code) : Form.NoValue (Tsql.procedure .ended body) := by
  have inBody : Forms.NoValue (Code.body .ended body) := by
    cases body with
    | nil => trivial
    | cons s ss => exact ⟨⟨by simp, noValue_code s, @noValue_codes .nil trivial ss⟩, trivial⟩
  simp [Tsql.procedure, Tsql.Style.parameters, Tsql.parens, keyword, Form.NoValue, Forms.NoValue, inBody]

/-- Kinds of nodes that declare something. -/
def declaringKinds : List Kind := [.procedureParameter, .variableDeclaration, .tableVariable]

theorem declarations_eq_nil {tree : Tree Kind}
    (other : ∀ node ∈ tree.descendants, node.kind ∉ declaringKinds) :
    Tsql.Declarations.ofTree tree = {} := by
  have none : tree.descendants.filterMap (Tsql.declarationOf? tree) = [] := by
    refine List.filterMap_eq_nil_iff.mpr fun node member => ?_
    have kinds := other node member
    rw [Tsql.declarationOf?]
    split
    · next isKind => simp [declaringKinds, isKind] at kinds
    · next isKind => simp [declaringKinds, isKind] at kinds
    · next isKind => simp [declaringKinds, isKind] at kinds
    · rfl
  rw [Tsql.Declarations.ofTree, none]
  rfl

end Results

end Plpgsql

end SqlFerry
