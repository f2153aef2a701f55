import SqlFerry.Plpgsql.Converter
import SqlFerry.Proofs.Tsql.Placement
import SqlFerry.Proofs.Tsql.Structure

/-! Expressions are converted by edits in place, and the edits amount to a translation by recursion on
the expression. Each node turns the stretch of the line that it covers into its translation, whatever
has become of the text around it. -/
namespace SqlFerry.Plpgsql

open Patch
open Tsql (Kind Fits AllFit InExpression IsConversion)
open Text (byteLength)

/-- What a token of an expression becomes. -/
def translateToken (ctx : Context) (token : Token Kind) : String :=
  match token.kind with
  | .userVariable => ctx.variableName token.text
  | .tempTable => ctx.tempTableName token.text
  | .quotedIdentifier => unbracket token.text
  | .systemVariable => (ctx.options.systemVariable? token.text).getD token.text
  | _ => token.text

/-- The source between two nodes. -/
def gapText (ctx : Context) (left right : Node Kind) : String :=
  textBetween ctx.tree.lines left.stop right.start

/-- What follows a node: the other nodes in their translations, with the source between them. -/
def weave (ctx : Context) (before : Node Kind) : List (Node Kind × String) → String
  | [] => ""
  | (node, text) :: rest => gapText ctx before node ++ text ++ weave ctx node rest

section Parts

variable (ctx : Context) (node : Node Kind) (first : Node Kind × String)

def translateSum : List (Node Kind × String) → String
  | [] => first.2
  | (operator, text) :: rest =>
    let sign := if operator.kind = .plus ∧ isConcatenation ctx node then "||" else text
    first.2 ++ gapText ctx first.1 operator ++ sign ++ weave ctx operator rest

/-- A call of a function that goes by another name, or that stands for something else as a whole. -/
def translateCall (rest : List (Node Kind × String)) : String :=
  match renameOf? ctx first.1 with
  | some rename =>
    if rename.dropsArguments then rename.target else rename.target ++ weave ctx first.1 rest
  | none => first.2 ++ weave ctx first.1 rest

def translateConversion : List (Node Kind × String) → String
  | (left, _) :: (type, _) :: _ :: (_, value) :: _ =>
    "CAST" ++ gapText ctx first.1 left ++ "(" ++ value ++ " AS " ++
      ctx.targetType (ctx.text type) ++ ")"
  | rest => first.2 ++ weave ctx first.1 rest

/-- The translation of a node, given its children with theirs. -/
def translateRule (rest : List (Node Kind × String)) : String :=
  match node.kind with
  | .dataType => ctx.targetType (ctx.text node)
  | .additiveExpression => translateSum ctx node first rest
  | .functionCall => translateCall ctx first rest
  | .convertExpression => translateConversion ctx first rest
  | _ => first.2 ++ weave ctx first.1 rest

end Parts

mutual

/-- The translation of an expression. -/
def translate (ctx : Context) : Node Kind → String
  | .leaf _ _ token => translateToken ctx token
  | .rule id kind first rest =>
    translateRule ctx (.rule id kind first rest) (first, translate ctx first) (translateAll ctx rest)

def translateAll (ctx : Context) : List (Node Kind) → List (Node Kind × String)
  | [] => []
  | node :: rest => (node, translate ctx node) :: translateAll ctx rest

end

section Translation

variable {ctx : Context} {page : Page} {recur : Site Kind → Edit Unit} {column : Nat}
  {text : List Char} {node : Node Kind}

/-- The walk turns a node into its translation, wherever the node stands on the line. -/
def Translates (ctx : Context) (page : Page) (recur : Site Kind → Edit Unit) (node : Node Kind) :
    Prop :=
  ∀ site column text, site.node = node → Prints ctx.tree.lines page.number column text →
    node.Spans page.number column text →
    Turns page column text (recur site) (translate ctx node).toList

theorem gapText_eq {left right : Node Kind} {gap : List Char}
    (stop : left.stop = ⟨page.number, column⟩)
    (start : right.start = ⟨page.number, column + byteLength gap⟩)
    (prints : Prints ctx.tree.lines page.number column gap) :
    gapText ctx left right = .ofList gap := by
  rw [gapText, stop, start, prints.textBetween]

/-- The visit turns a node into a text, wherever the node stands on the line. -/
def Renders (ctx : Context) (page : Page) (visit : Site Kind → Edit Unit) (node : Node Kind)
    (new : String) : Prop :=
  ∀ site column text, site.node = node → Prints ctx.tree.lines page.number column text →
    node.Spans page.number column text → Turns page column text (visit site) new.toList

theorem turns_sites {visit : Site Kind → Edit Unit} {new : Node Kind → String} {sites : List (Site Kind)}
    (each : ∀ site ∈ sites, Renders ctx page visit site.node (new site.node))
    {before : Node Kind} (stop : before.stop = ⟨page.number, column⟩)
    (trail : Trail page.number column text (Node.tokensOf (sites.map (·.node))))
    (prints : Prints ctx.tree.lines page.number column text) :
    Turns page column text (sites.forM visit)
      (weave ctx before ((sites.map (·.node)).map fun node => (node, new node))).toList := by
  induction sites generalizing before column text with
  | nil =>
    cases trail with
    | nil => exact Turns.keep page column []
  | cons site sites ih =>
    obtain ⟨gap, inside, back, rfl, spans, rest⟩ := trail.firstNode
    have first := each site List.mem_cons_self site _ _ rfl prints.front.back spans
    have others := ih (fun other later => each other (List.mem_cons_of_mem _ later)) spans.stop rest
      (by simpa [Nat.add_assoc] using prints.back)
    have both := (Turns.keep page column gap).append (first.append others)
    rw [List.map_cons, List.map_cons, weave, gapText_eq stop spans.start prints.front.front]
    simpa using both

theorem translateAll_eq_map (ctx : Context) (nodes : List (Node Kind)) :
    translateAll ctx nodes = nodes.map fun node => (node, translate ctx node) := by
  induction nodes with
  | nil => rfl
  | cons node nodes ih => rw [translateAll, ih, List.map_cons]

theorem turns_siblings {nodes : List (Node Kind)}
    (below : ∀ node ∈ nodes, Translates ctx page recur node) (ancestors : List (Node Kind))
    {before : Node Kind} (stop : before.stop = ⟨page.number, column⟩)
    (trail : Trail page.number column text (Node.tokensOf nodes))
    (prints : Prints ctx.tree.lines page.number column text) :
    Turns page column text ((Site.row ancestors (some before) nodes).forM recur)
      (weave ctx before (translateAll ctx nodes)).toList := by
  have nodes_row := Site.map_node_row ancestors (some before) nodes
  have turns := @turns_sites ctx page column text recur (translate ctx)
    (Site.row ancestors (some before) nodes) (fun site member => below site.node (by
      rw [← nodes_row]
      exact List.mem_map_of_mem member)) before stop (by rwa [nodes_row]) prints
  rwa [nodes_row, ← translateAll_eq_map] at turns

section Rules

variable {id : Nat} {kind : Kind} {first : Node Kind} {rest : List (Node Kind)}
  {ancestors : List (Node Kind)} {before after : Option (Node Kind)}

/-- A node whose children are walked over, the first of which may be treated in another way. -/
theorem turns_first {edit : Edit Unit} {new : String}
    (below : ∀ node ∈ rest, Translates ctx page recur node)
    (atFirst : ∀ text, Prints ctx.tree.lines page.number column text →
      first.Spans page.number column text → Turns page column text edit new.toList)
    (prints : Prints ctx.tree.lines page.number column text)
    (spans : (Node.rule id kind first rest).Spans page.number column text) :
    Turns page column text
      (edit >>= fun _ => (Site.row ancestors (some first) rest).forM recur)
      (new ++ weave ctx first (translateAll ctx rest)).toList := by
  obtain ⟨front, back, rfl, inFirst, inRest⟩ := spans.children
  have others := turns_siblings below ancestors inFirst.stop inRest prints.back
  simpa using (atFirst front prints.front inFirst).append others

theorem turns_children (below : ∀ node ∈ first :: rest, Translates ctx page recur node)
    (prints : Prints ctx.tree.lines page.number column text)
    (spans : (Node.rule id kind first rest).Spans page.number column text) :
    Turns page column text
      (Visit.children recur ⟨.rule id kind first rest, ancestors, before, after⟩)
      (translate ctx first ++ weave ctx first (translateAll ctx rest)).toList :=
  turns_first (fun node later => below node (List.mem_cons_of_mem _ later))
    (fun text prints spans => below first List.mem_cons_self _ column text rfl prints spans)
    prints spans

theorem turns_dataType (prints : Prints ctx.tree.lines page.number column text)
    (spans : node.Spans page.number column text) :
    Turns page column text (convertDataType ctx node) (ctx.targetType (ctx.text node)).toList := by
  unfold convertDataType
  dsimp only
  split
  · next same =>
    rw [same, Context.text, prints.treeText spans]
    simpa using Turns.keep page column text
  · exact Turns.replaceUntouched prints spans _

section Sum

variable {operator : Node Kind} {others : List (Node Kind)}
  (still : ∀ site, site.node = operator → recur site = pure ())
  (isSum : operator.kind = .plus ∧ isConcatenation ctx (.rule id kind first (operator :: others)))

include still isSum

theorem convertSum_eq : ∃ site above, site.node = first ∧
    convertSum ctx recur ⟨.rule id kind first (operator :: others), ancestors, before, after⟩ =
      recur site >>= fun _ => (Site.row above (some operator) others).forM recur >>= fun _ =>
        Edit.replaceNode operator "||" := by
  refine ⟨⟨first, .rule id kind first (operator :: others) :: ancestors, none, some operator⟩,
    .rule id kind first (operator :: others) :: ancestors, rfl, ?_⟩
  have second : (Node.rule id kind first (operator :: others)).child? 1 = some operator := rfl
  simp [convertSum, Visit.children, Site.children, Node.children, Site.row, still, second, isSum]

/-- A sum whose operator is replaced once the operands are done. -/
theorem turns_concatenation (below : ∀ node ∈ first :: others, Translates ctx page recur node)
    (prints : Prints ctx.tree.lines page.number column text)
    (spans : (Node.rule id kind first (operator :: others)).Spans page.number column text) :
    Turns page column text
      (convertSum ctx recur ⟨.rule id kind first (operator :: others), ancestors, before, after⟩)
      (translate ctx first ++ gapText ctx first operator ++ "||" ++
        weave ctx operator (translateAll ctx others)).toList := by
  obtain ⟨front, back, rfl, inFirst, inRest⟩ := spans.children
  obtain ⟨gap, sign, more, rfl, atSign, inOthers⟩ := inRest.firstNode
  obtain ⟨site, above, isFirst, edit⟩ := convertSum_eq still isSum
  rw [edit, gapText_eq inFirst.stop atSign.start prints.back.front.front]
  have atFirst := below first List.mem_cons_self site _ _ isFirst prints.front inFirst
  have behind := turns_siblings (fun node later => below node (List.mem_cons_of_mem _ later)) above
    atSign.stop inOthers (by simpa [Nat.add_assoc] using prints.back.back)
  have atOperator := behind.append_back (Turns.replaceNode atSign "||")
  have all := atFirst.append ((Turns.keep page _ gap).append atOperator)
  simpa using all

end Sum

theorem turns_call (isName : first.kind = .qualifiedName)
    (below : ∀ node ∈ first :: rest, Translates ctx page recur node)
    (prints : Prints ctx.tree.lines page.number column text)
    (spans : (Node.rule id kind first rest).Spans page.number column text) :
    Turns page column text
      (convertCall ctx recur ⟨.rule id kind first rest, ancestors, before, after⟩)
      (translateCall ctx (first, translate ctx first) (translateAll ctx rest)).toList := by
  have called : (Node.rule id kind first rest).firstChild? .qualifiedName = some first := by
    simp [Node.firstChild?, Node.children, isName]
  rw [convertCall, translateCall]
  simp only [called]
  cases renameOf? ctx first with
  | none => exact turns_children below prints spans
  | some rename =>
    dsimp only
    split
    · exact Turns.replaceTokenwise spans rename.target
    · exact turns_first (fun node later => below node (List.mem_cons_of_mem _ later))
        (fun text prints spans => Turns.replaceUntouched prints spans rename.target) prints spans

section Conversion

variable {keyword left type comma value right : Node Kind} {style : List (Node Kind)}

theorem conversion_spans (spans : (Node.rule id kind keyword
      ([left, type, comma, value] ++ style ++ [right])).Spans page.number column text) :
    ∃ name gap opening inside operand behind closing,
      text = name ++ gap ++ opening ++ inside ++ operand ++ behind ++ closing ∧ inside ≠ [] ∧
      keyword.Spans page.number column name ∧
      left.Spans page.number (column + byteLength (name ++ gap)) opening ∧
      value.Spans page.number (column + byteLength (name ++ gap ++ opening ++ inside)) operand ∧
      right.Spans page.number
        (column + byteLength (name ++ gap ++ opening ++ inside ++ operand ++ behind)) closing := by
  obtain ⟨name, rest, rfl, atKeyword, trail⟩ := spans.children
  obtain ⟨gap, opening, rest, rfl, atLeft, trail⟩ := trail.firstNode
  obtain ⟨gapType, typeName, rest, rfl, atType, trail⟩ := trail.firstNode
  obtain ⟨gapComma, mark, rest, rfl, atComma, trail⟩ := trail.firstNode
  obtain ⟨gapValue, operand, rest, rfl, atValue, trail⟩ := trail.firstNode
  change Trail _ _ _ (Node.tokensOf (style ++ [right])) at trail
  rw [Node.tokensOf_append] at trail
  obtain ⟨inStyle, rest, rfl, -, trail⟩ := trail.of_append
  obtain ⟨gapRight, closing, rest, rfl, atRight, trail⟩ := trail.firstNode
  cases trail with
  | nil =>
    refine ⟨name, gap, opening, gapType ++ typeName ++ gapComma ++ mark ++ gapValue, operand,
      inStyle ++ gapRight, closing, by simp, by simp [atType.visible], atKeyword, ?_, ?_, ?_⟩
    · simpa [Nat.add_assoc] using atLeft
    · simpa [Nat.add_assoc] using atValue
    · simpa [Nat.add_assoc] using atRight

theorem conversionParts?_eq (above : List (Node Kind)) (isType : type.kind = .dataType)
    (isRight : right.kind = .rightParen) : ∃ keyword' left' type' value' right',
      conversionParts? (Site.row above none
        (keyword :: ([left, type, comma, value] ++ style ++ [right]))) =
        some (keyword', left', type', value', right') ∧
      keyword'.node = keyword ∧ left'.node = left ∧ type'.node = type ∧ value'.node = value ∧
      right'.node = right := by
  have last : ((Site.row above (some value) (style ++ [right])).map (·.node)).getLast? =
      some right := by
    rw [Site.map_node_row, List.getLast?_concat]
  rw [List.getLast?_map] at last
  obtain ⟨right', isLast, rfl⟩ := Option.map_eq_some_iff.mp last
  refine ⟨⟨keyword, above, none, some left⟩, ⟨left, above, some keyword, some type⟩,
    ⟨type, above, some left, some comma⟩,
    ⟨value, above, some comma, (style ++ [right'.node]).head?⟩, right', ?_, rfl, rfl, rfl, rfl, rfl⟩
  have typeKind : (⟨type, above, some left, some comma⟩ : Site Kind).kind = .dataType := isType
  have rightKind : right'.kind = .rightParen := isRight
  change conversionParts? (_ :: _ :: ⟨type, above, some left, some comma⟩ :: _ :: _ ::
    Site.row above (some value) (style ++ [right'.node])) = _
  simp only [conversionParts?, isLast, typeKind, rightKind, and_self, if_true]
  rfl

/-- The edits of a conversion once its value is done: the value is read back, all that stands in the
parentheses goes, and what is put there instead comes behind the opening parenthesis. -/
theorem yields_recast {front back : List Patch}
    {name gap opening inside operand behind closing new : List Char}
    {keyword left right : Token Kind} {value : Node Kind} {target type : String}
    (some : inside ≠ [])
    (atKeyword : keyword.On page.number (widthOf front) name)
    (atLeft : left.On page.number (widthOf front + byteLength (name ++ gap)) opening)
    (atValue : value.Spans page.number
      (widthOf front + byteLength (name ++ gap ++ opening ++ inside)) operand)
    (atRight : right.On page.number
      (widthOf front + byteLength (name ++ gap ++ opening ++ inside ++ operand ++ behind)) closing)
    (fits : byteLength (textOf front) +
      byteLength (name ++ gap ++ opening ++ inside ++ operand ++ behind ++ closing) +
      byteLength (target.toList ++ gap ++ opening ++ new ++ type.toList ++ closing) +
      byteLength (textOf back) ≤ columnLimit) :
    Yields (page.Shows (front ++ [kept name, kept gap, kept opening, kept inside,
        made (byteLength operand) new, kept behind, kept closing] ++ back))
      (do
        let text := (← get).textOf value ++ type
        Edit.replaceToken keyword target
        Edit.removeBetween left right
        Edit.insertAfterToken left text)
      fun _ => page.Shows (front ++
        made (byteLength (name ++ gap ++ opening ++ inside ++ operand ++ behind ++ closing))
          (target.toList ++ gap ++ opening ++ new ++ type.toList ++ closing) :: back) := by
  simp only [Text.byteLength_append] at fits
  have someBytes : 0 < byteLength inside :=
    Nat.pos_of_ne_zero fun none => some (Text.byteLength_eq_zero.mp none)
  refine Yields.get fun e shown => ?_
  have read : e.textOf value = .ofList new := by
    have onPage : page.Shows ((front ++ [kept name, kept gap, kept opening, kept inside]) ++
        [made (byteLength operand) new] ++ ([kept behind, kept closing] ++ back)) e := by
      simpa using shown
    rw [Editor.textOf, atValue.start, atValue.stop]
    simpa [Nat.add_assoc] using onPage.textSpan
  have renamed := Turns.replaceToken atKeyword target front (kept gap :: kept opening ::
    kept inside :: made (byteLength operand) new :: kept behind :: kept closing :: back) rfl
    (by simp; omega)
  have between : Edit.removeBetween left right = Edit.replace page.number
      (widthOf (front ++ [made (byteLength name) target.toList, kept gap, kept opening] ++ []))
      (widthOf [kept inside, made (byteLength operand) new, kept behind]) "" := by
    rw [Edit.removeBetween, atLeft.stop, atRight.line, atRight.column]
    simp only [Text.byteLength_append, widthOf_append, widthOf_cons, widthOf_nil, width_kept,
      width_made, if_true]
    rw [if_pos (by omega)]
    congr 1 <;> omega
  have removed := page.yields_replace
    (front ++ [made (byteLength name) target.toList, kept gap, kept opening]) []
    [kept inside, made (byteLength operand) new, kept behind] (kept closing :: back) ""
    (by simp [some]) (by simp [Text.size]; omega)
  have behindLeft (text : String) : Edit.insertAfterToken left text = Edit.replace page.number
      (widthOf (front ++ [made (byteLength name) target.toList, kept gap] ++ [kept opening]))
      (widthOf []) text := by
    rw [Edit.insertAfterToken, Edit.insert, atLeft.stop]
    simp [Nat.add_assoc]
  have inserted := page.yields_replace
    (front ++ [made (byteLength name) target.toList, kept gap]) [kept opening] []
    (made (byteLength inside + byteLength operand + byteLength behind) [] :: kept closing :: back)
    (.ofList new ++ type) (by simp [atLeft.visible])
    (by simp [Text.size]; omega)
  rw [read, between]
  simp only [behindLeft]
  have joined := (Coarsens.refl front).append (coarsens_front [made (byteLength name) target.toList,
    kept gap, made (byteLength opening) (opening ++ new ++ type.toList),
    made (byteLength inside + byteLength operand + byteLength behind) [], kept closing] back)
  refine (renamed.bind fun _ => (removed.weaken ?_ fun _ _ h => h).bind fun _ =>
    inserted.weaken ?_ ?_).weaken ?_ fun _ _ h => h
  · exact fun e shown => by simpa using shown
  · exact fun e shown => by simpa [Nat.add_assoc] using shown
  · exact fun _ e shown => Page.Shows.coarsen (by simpa using shown) (by
      simpa [Nat.add_assoc] using joined)
  · rintro _ rfl
    simpa using shown

theorem convertConversion_eq (isType : type.kind = .dataType) (isParen : right.kind = .rightParen) :
    ∃ (notes : Edit Unit) (site : Site Kind),
      (notes = pure () ∨ ∃ (node : Node Kind) (message : String), notes = Edit.skip node message) ∧
      site.node = value ∧
      convertConversion ctx recur ⟨.rule id kind keyword
          ([left, type, comma, value] ++ style ++ [right]), ancestors, before, after⟩ =
        (do
          notes
          recur site
          let text := (← get).textOf value ++ (" AS " ++ ctx.targetType (ctx.text type))
          Edit.replaceToken keyword.startToken "CAST"
          Edit.removeBetween left.startToken right.startToken
          Edit.insertAfterToken left.stopToken text) := by
  have parted := @conversionParts?_eq keyword left type comma value right style
    (.rule id kind keyword ([left, type, comma, value] ++ style ++ [right]) :: ancestors) isType isParen
  obtain ⟨keyword', left', type', value', right', parts, rfl, rfl, rfl, rfl, rfl⟩ := parted
  obtain ⟨node, isNode⟩ : ∃ node, node = Node.rule id kind keyword'.node
      ([left'.node, type'.node, comma, value'.node] ++ style ++ [right'.node]) := ⟨_, rfl⟩
  have edit : convertConversion ctx recur ⟨node, ancestors, before, after⟩ = (do
      if 1 < (node.childrenOf .comma).length then Edit.skip node "CONVERT style argument dropped"
      recur value'
      let text := (← get).textOf value'.node ++ (" AS " ++ ctx.targetType (ctx.text type'.node))
      Edit.replaceToken keyword'.node.startToken "CAST"
      Edit.removeBetween left'.node.startToken right'.node.startToken
      Edit.insertAfterToken left'.node.stopToken text) := by
    rw [convertConversion]
    simp only [Site.children, isNode, Node.children, parts, String.append_assoc]
    rfl
  rw [← isNode, edit]
  split
  · exact ⟨_, value', .inr ⟨_, _, rfl⟩, rfl, rfl⟩
  · exact ⟨_, value', .inl rfl, rfl, rfl⟩

theorem turns_conversion (free : ∀ notes, page.notes notes)
    (leaves : ∀ node ∈ [keyword, left, right], node.isLeaf = true)
    (isLeft : left.startToken.text = "(") (isRight : right.startToken.text = ")")
    (isType : type.kind = .dataType) (isParen : right.kind = .rightParen)
    (atValue : Translates ctx page recur value)
    (prints : Prints ctx.tree.lines page.number column text)
    (spans : (Node.rule id kind keyword
      ([left, type, comma, value] ++ style ++ [right])).Spans page.number column text) :
    Turns page column text
      (convertConversion ctx recur ⟨.rule id kind keyword
        ([left, type, comma, value] ++ style ++ [right]), ancestors, before, after⟩)
      ("CAST" ++ gapText ctx keyword left ++ "(" ++ translate ctx value ++ " AS " ++
        ctx.targetType (ctx.text type) ++ ")").toList := by
  obtain ⟨name, gap, opening, inside, operand, behind, closing, rfl, some, keywordSpans, leftSpans,
    valueSpans, rightSpans⟩ := conversion_spans spans
  obtain ⟨onKeyword, -⟩ := keywordSpans.on_of_isLeaf (leaves _ (by simp))
  obtain ⟨onLeft, leftStop⟩ := leftSpans.on_of_isLeaf (leaves _ (by simp))
  obtain ⟨onRight, -⟩ := rightSpans.on_of_isLeaf (leaves _ (by simp))
  have isOpening : opening = ['('] := by rw [← onLeft.text, isLeft]; rfl
  have isClosing : closing = [')'] := by rw [← onRight.text, isRight]; rfl
  have printsGap : Prints ctx.tree.lines page.number (column + byteLength name) gap :=
    prints.front.front.front.front.front.back
  have printsValue := prints.front.front.back
  have isGap := gapText_eq keywordSpans.stop
    (show left.start = ⟨page.number, column + byteLength name + byteLength gap⟩ by
      simpa [Nat.add_assoc] using leftSpans.start) printsGap
  obtain ⟨notes, site, isNote, isValue, edit⟩ :=
    @convertConversion_eq ctx recur id kind ancestors before after keyword left type comma value right
      style isType isParen
  have converted := atValue site _ operand isValue printsValue valueSpans
  have whole : ("CAST" ++ gapText ctx keyword left ++ "(" ++ translate ctx value ++ " AS " ++
      ctx.targetType (ctx.text type) ++ ")").toList = "CAST".toList ++ gap ++ opening ++
        (translate ctx value).toList ++ (" AS " ++ ctx.targetType (ctx.text type)).toList ++ closing := by
    rw [isGap, isOpening, isClosing]
    simp
  rw [edit, leftStop, whole]
  intro front back start fits
  subst start
  have recast := yields_recast some onKeyword onLeft valueSpans onRight fits
  simp only [Text.byteLength_append] at fits
  have read := converted (front ++ [kept name, kept gap, kept opening, kept inside])
    (kept behind :: kept closing :: back) (by simp) (by simp; omega)
  have cut := (Coarsens.refl front).append ((coarsens_cuts [name, gap, opening, inside, operand, behind,
    closing]).append (Coarsens.refl back))
  have noted : Yields (page.Shows (front ++ kept (name ++ gap ++ opening ++ inside ++ operand ++
      behind ++ closing) :: back)) notes fun _ => page.Shows (front ++ kept (name ++ gap ++ opening ++
      inside ++ operand ++ behind ++ closing) :: back) := by
    rcases isNote with rfl | ⟨node, message, rfl⟩
    · exact Yields.pure fun _ h => h
    · exact page.yields_skip free node message _
  refine noted.bind fun _ => (read.weaken ?_ fun _ _ h => h).bind fun _ =>
    recast.weaken ?_ fun _ _ h => h
  · intro e shown
    have fine := shown.coarsen (by simpa using cut)
    simpa using fine
  · intro e shown
    simpa using shown

end Conversion

end Rules

/-- What is known of a token that lexing gives. -/
structure Lexed (token : Token Kind) : Prop where
  isToken : token.kind.isToken = true
  left : token.kind = .leftParen → token.text = "("
  right : token.kind = .rightParen → token.text = ")"

theorem convert_plain {site : Site Kind} {id index : Nat} {token : Token Kind}
    (isLeaf : site.node = .leaf id index token) (isToken : token.kind.isToken = true)
    (plain : token.kind ∉ [.userVariable, .tempTable, .quotedIdentifier, .systemVariable]) :
    convert ctx recur site = pure () := by
  have children : Visit.children recur site = pure () := by
    rw [Visit.children, Site.children, isLeaf]
    rfl
  have isKind : site.kind = token.kind := by rw [Site.kind, isLeaf]; rfl
  rw [convert, isKind]
  generalize token.kind = kind at *
  cases kind <;> first
    | exact absurd isToken Bool.false_ne_true
    | (simp at plain; done)
    | exact children

theorem turns_token (free : ∀ notes, page.notes notes) {site : Site Kind} {id index : Nat}
    {token : Token Kind} (isLeaf : site.node = .leaf id index token) (isToken : token.kind.isToken = true)
    (prints : Prints ctx.tree.lines page.number column text)
    (spans : (Node.leaf id index token).Spans page.number column text) :
    Turns page column text (convert ctx recur site) (translateToken ctx token).toList := by
  have isKind : site.kind = token.kind := by rw [Site.kind, isLeaf]; rfl
  have source : ctx.text (.leaf id index token) = token.text := by
    rw [Context.text, prints.treeText spans, ← spans.leaf.text, String.ofList_toList]
  have same : Turns page column text (pure ()) token.text.toList := by
    rw [spans.leaf.text]
    exact Turns.keep page column text
  rw [translateToken]
  split
  · next kind =>
    rw [convert, isKind, kind]
    dsimp only
    rw [isLeaf, Context.renameVariable, source]
    exact Turns.replaceUntouched prints spans _
  · next kind =>
    rw [convert, isKind, kind]
    dsimp only
    rw [isLeaf, Context.renameTempTable, source]
    exact Turns.replaceUntouched prints spans _
  · next kind =>
    rw [convert, isKind, kind]
    dsimp only
    rw [isLeaf, Context.unbracketName, source]
    split
    · next unchanged => rw [unchanged]; exact same
    · exact Turns.replaceUntouched prints spans _
  · next kind =>
    rw [convert, isKind, kind]
    dsimp only
    rw [isLeaf, convertSystemVariable, source]
    cases ctx.options.systemVariable? token.text with
    | some target => exact Turns.replaceUntouched prints spans _
    | none => exact Turns.skip free _ _ same
  · next noVariable noTable noQuote noSystem =>
    rw [convert_plain isLeaf isToken (by simp_all)]
    exact same

/-- A node of an expression that does not reach into a query. -/
structure Simple (node : Node Kind) : Prop where
  fits : AllFit node
  inside : InExpression node
  noQuery : ∀ below ∈ node.descendants, below.kind ≠ .subquery
  lexed : ∀ token ∈ node.tokens, Lexed token

theorem Simple.isOperand {id : Nat} {kind : Kind} {first : Node Kind} {rest : List (Node Kind)}
    (simple : Simple (.rule id kind first rest)) : kind.isOperand = true :=
  simple.inside.resolve_left Bool.false_ne_true

theorem Simple.child {id : Nat} {kind : Kind} {first : Node Kind} {rest : List (Node Kind)}
    (simple : Simple (.rule id kind first rest)) : ∀ child ∈ first :: rest, Simple child := by
  intro child member
  obtain ⟨⟨-, operands, -⟩, below⟩ := Tsql.allFit_rule.mp simple.fits
  have among : ∀ node ∈ child.descendants, node ∈ (Node.rule id kind first rest).descendants := by
    intro node inside
    refine List.mem_cons_of_mem _ ?_
    change node ∈ Node.descendantsOf (first :: rest)
    exact Tsql.mem_descendantsOf.mpr ⟨child, member, inside⟩
  exact {
    fits := below child member
    inside := operands simple.isOperand (simple.noQuery _ List.mem_cons_self) child member
    noQuery := fun node inside => simple.noQuery node (among node inside)
    lexed := fun token inside => simple.lexed token
      ((Node.tokens_among _ (among child child.mem_descendants)).subset inside) }

theorem Simple.lexedStart (simple : Simple node) (isLeaf : node.isLeaf = true) :
    Lexed node.startToken ∧ node.startToken.kind = node.kind := by
  cases node with
  | leaf id index token => exact ⟨simple.lexed token List.mem_cons_self, rfl⟩
  | rule id kind first rest => cases isLeaf

theorem convert_operand {site : Site Kind} (isOperand : site.kind.isOperand = true)
    (noQuery : site.kind ≠ .subquery)
    (other : site.kind ∉ [.dataType, .additiveExpression, .functionCall, .convertExpression]) :
    convert ctx recur site = Visit.children recur site ∧
      ∀ first rest, translateRule ctx site.node first rest = first.2 ++ weave ctx first.1 rest := by
  have isKind : site.node.kind = site.kind := rfl
  simp only [convert, translateRule, isKind]
  generalize site.kind = kind at *
  cases kind <;> first
    | exact absurd isOperand Bool.false_ne_true
    | (simp at other; done)
    | exact absurd rfl noQuery
    | exact ⟨rfl, fun _ _ => rfl⟩

theorem run_plus {depth : Nat} {site : Site Kind} (simple : Simple site.node)
    (isPlus : site.node.kind = .plus) : (convert ctx).run depth site = pure () := by
  cases depth with
  | zero => rfl
  | succ depth =>
    rw [Visit.run]
    cases isNode : site.node with
    | leaf id index token =>
      rw [isNode] at isPlus simple
      have kind : token.kind = .plus := isPlus
      exact convert_plain isNode (simple.lexed token List.mem_cons_self).isToken (by simp [kind])
    | rule id kind first rest =>
      rw [isNode] at isPlus simple
      obtain ⟨⟨noToken, -⟩, -⟩ := Tsql.allFit_rule.mp simple.fits
      obtain rfl : kind = .plus := isPlus
      cases noToken

section Rules

variable {depth id : Nat} {kind : Kind} {first : Node Kind} {rest ancestors : List (Node Kind)}
  {before after : Option (Node Kind)} (simple : Simple (.rule id kind first rest))
  (below : ∀ child ∈ first :: rest, Translates ctx page ((convert ctx).run depth) child)
  (prints : Prints ctx.tree.lines page.number column text)
  (spans : (Node.rule id kind first rest).Spans page.number column text)

include simple below prints spans

theorem turns_sum :
    Turns page column text
      (convertSum ctx ((convert ctx).run depth) ⟨.rule id kind first rest, ancestors, before, after⟩)
      (translateSum ctx (.rule id kind first rest) (first, translate ctx first)
        (translateAll ctx rest)).toList := by
  have woven := @turns_children ctx page ((convert ctx).run depth) column text id kind
    first rest ancestors before after below prints spans
  cases rest with
  | nil =>
    rw [convertSum, translateAll, translateSum]
    simpa [Node.child?, Node.children, translateAll, weave] using woven
  | cons operator others =>
    have second : (Node.rule id kind first (operator :: others)).child? 1 =
        some operator := rfl
    by_cases joins : operator.kind = .plus ∧
        isConcatenation ctx (.rule id kind first (operator :: others))
    · have still : ∀ site, site.node = operator → (convert ctx).run depth site = pure () := by
        rintro site rfl
        exact run_plus (simple.child _ (by simp)) joins.1
      have operands : ∀ child ∈ first :: others,
          Translates ctx page ((convert ctx).run depth) child :=
        fun child member => below child (by
          rcases List.mem_cons.mp member with rfl | later
          · exact List.mem_cons_self
          · exact List.mem_cons_of_mem _ (List.mem_cons_of_mem _ later))
      have turns := @turns_concatenation ctx page ((convert ctx).run depth) column text id _ first
        ancestors before after operator others still joins operands prints spans
      simp only [translateAll, translateSum, if_pos joins]
      exact turns
    · have edit : convertSum ctx ((convert ctx).run depth)
          ⟨.rule id kind first (operator :: others), ancestors, before, after⟩ =
          Visit.children ((convert ctx).run depth)
            ⟨.rule id kind first (operator :: others), ancestors, before, after⟩ := by
        simp only [convertSum, second, if_neg joins]
        exact bind_pure_unit
      rw [edit]
      simp only [translateAll, translateSum, if_neg joins]
      simpa [translateAll, weave] using woven

theorem turns_parts (free : ∀ notes, page.notes notes) (isConversion : IsConversion (first :: rest)) :
    Turns page column text
      (convertConversion ctx ((convert ctx).run depth)
        ⟨.rule id kind first rest, ancestors, before, after⟩)
      (translateConversion ctx (first, translate ctx first) (translateAll ctx rest)).toList := by
  obtain ⟨keyword, left, type, comma, value, style, right, shape, leaves, isLeft, -, isRight, isType, -⟩ :=
    isConversion
  obtain ⟨rfl, rfl⟩ := List.cons.inj shape
  have opens := (simple.child left (by simp)).lexedStart (leaves left (by simp))
  have closes := (simple.child right (by simp)).lexedStart (leaves right (by simp))
  exact turns_conversion free (fun node member => leaves node (by simp at member ⊢; grind))
    (opens.1.left (opens.2.trans isLeft)) (closes.1.right (closes.2.trans isRight)) isType isRight
    (below value (by simp)) prints spans

theorem turns_rule (free : ∀ notes, page.notes notes) :
    Turns page column text
      (convert ctx ((convert ctx).run depth) ⟨.rule id kind first rest, ancestors, before, after⟩)
      (translateRule ctx (.rule id kind first rest) (first, translate ctx first)
        (translateAll ctx rest)).toList := by
  obtain ⟨⟨-, -, isCall, isConversion⟩, -⟩ := Tsql.allFit_rule.mp simple.fits
  by_cases special : kind ∈ [.dataType, .additiveExpression, .functionCall, .convertExpression]
  · simp only [List.mem_cons, List.not_mem_nil, or_false] at special
    rcases special with rfl | rfl | rfl | rfl
    · rw [convert]
      exact turns_dataType prints spans
    · rw [convert]
      exact turns_sum simple below prints spans
    · rw [convert]
      exact turns_call (isCall rfl).1 below prints spans
    · rw [convert]
      exact turns_parts simple below prints spans free (isConversion rfl)
  · obtain ⟨isChildren, isWoven⟩ := @convert_operand ctx ((convert ctx).run depth)
      ⟨.rule id kind first rest, ancestors, before, after⟩ simple.isOperand
      (simple.noQuery _ List.mem_cons_self) special
    rw [isChildren, isWoven]
    exact turns_children below prints spans

end Rules

theorem translates_run (free : ∀ notes, page.notes notes) {depth : Nat} (simple : Simple node)
    (enough : node.height ≤ depth) : Translates ctx page ((convert ctx).run depth) node := by
  induction depth generalizing node with
  | zero => cases node <;> simp [Node.height] at enough
  | succ depth ih =>
    intro site column text isNode prints spans
    rw [Visit.run]
    cases node with
    | leaf id index token =>
      exact turns_token free isNode (simple.lexed token List.mem_cons_self).isToken prints spans
    | rule id kind first rest =>
      have below : ∀ child ∈ first :: rest, Translates ctx page ((convert ctx).run depth) child := by
        intro child member
        have short := Node.height_le_heightOf member
        simp only [Node.height, Node.heightOf] at enough short
        exact ih (simple.child child member) (by omega)
      obtain ⟨node, ancestors, before, after⟩ := site
      obtain rfl : node = .rule id kind first rest := isNode
      rw [translate]
      exact turns_rule simple below prints spans free

end Translation

theorem parse_lexed {source : String} {tree : Tree Kind} (parsed : Tsql.parse source = .ok tree) :
    ∀ token ∈ tree.tokens, Lexed token := by
  intro token member
  obtain ⟨c, rest, n, found, isText⟩ := Tsql.mem_lexFrom (Tsql.parse_tree parsed).1 token member
  obtain ⟨left, right⟩ := Tsql.paren_of_tokenPiece found
  refine ⟨Tsql.isToken_of_tokenPiece found, fun isLeft => ?_, fun isRight => ?_⟩
  · obtain ⟨rfl, rfl⟩ := left isLeft
    exact String.toList_inj.mp isText
  · obtain ⟨rfl, rfl⟩ := right isRight
    exact String.toList_inj.mp isText

theorem parse_simple {source : String} {tree : Tree Kind} (parsed : Tsql.parse source = .ok tree)
    {node : Node Kind} (member : node ∈ tree.descendants) (inside : InExpression node)
    (noQuery : ∀ below ∈ node.descendants, below.kind ≠ .subquery) : Simple node where
  fits below inner := Tsql.parse_allFit parsed below ((Tree.descendants_among member).subset inner)
  inside := inside
  noQuery := noQuery
  lexed token among :=
    parse_lexed parsed token ((Tsql.tokens_of_parse parsed member).subset among)

/-- Converting an expression amounts to translating it: the edits succeed, the place of the expression
then holds its translation, and the text around it is as it was. -/
theorem convert_translates (options : Options) (source : String) (tree : Tree Kind)
    (parsed : Tsql.parse source = .ok tree) (site : Site Kind) (depth : Nat)
    (member : site.node ∈ tree.descendants) (inside : InExpression site.node)
    (single : site.node.isSingleLine = true)
    (noQuery : ∀ below ∈ site.node.descendants, below.kind ≠ .subquery)
    (enough : site.node.height ≤ depth) (held : Text.size source ≤ textLimit)
    (heldResult : Text.size (translate (.ofTree options tree) site.node) ≤ textLimit) :
    ∃ (e : Editor) (front : List String) (before after : String) (back : List String),
      ((convert (.ofTree options tree)).run depth site).run (.ofLines tree.lines) = .ok () e ∧
      e.textOf site.node = translate (.ofTree options tree) site.node ∧
      site.node.start = ⟨front.length + 1, Text.size before⟩ ∧
      tree.lines = front ++ (before ++ tree.text site.node ++ after) :: back ∧
      e.texts = front ++ (before ++ translate (.ofTree options tree) site.node ++ after) :: back := by
  obtain ⟨front, left, text, right, back, lines, spans⟩ := Tsql.parse_spans parsed member single
  have prints : Prints tree.lines (front.length + 1) (byteLength left) text :=
    ⟨front, left, right, back, lines, rfl, rfl⟩
  have isText := prints.treeText spans
  let page : Page := ⟨front.map fun text => { text }, back.map fun text => { text }, fun _ => True⟩
  have number : page.number = front.length + 1 := by simp [Page.number, page]
  have short : byteLength left + byteLength text + byteLength right ≤ textLimit := by
    have inLines : String.ofList (left ++ text ++ right) ∈ Text.lines source := by
      rw [← (Tsql.parse_tree parsed).2.1, lines]
      simp
    have whole := Text.size_line_le inLines
    simp only [Text.size_ofList, Text.byteLength_append] at whole
    omega
  have limits : textLimit + textLimit ≤ columnLimit := by decide
  have shown : page.Shows ([kept left] ++ kept text :: [kept right]) (.ofLines tree.lines) := by
    refine ⟨{ text := .ofList (left ++ text ++ right) }, ?_, ?_, trivial⟩
    · simpa [lines, page] using Editor.holds_ofLines tree.lines
    · have fresh : Patchwork { text := .ofList (left ++ text ++ right) }
          [kept (String.ofList (left ++ text ++ right)).toList] := .ofText (by
            rw [Text.size_ofList, Text.byteLength_append, Text.byteLength_append]
            omega)
      exact fresh.coarsen (by simpa using coarsens_cuts [left, text, right])
  have turns : Turns page (byteLength left) text ((convert (.ofTree options tree)).run depth site)
      (translate (.ofTree options tree) site.node).toList := by
    refine translates_run (fun _ => trivial) (parse_simple parsed member inside noQuery) enough site _ _
      rfl ?_ ?_
    · rw [number]; exact prints
    · rw [number]; exact spans
  have room : byteLength (textOf [kept left]) + byteLength text +
      byteLength (translate (.ofTree options tree) site.node).toList +
      byteLength (textOf [kept right]) ≤ columnLimit := by
    rw [Text.size] at heldResult
    simp
    omega
  obtain ⟨_, e, ran, after⟩ := turns [kept left] [kept right] (by simp) room _ shown
  refine ⟨e, front, .ofList left, .ofList right, back, ran, ?_, ?_, ?_, ?_⟩
  · have onPage : page.Shows ([kept left] ++
        [made (byteLength text) (translate (.ofTree options tree) site.node).toList] ++
        [kept right]) e := by simpa using after
    rw [Editor.textOf, spans.start, spans.stop, ← number]
    simpa using onPage.textSpan
  · rw [spans.start, Text.size_ofList]
  · rw [isText, ← String.ofList_append, ← String.ofList_append]
    exact lines
  · obtain ⟨l, holds, patched, -⟩ := after
    have current : l.text = String.ofList left ++ translate (.ofTree options tree) site.node ++
        .ofList right := by
      apply String.toList_inj.mp
      rw [patched.text]
      simp
    rw [holds.texts]
    simp [page, current, Function.comp_def]

theorem nested_conversion_translated : ∃ tree node e,
    Tsql.parse "PRINT CONVERT(ntext, ISNULL(@a, GETDATE()), 1) + [b]" = .ok tree ∧
    tree.descendants.find? (·.kind == .additiveExpression) = some node ∧
    ((convert (.ofTree {} tree)).run node.height (.ofNode node)).run (.ofLines tree.lines) = .ok () e ∧
    e.textOf node = "CAST(coalesce(_vA, now()) AS text) || b" := by
  have lexed : Tsql.lex "PRINT CONVERT(ntext, ISNULL(@a, GETDATE()), 1) + [b]" = .ok
      [⟨.keyword, "PRINT", 1, 0⟩, ⟨.keyword, "CONVERT", 1, 6⟩, ⟨.leftParen, "(", 1, 13⟩,
        ⟨.identifier, "ntext", 1, 14⟩, ⟨.comma, ",", 1, 19⟩, ⟨.identifier, "ISNULL", 1, 21⟩,
        ⟨.leftParen, "(", 1, 27⟩, ⟨.userVariable, "@a", 1, 28⟩, ⟨.comma, ",", 1, 30⟩,
        ⟨.identifier, "GETDATE", 1, 32⟩, ⟨.leftParen, "(", 1, 39⟩, ⟨.rightParen, ")", 1, 40⟩,
        ⟨.rightParen, ")", 1, 41⟩, ⟨.comma, ",", 1, 42⟩, ⟨.numberLiteral, "1", 1, 44⟩,
        ⟨.rightParen, ")", 1, 45⟩, ⟨.plus, "+", 1, 47⟩, ⟨.quotedIdentifier, "[b]", 1, 49⟩] := by
    with_unfolding_all rfl
  obtain ⟨tree, parsed, node, found, single, noQuery, translated⟩ : ∃ tree,
      Tsql.parse "PRINT CONVERT(ntext, ISNULL(@a, GETDATE()), 1) + [b]" = .ok tree ∧
      ∃ node, tree.descendants.find? (·.kind == .additiveExpression) = some node ∧
        node.isSingleLine = true ∧ (node.descendants.all (·.kind != .subquery)) = true ∧
        translate (.ofTree {} tree) node = "CAST(coalesce(_vA, now()) AS text) || b" :=
    ⟨_, congrArg (· >>= Tsql.parseTokens "PRINT CONVERT(ntext, ISNULL(@a, GETDATE()), 1) + [b]")
      lexed, _, by with_unfolding_all rfl, by with_unfolding_all rfl, by with_unfolding_all rfl,
      by set_option maxRecDepth 1000 in with_unfolding_all rfl⟩
  have kind : node.kind = .additiveExpression := by simpa using List.find?_some found
  obtain ⟨e, front, before, after, back, ran, text, -⟩ := convert_translates {} _ tree parsed
    (.ofNode node) node.height (List.mem_of_find?_eq_some found)
    (.inr (by rw [Site.ofNode, kind]; rfl)) single
    (fun below member => by simpa using List.all_eq_true.mp noQuery below member) (Nat.le_refl _)
    (by decide) (by rw [show (Site.ofNode node).node = node from rfl, translated]; decide)
  exact ⟨tree, node, e, parsed, found, ran, text.trans translated⟩

end SqlFerry.Plpgsql
