import SqlFerry.Proofs.Tsql.Expression
import SqlFerry.Proofs.Tsql.Form

/-! Procedures of plain control flow, with each word of the language in any spelling. -/
namespace SqlFerry.Tsql

open Production Grammar

def Lexeme.form (l : Lexeme) : Form := .leaf l.kind l.text

theorem Lexeme.visible (l : Lexeme) : l.text.toList ≠ [] := by
  obtain ⟨c, cs, text, -⟩ := l.standalone
  simp [text]

abbrev Integer : Type :=
  Terminal fun l => l.kind == .numberLiteral && l.text.toList.all Char.isDigit

abbrev Variable : Type := Mark [.userVariable]

abbrev Comparison : Type :=
  Mark [.equals, .notEquals, .less, .greater, .lessEquals, .greaterEquals]

/-- The statements that are a single word. -/
inductive Jump where
  | finish | leave | again

namespace Jump

def word : Jump → String
  | finish => "RETURN"
  | leave => "BREAK"
  | again => "CONTINUE"

def kind : Jump → Kind
  | finish => .returnStatement
  | leave => .breakStatement
  | again => .continueStatement

end Jump

/-- Statements without others inside. -/
inductive Simple where
  | print (word : Word "PRINT") (value : Integer)
  | assign (word : Word "SET") (name : Variable) (value : Integer)
  | jump (jump : Jump) (word : Word jump.word)

structure Guard where
  name : Variable
  op : Comparison
  value : Integer

/-- Statements of control flow. -/
inductive Code where
  | simple (statement : Simple)
  /-- `IF` without `ELSE`. -/
  | when (word : Word "IF") (guard : Guard) (yes : Code)
  | choose (word : Word "IF") (guard : Guard) (yes : Code) (other : Word "ELSE") (no : Code)
  | loop (word : Word "WHILE") (guard : Guard) (body : Code)
  | block (first : Word "BEGIN") (body : List Code) (last : Word "END")

/-- How a procedure is written: as it comes, with parentheses around conditions and parameters, or with
semicolons behind statements too. -/
inductive Style where
  | bare | guarded | ended

def space : List Char := [' ']

theorem isIndent_space : ∀ c ∈ space, Text.isIndent c = true := List.all_eq_true.mp rfl

def keyword (word : String) : Form := .leaf .keyword word

@[simp] theorem text_keyword (word : String) : (keyword word).text = word.toList := rfl

abbrev Word.form {w : String} (word : Word w) : Form := keyword word.1.text

@[simp] theorem Word.text_form {w : String} (word : Word w) : word.form.text = word.1.text.toList := rfl

def Simple.form : Simple → Form
  | print word value => .rule .print word.form (.cons space value.1.form .nil)
  | assign word name value => .rule .setVariable word.form
      (.cons space name.1.form (.cons space (.leaf .equals "=") (.cons space value.1.form .nil)))
  | jump j word => .rule j.kind word.form .nil

def Guard.comparison (g : Guard) : Form :=
  .rule .comparisonExpression g.name.1.form (.cons space g.op.1.form (.cons space g.value.1.form .nil))

def parens (kind : Kind) (inside : Forms → Forms) : Form :=
  .rule kind (.leaf .leftParen "(") (inside (.cons [] (.leaf .rightParen ")") .nil))

def Guard.form (g : Guard) : Style → Form
  | .bare => g.comparison
  | .guarded | .ended => parens .parenExpression (.cons [] g.comparison)

def Style.ending : Style → Forms
  | .bare | .guarded => .nil
  | .ended => .cons [] (.leaf .semicolon ";") .nil

def statement (body : Form) : Form := .rule .statement body .nil

mutual

def Code.form (style : Style) : Code → Form
  | .simple s => .rule .statement s.form style.ending
  | .when word g yes => statement (.rule .ifStatement word.form
      (.cons space (g.form style) (.cons space (yes.form style) .nil)))
  | .choose word g yes other no => statement (.rule .ifStatement word.form
      (.cons space (g.form style) (.cons space (yes.form style)
        (.cons space other.form (.cons space (no.form style) .nil)))))
  | .loop word g body => statement (.rule .whileStatement word.form
      (.cons space (g.form style) (.cons space (body.form style) .nil)))
  | .block first body last => statement (.rule .block first.form
      (Code.forms style (.cons space last.form .nil) body))

/-- Statements in front of other forms. -/
def Code.forms (style : Style) (rest : Forms) : List Code → Forms
  | [] => rest
  | s :: ss => .cons space (s.form style) (Code.forms style rest ss)

end


/-- The parameters of the procedure, in front of other forms. -/
def Style.parameters (rest : Forms) : Style → Forms
  | .bare => rest
  | .guarded | .ended => .cons [] (parens .procedureParameters id) rest

/-- The body of the procedure, of which nothing is left if it is empty. -/
def Code.body (style : Style) : List Code → Forms
  | [] => .nil
  | s :: ss => .cons space (.rule .procedureBody (s.form style) (Code.forms style .nil ss)) .nil

def procedure (style : Style) (body : List Code) : Form :=
  .rule .createProcedure (keyword "CREATE") (.cons space (keyword "PROC")
    (.cons space (.rule .qualifiedName (.leaf .identifier "p") .nil)
      (style.parameters (.cons space (keyword "AS") (Code.body style body)))))

/-- The text of one procedure. -/
def program (style : Style) (body : List Code) : Form :=
  .rule .compileUnit (statement (procedure style body)) .nil

/-! ### Reading -/

theorem Integer.kind (n : Integer) : n.1.kind = .numberLiteral :=
  beq_iff_eq.mp (Bool.and_eq_true_iff.mp n.2).1

theorem Variable.kind (v : Variable) : v.1.kind = .userVariable := by simpa using v.2

def Integer.operand (n : Integer) : Phrase .sum :=
  .operand (.operand (.unsigned (.literal ⟨n.1, by simp [n.kind]⟩)))

def Integer.phrase (n : Integer) : Phrase .disjunction :=
  .operand (.operand (.positive (.plain n.operand)))

def Guard.phrase (g : Guard) : Phrase .disjunction :=
  .operand (.operand (.positive (.compare
    (.operand (.operand (.unsigned (.literal ⟨g.name.1, by simp [g.name.kind]⟩)))) g.op
    g.value.operand)))

def leftParen : Mark [.leftParen] := ⟨⟨.leftParen, "(", by with_unfolding_all rfl⟩, rfl⟩

def rightParen : Mark [.rightParen] := ⟨⟨.rightParen, ")", by with_unfolding_all rfl⟩, rfl⟩

def Guard.phraseIn (g : Guard) : Style → Phrase .disjunction
  | .bare => g.phrase
  | .guarded | .ended => .operand (.operand (.positive (.plain
      (.operand (.operand (.unsigned (.paren leftParen g.phrase rightParen)))))))

theorem Guard.faces_form (g : Guard) (style : Style) : (g.form style).faces = (g.phraseIn style).faces := by
  cases style <;> rfl

theorem Guard.shape_form (g : Guard) (style : Style) :
    [(g.form style).shape] = (g.phraseIn style).shapes := by
  cases style <;> rfl

/-- The token is another one in another spelling. -/
structure Respells (face head : Kind × String) : Prop where
  kind : face.1 = head.1
  word : Text.sameWord face.2 head.2 = true

theorem Respells.foresees {face head : Kind × String} (respells : Respells face head)
    (front rest : List (Kind × String)) (look : Look) :
    look.foresees (front ++ face :: rest) = look.foresees (front ++ head :: rest) := by
  obtain ⟨kind, text⟩ := face
  obtain rfl : kind = head.1 := respells.kind
  exact Look.foresees_spelling respells.word _ front rest look

theorem Respells.finds {face head : Kind × String} (respells : Respells face head)
    (front rest : List (Kind × String)) {choices : List (Look × Production Rule)}
    {choice : Look × Production Rule}
    (found : (choices.find? fun choice => choice.1.foresees (front ++ head :: rest)) = some choice) :
    (choices.find? fun choice => choice.1.foresees (front ++ face :: rest)) = some choice := by
  simpa only [respells.foresees] using found

/-- The token is one of some others, in whatever spelling. -/
def Among (heads : List (Kind × String)) (face : Kind × String) : Prop := ∃ head ∈ heads, Respells face head

theorem Among.self {heads : List (Kind × String)} {face : Kind × String} (member : face ∈ heads) :
    Among heads face := ⟨face, member, rfl, by simp [Text.sameWord]⟩

/-- What follows is nothing or starts with one of the tokens. -/
def Heads (heads follow : List (Kind × String)) : Prop := ∀ first ∈ follow.head?, Among heads first

theorem Heads.foresees {heads follow : List (Kind × String)} (starts : Heads heads follow) {look : Look}
    (atEnd : look.foresees [] = false)
    (each : ∀ rest, (heads.all fun first => !look.foresees (first :: rest)) = true) :
    look.foresees follow = false := by
  cases follow with
  | nil => exact atEnd
  | cons first rest =>
    obtain ⟨head, member, respells⟩ := starts first rfl
    have fails := List.all_eq_true.mp (each rest) head member
    exact (respells.foresees [] rest look).trans (by simpa using fails)

theorem Heads.cons {heads : List (Kind × String)} {first : Kind × String}
    (among : Among heads first) (rest : List (Kind × String)) : Heads heads (first :: rest) := by
  simpa [Heads] using among

theorem Heads.weaken {heads more follow : List (Kind × String)} (starts : Heads heads follow)
    (subset : heads ⊆ more) : Heads more follow := by
  intro first isFirst
  obtain ⟨head, member, spelled⟩ := starts first isFirst
  exact ⟨head, subset member, spelled⟩

def starters : List (Kind × String) :=
  ["PRINT", "SET", "RETURN", "BREAK", "CONTINUE", "IF", "WHILE", "BEGIN"].map (.keyword, ·)

/-- What may stand behind a statement that has no room for `ELSE`. -/
def closers : List (Kind × String) := (.keyword, "END") :: starters

def separators : List (Kind × String) := (.semicolon, ";") :: (.keyword, "ELSE") :: closers

namespace Word

variable {w : String} (word : Word w)

def face : Kind × String := (.keyword, word.1.text)

theorem sameWord : Text.sameWord word.1.text w = true := (Bool.and_eq_true_iff.mp word.2).2

theorem respells : Respells word.face (.keyword, w) := ⟨rfl, word.sameWord⟩

theorem among {heads : List (Kind × String)} (member : (.keyword, w) ∈ heads) : Among heads word.face :=
  ⟨_, member, word.respells⟩

theorem sees {look : Look} {rest : List (Kind × String)} {answer : Bool}
    (capitals : look.foresees ((.keyword, w) :: rest) = answer) :
    look.foresees (word.face :: rest) = answer :=
  (word.respells.foresees [] rest look).trans capitals

theorem finds {choices : List (Look × Production Rule)} {choice : Look × Production Rule}
    {rest : List (Kind × String)}
    (capitals : (choices.find? fun choice => choice.1.foresees ((.keyword, w) :: rest)) = some choice) :
    (choices.find? fun choice => choice.1.foresees (word.face :: rest)) = some choice :=
  word.respells.finds [] rest capitals

end Word

theorem Simple.takes (s : Simple) {depth : Nat} {follow : List (Kind × String)}
    (front : List (Shape Kind)) (around : List (Kind × List (Shape Kind)))
    (enough : 10 * s.form.faces.length + 9 ≤ depth) (starts : Heads separators follow) :
    Takes (readRule depth .statementBody) ⟨s.form.faces ++ follow, front, around⟩
      ⟨follow, front ++ [s.form.shape], around⟩ := by
  obtain ⟨depth, rfl⟩ : ∃ d, depth = d + 2 := ⟨depth - 2, by omega⟩
  refine Takes.entered ?_
  cases s with
  | print word value =>
    have stops : Level.disjunction.goesOn.foresees follow = false :=
      starts.foresees rfl fun _ => rfl
    have length : (print word value).form.faces.length = 2 := rfl
    refine Takes.branch_neg rfl rfl (Takes.branch_neg rfl rfl
      (Takes.choose rfl (word.finds rfl) (Takes.entered (Takes.node (by simp) (Takes.seq Takes.token ?_)))))
    exact Takes.seq (value.phrase.reads.called (by
      have : value.phrase.faces.length = 1 := rfl
      simp only [Level.rank]; omega) stops rfl) Takes.nothing
  | assign word name value =>
    have stops : Level.disjunction.goesOn.foresees follow = false :=
      starts.foresees rfl fun _ => rfl
    obtain ⟨⟨kind, text, lexes⟩, isName⟩ := name
    obtain rfl : kind = .userVariable := by simpa using isName
    have length : (assign word ⟨⟨.userVariable, text, lexes⟩, isName⟩ value).form.faces.length = 4 := rfl
    refine Takes.branch_neg rfl rfl (Takes.branch_neg rfl rfl
      (Takes.choose rfl (word.finds rfl) (Takes.entered (Takes.node (by simp) (Takes.seq Takes.token ?_)))))
    refine Takes.seq Takes.token (Takes.seq (Takes.branch_pos rfl rfl Takes.token) ?_)
    exact Takes.seq (value.phrase.reads.called (by
      have : value.phrase.faces.length = 1 := rfl
      simp only [Level.rank]; omega) stops rfl) Takes.nothing
  | jump j word =>
    cases j with
    | finish =>
      refine Takes.branch_neg rfl rfl (Takes.branch_neg rfl rfl
        (Takes.choose rfl (word.finds rfl) (Takes.entered (Takes.node (by simp) (Takes.seq Takes.token ?_)))))
      exact Takes.seq (Takes.branch_neg rfl (starts.foresees rfl fun _ => rfl) Takes.nothing)
        Takes.nothing
    | leave =>
      exact Takes.branch_neg rfl rfl (Takes.branch_neg rfl rfl
        (Takes.choose rfl (word.finds rfl) (Takes.node (by simp) Takes.token)))
    | again =>
      exact Takes.branch_neg rfl rfl (Takes.branch_neg rfl rfl
        (Takes.choose rfl (word.finds rfl) (Takes.node (by simp) Takes.token)))

/-! ### Statements one after another -/

/-- The form starts with a word that statements start with. -/
def Form.Starts (form : Form) : Prop :=
  ∃ first rest, Among starters first ∧ form.faces = first :: rest

theorem Form.Starts.heads {form : Form} (starts : form.Starts) (follow : List (Kind × String)) :
    Heads starters (form.faces ++ follow) := by
  obtain ⟨first, rest, among, shape⟩ := starts
  rw [shape, List.cons_append]
  exact Heads.cons among _

/-- The rule for statements reads a form in front of what follows. -/
def Form.TakesBefore (depth : Nat) (form : Form) (follow : List (Kind × String)) : Prop :=
  ∀ front around, Takes (readRule depth .statement) ⟨form.faces ++ follow, front, around⟩
    ⟨follow, front ++ [form.shape], around⟩

/-- Each of some forms is read in front of those behind it. -/
def TakesAll (depth : Nat) (follow : List (Kind × String)) : List Form → Prop
  | [] => True
  | form :: forms => form.TakesBefore depth (forms.flatMap Form.faces ++ follow) ∧
      TakesAll depth follow forms

section Rounds

variable {depth : Nat} {follow : List (Kind × String)} {front : List (Shape Kind)}
  {around : List (Kind × List (Shape Kind))} {mark : Checkpoint}

theorem takes_rounds {test : Look} (plain : test.lineless = true)
    (goes : ∀ rest, (starters.all fun first => test.foresees (first :: rest)) = true)
    (ends : test.foresees follow = false) {forms : List Form} (starts : ∀ form ∈ forms, form.Starts)
    (all : TakesAll depth follow forms) {tokens : List (Token Kind)}
    (enough : (forms.flatMap Form.faces).length ≤ tokens.length) :
    Takes (iterate test ((Grammar.call .statement).exec (readRule depth) mark) tokens)
      ⟨forms.flatMap Form.faces ++ follow, front, around⟩
      ⟨follow, front ++ forms.map Form.shape, around⟩ := by
  induction forms generalizing front tokens with
  | nil => exact (Takes.rounds_end plain ends tokens).giving (by simp)
  | cons form forms ih =>
    rw [List.forall_mem_cons] at starts
    obtain ⟨⟨first, rest, among, shape⟩, startsLater⟩ := starts
    obtain ⟨here, later⟩ := all
    rw [List.flatMap_cons, List.length_append, shape, List.length_cons] at enough
    cases tokens with
    | nil => simp at enough
    | cons token tokens =>
      rw [List.flatMap_cons, List.append_assoc]
      have holds : test.foresees (form.faces ++ (forms.flatMap Form.faces ++ follow)) = true := by
        rw [shape, List.cons_append]
        obtain ⟨head, member, respells⟩ := among
        exact (respells.foresees [] _ test).trans (List.all_eq_true.mp (goes _) head member)
      refine Takes.round plain holds (here _ _) ((ih startsLater later ?_).giving (by simp))
      rw [List.length_cons] at enough
      omega

theorem takes_statements {stop : Look} (plain : stop.lineless = true)
    (goes : ∀ rest, (starters.all fun first => !stop.foresees (first :: rest)) = true)
    (ends : follow = [] ∨ stop.foresees follow = true) {forms : List Form}
    (starts : ∀ form ∈ forms, form.Starts) (all : TakesAll depth follow forms) :
    Takes ((statementsUntil stop).exec (readRule depth) mark)
      ⟨forms.flatMap Form.faces ++ follow, front, around⟩
      ⟨follow, front ++ forms.map Form.shape, around⟩ := by
  have test : (~~~(Look.atEnd ||| stop)).lineless = true := plain
  refine Takes.loop fun tokens length => takes_rounds test goes ?_ starts all ?_
  · change (!(follow.isEmpty || stop.foresees follow)) = false
    rcases ends with rfl | holds
    · rfl
    · simp [holds]
  · simp only [List.length_append] at length
    omega

end Rounds

namespace Code

/-- The statement ends in an `IF` that an `ELSE` behind it would belong to. -/
def isOpen : Code → Bool
  | when _ _ _ => true
  | choose _ _ _ _ no => no.isOpen
  | loop _ _ body => body.isOpen
  | simple _ | block _ _ _ => false

mutual

/-- Every `ELSE` belongs to the nearest `IF` that it can belong to. -/
def Settled : Code → Prop
  | simple _ => True
  | when _ _ yes => yes.Settled
  | choose _ _ yes _ no => yes.isOpen = false ∧ yes.Settled ∧ no.Settled
  | loop _ _ body => body.Settled
  | block _ body _ => AllSettled body

def AllSettled : List Code → Prop
  | [] => True
  | s :: ss => s.Settled ∧ AllSettled ss

end

theorem starts (style : Style) (s : Code) : (s.form style).Starts := by
  cases s with
  | simple s =>
    cases s with
    | print word _ => exact ⟨word.face, _, word.among (by decide), rfl⟩
    | assign word _ _ => exact ⟨word.face, _, word.among (by decide), rfl⟩
    | jump j word => exact ⟨word.face, _, word.among (by cases j <;> decide), rfl⟩
  | when word _ _ => exact ⟨word.face, _, word.among (by decide), rfl⟩
  | choose word _ _ _ _ => exact ⟨word.face, _, word.among (by decide), rfl⟩
  | loop word _ _ => exact ⟨word.face, _, word.among (by decide), rfl⟩
  | block first _ _ => exact ⟨first.face, _, first.among (by decide), rfl⟩

def facesOf (style : Style) (ss : List Code) : List (Kind × String) :=
  ss.flatMap fun s => (s.form style).faces

def shapesOf (style : Style) (ss : List Code) : List (Shape Kind) :=
  ss.map fun s => (s.form style).shape

theorem facesOf_eq (style : Style) (ss : List Code) :
    facesOf style ss = (ss.map (form style)).flatMap Form.faces := by
  rw [List.flatMap_map, facesOf]

theorem shapesOf_eq (style : Style) (ss : List Code) :
    shapesOf style ss = (ss.map (form style)).map Form.shape := by
  rw [List.map_map, shapesOf, Function.comp_def]

theorem starts_map (style : Style) (ss : List Code) : ∀ part ∈ ss.map (form style), part.Starts := by
  intro part member
  obtain ⟨s, -, rfl⟩ := List.mem_map.mp member
  exact s.starts style

theorem faces_forms (style : Style) (rest : Forms) (ss : List Code) :
    (forms style rest ss).faces = facesOf style ss ++ rest.faces := by
  induction ss with
  | nil => rfl
  | cons s ss ih => simp [forms, Forms.faces, ih, facesOf]

theorem shapes_forms (style : Style) (rest : Forms) (ss : List Code) :
    (forms style rest ss).shapes = shapesOf style ss ++ rest.shapes := by
  induction ss with
  | nil => rfl
  | cons s ss ih => simp [forms, Forms.shapes, ih, shapesOf]

/-- What may stand behind a statement, by whether it would take an `ELSE`. -/
def followers (isOpen : Bool) : List (Kind × String) :=
  if isOpen then closers else (.keyword, "ELSE") :: closers

theorem closers_subset_followers (isOpen : Bool) : closers ⊆ followers isOpen := by
  cases isOpen <;> simp [followers]

theorem followers_subset_separators (isOpen : Bool) : followers isOpen ⊆ separators := by
  cases isOpen <;> simp [followers, separators]

section Bodies

variable {depth : Nat} {follow : List (Kind × String)} {front : List (Shape Kind)}
  {around : List (Kind × List (Shape Kind))} {mark : Checkpoint}

theorem takes_statement {text : String} {rest : List (Kind × String)} {shape : Shape Kind}
    {isOpen : Bool} (starts : Heads (followers isOpen) follow)
    (body : ∀ front around, Takes (readRule depth .statementBody)
      ⟨(.keyword, text) :: rest, front, around⟩ ⟨follow, front ++ [shape], around⟩) :
    Takes (readRule (depth + 1) .statement) ⟨(.keyword, text) :: rest, front, around⟩
      ⟨follow, front ++ [.rule .statement [shape]], around⟩ := by
  have noEnd : (Look.sees .semicolon).foresees follow = false :=
    starts.foresees rfl fun _ => by cases isOpen <;> rfl
  refine Takes.entered (Takes.node (by simp) (Takes.seq (Takes.branch_neg rfl rfl (body _ _)) ?_))
  exact Takes.seq (Takes.branch_neg rfl noEnd Takes.nothing) Takes.nothing

theorem takes_ended {text : String} {rest : List (Kind × String)} {shape : Shape Kind}
    (body : ∀ front around, Takes (readRule depth .statementBody)
      ⟨(.keyword, text) :: rest, front, around⟩
      ⟨(.semicolon, ";") :: follow, front ++ [shape], around⟩) :
    Takes (readRule (depth + 1) .statement) ⟨(.keyword, text) :: rest, front, around⟩
      ⟨follow, front ++ [.rule .statement [shape, .leaf .semicolon ";"]], around⟩ := by
  refine Takes.entered (Takes.node (by simp) (Takes.seq (Takes.branch_neg rfl rfl (body _ _)) ?_))
  exact Takes.seq (Takes.branch_pos rfl rfl Takes.token) Takes.nothing

theorem takes_guard (g : Guard) (style : Style) (enough : 10 * (g.form style).faces.length + 7 ≤ depth)
    (starts : Heads starters follow) :
    Takes ((Grammar.call .expression).exec (readRule depth) mark)
      ⟨(g.form style).faces ++ follow, front, around⟩
      ⟨follow, front ++ [(g.form style).shape], around⟩ := by
  rw [g.faces_form] at enough ⊢
  rw [g.shape_form]
  exact (g.phraseIn style).reads.called enough (starts.foresees rfl fun _ => rfl) rfl

variable {s t : Code} {style : Style}

theorem heads_starters (style : Style) (s : Code) (follow : List (Kind × String)) :
    Heads starters ((s.form style).faces ++ follow) := (s.starts style).heads follow

theorem takes_when (word : Word "IF") (g : Guard) (yes : (s.form style).TakesBefore depth follow)
    (enough : 10 * (g.form style).faces.length + 7 ≤ depth)
    (noElse : (Look.on "ELSE").foresees follow = false) :
    Takes (readRule (depth + 2) .statementBody)
      ⟨word.face :: ((g.form style).faces ++ ((s.form style).faces ++ follow)), front, around⟩
      ⟨follow, front ++ [.rule .ifStatement
        [word.form.shape, (g.form style).shape, (s.form style).shape]], around⟩ := by
  refine Takes.entered (Takes.branch_neg rfl rfl (Takes.branch_neg rfl rfl
    (Takes.choose rfl (word.finds rfl) (Takes.entered (Takes.node (by simp) (Takes.seq Takes.token ?_))))))
  refine Takes.seq (takes_guard g style enough (heads_starters style s follow)) ?_
  refine Takes.seq (yes _ _) ?_
  exact Takes.seq (Takes.branch_neg rfl noElse Takes.nothing) Takes.nothing

theorem takes_choose (word : Word "IF") (g : Guard) (other : Word "ELSE")
    (yes : (s.form style).TakesBefore depth (other.face :: ((t.form style).faces ++ follow)))
    (no : (t.form style).TakesBefore depth follow)
    (enough : 10 * (g.form style).faces.length + 7 ≤ depth) :
    Takes (readRule (depth + 2) .statementBody)
      ⟨word.face :: ((g.form style).faces ++ ((s.form style).faces ++
        other.face :: ((t.form style).faces ++ follow))), front, around⟩
      ⟨follow, front ++ [.rule .ifStatement [word.form.shape, (g.form style).shape,
        (s.form style).shape, other.form.shape, (t.form style).shape]], around⟩ := by
  refine Takes.entered (Takes.branch_neg rfl rfl (Takes.branch_neg rfl rfl
    (Takes.choose rfl (word.finds rfl) (Takes.entered (Takes.node (by simp) (Takes.seq Takes.token ?_))))))
  refine Takes.seq (takes_guard g style enough (heads_starters style s _)) ?_
  refine Takes.seq (yes _ _) (Takes.seq (Takes.branch_pos rfl (other.sees rfl) ?_) Takes.nothing)
  exact Takes.seq Takes.token (Takes.seq (no _ _) Takes.nothing)

theorem takes_loop (word : Word "WHILE") (g : Guard) (body : (s.form style).TakesBefore depth follow)
    (enough : 10 * (g.form style).faces.length + 7 ≤ depth) :
    Takes (readRule (depth + 2) .statementBody)
      ⟨word.face :: ((g.form style).faces ++ ((s.form style).faces ++ follow)), front, around⟩
      ⟨follow, front ++ [.rule .whileStatement
        [word.form.shape, (g.form style).shape, (s.form style).shape]], around⟩ := by
  refine Takes.entered (Takes.branch_neg rfl rfl (Takes.branch_neg rfl rfl
    (Takes.choose rfl (word.finds rfl) (Takes.entered (Takes.node (by simp) (Takes.seq Takes.token ?_))))))
  refine Takes.seq (takes_guard g style enough (heads_starters style s follow)) ?_
  exact Takes.seq (body _ _) Takes.nothing

/-- `BEGIN` opens a block where no word follows that makes it another statement. -/
theorem takes_begin (word : Word "BEGIN") {rest : List (Kind × String)} {after : Sketch}
    (starts : Heads closers rest)
    (block : Takes (readRule depth .block) ⟨word.face :: rest, front, around⟩ after) :
    Takes (readRule (depth + 1) .statementBody) ⟨word.face :: rest, front, around⟩ after := by
  refine Takes.entered (Takes.branch_neg rfl rfl (Takes.branch_neg rfl rfl ?_))
  cases rest with
  | nil => exact Takes.choose rfl (word.finds rfl) block
  | cons first rest =>
    obtain ⟨head, member, respells⟩ := starts first rfl
    simp only [closers, starters, List.map_cons, List.map_nil, List.mem_cons, List.not_mem_nil,
      or_false] at member
    rcases member with rfl | rfl | rfl | rfl | rfl | rfl | rfl | rfl | rfl <;>
      exact Takes.choose rfl (word.finds (respells.finds [(.keyword, "BEGIN")] rest rfl)) block

theorem takes_codes {stop : Look} (plain : stop.lineless = true)
    (goes : ∀ rest, (starters.all fun first => !stop.foresees (first :: rest)) = true)
    (ends : follow = [] ∨ stop.foresees follow = true) {ss : List Code}
    (all : TakesAll depth follow (ss.map (form style))) :
    Takes ((statementsUntil stop).exec (readRule depth) mark)
      ⟨facesOf style ss ++ follow, front, around⟩
      ⟨follow, front ++ shapesOf style ss, around⟩ := by
  have whole := @takes_statements depth follow front around mark _ plain goes ends _ (starts_map style ss) all
  rwa [← facesOf_eq, ← shapesOf_eq] at whole

theorem takes_block (first : Word "BEGIN") (last : Word "END") {ss : List Code}
    (all : TakesAll depth (last.face :: follow) (ss.map (form style))) :
    Takes (readRule (depth + 2) .statementBody)
      ⟨first.face :: (facesOf style ss ++ last.face :: follow), front, around⟩
      ⟨follow, front ++ [.rule .block
        (first.form.shape :: (shapesOf style ss ++ [last.form.shape]))], around⟩ := by
  have starts : Heads closers (facesOf style ss ++ last.face :: follow) := by
    cases ss with
    | nil => exact Heads.cons (last.among (by decide)) _
    | cons s ss =>
      have heads := heads_starters style s (facesOf style ss ++ last.face :: follow)
      simpa [facesOf, closers] using heads.weaken (List.subset_cons_self _ _)
  refine takes_begin first starts (Takes.entered (Takes.node (by simp) (Takes.seq Takes.token ?_)))
  refine Takes.seq (takes_codes rfl (fun _ => rfl) (.inr (last.sees rfl)) all) ?_
  refine Takes.seq (Takes.branch_pos rfl (last.sees rfl) (Takes.token.giving ?_)) Takes.nothing
  rw [List.append_assoc]
  rfl

end Bodies

theorem takes_simple (style : Style) {depth : Nat} {follow : List (Kind × String)} {s : Simple}
    (starts : Heads (followers false) follow) (enough : 10 * s.form.faces.length + 9 ≤ depth) :
    ((Code.simple s).form style).TakesBefore (depth + 1) follow := by
  intro front around
  obtain ⟨text, rest, first⟩ : ∃ text rest, s.form.faces = (.keyword, text) :: rest := by
    cases s <;> exact ⟨_, _, rfl⟩
  have whole : ((Code.simple s).form style).faces ++ follow =
      (.keyword, text) :: (rest ++ (style.ending.faces ++ follow)) := by
    simp [form, Form.faces, first]
  have inside (after) (separated : Heads separators after) (front around) :=
    @Simple.takes s _ after front around enough separated
  rw [first] at inside
  rw [whole]
  cases style with
  | ended => exact takes_ended (inside _ (Heads.cons (.self List.mem_cons_self) follow))
  | bare | guarded =>
    exact takes_statement starts (inside _ (starts.weaken (followers_subset_separators _)))

mutual

/-- A statement is read as it is written. -/
theorem takes (style : Style) {depth : Nat} {follow : List (Kind × String)} : ∀ s : Code, s.Settled →
    Heads (followers s.isOpen) follow → 10 * (s.form style).faces.length + 10 ≤ depth →
    (s.form style).TakesBefore depth follow
  | .simple s, _, starts, enough => by
    obtain ⟨depth, rfl⟩ : ∃ d, depth = d + 1 := ⟨depth - 1, by omega⟩
    refine takes_simple style starts ?_
    simp only [form, Form.faces, List.length_append] at enough
    omega
  | .when word g yes, settled, starts, enough => by
    obtain ⟨depth, rfl⟩ : ∃ d, depth = d + 3 := ⟨depth - 3, by omega⟩
    have whole : ((Code.when word g yes).form style).faces =
        word.face :: ((g.form style).faces ++ (yes.form style).faces) := by
      simp [form, statement, Word.form, Word.face, keyword, Form.faces, Forms.faces]
    rw [whole, List.length_cons, List.length_append] at enough
    have inner := takes style yes settled (starts.weaken (closers_subset_followers _))
      (show 10 * (yes.form style).faces.length + 10 ≤ depth by omega)
    intro front around
    rw [whole, List.cons_append, List.append_assoc]
    exact takes_statement starts fun front around =>
      takes_when word g inner (by omega) (starts.foresees rfl fun _ => rfl)
  | .choose word g yes other no, settled, starts, enough => by
    obtain ⟨depth, rfl⟩ : ∃ d, depth = d + 3 := ⟨depth - 3, by omega⟩
    obtain ⟨closed, settledYes, settledNo⟩ := settled
    have whole : ((Code.choose word g yes other no).form style).faces = word.face ::
        ((g.form style).faces ++ ((yes.form style).faces ++ other.face :: (no.form style).faces)) := by
      simp [form, statement, Word.form, Word.face, keyword, Form.faces, Forms.faces]
    simp only [whole, List.length_cons, List.length_append] at enough
    have inYes := takes style yes settledYes
      (show Heads _ (other.face :: ((no.form style).faces ++ follow)) by
        rw [closed]; exact Heads.cons (other.among (by decide)) _)
      (show 10 * (yes.form style).faces.length + 10 ≤ depth by omega)
    have inNo := takes style no settledNo starts
      (show 10 * (no.form style).faces.length + 10 ≤ depth by omega)
    intro front around
    rw [whole]
    simp only [List.cons_append, List.append_assoc]
    exact takes_statement starts fun front around => takes_choose word g other inYes inNo (by omega)
  | .loop word g body, settled, starts, enough => by
    obtain ⟨depth, rfl⟩ : ∃ d, depth = d + 3 := ⟨depth - 3, by omega⟩
    have whole : ((Code.loop word g body).form style).faces =
        word.face :: ((g.form style).faces ++ (body.form style).faces) := by
      simp [form, statement, Word.form, Word.face, keyword, Form.faces, Forms.faces]
    rw [whole, List.length_cons, List.length_append] at enough
    have inner := takes style body settled starts
      (show 10 * (body.form style).faces.length + 10 ≤ depth by omega)
    intro front around
    rw [whole, List.cons_append, List.append_assoc]
    exact takes_statement starts fun front around => takes_loop word g inner (by omega)
  | .block first body last, settled, starts, enough => by
    obtain ⟨depth, rfl⟩ : ∃ d, depth = d + 3 := ⟨depth - 3, by omega⟩
    have whole : ((Code.block first body last).form style).faces =
        first.face :: (facesOf style body ++ [last.face]) := by
      simp [form, statement, Word.form, Word.face, keyword, Form.faces, Forms.faces, faces_forms]
    have shapes : ((Code.block first body last).form style).shape = .rule .statement [.rule .block
        (first.form.shape :: (shapesOf style body ++ [last.form.shape]))] := by
      simp [form, statement, Form.shape, Forms.shapes, shapes_forms]
    simp only [whole, List.length_cons, List.length_append] at enough
    have inner := takes_all style body settled
      (show Heads closers (last.face :: follow) from Heads.cons (last.among (by decide)) _)
      (show 10 * (facesOf style body).length + 10 ≤ depth by omega)
    intro front around
    rw [whole, shapes, List.cons_append, List.append_assoc]
    exact takes_statement starts fun front around => takes_block first last inner

theorem takes_all (style : Style) {depth : Nat} {follow : List (Kind × String)} : ∀ ss : List Code,
    AllSettled ss → Heads closers follow → 10 * (facesOf style ss).length + 10 ≤ depth →
    TakesAll depth follow (ss.map (form style))
  | [], _, _, _ => trivial
  | s :: ss, settled, starts, enough => by
    rw [facesOf, List.flatMap_cons, List.length_append, ← facesOf] at enough
    have behind : Heads closers (facesOf style ss ++ follow) := by
      cases ss with
      | nil => exact starts
      | cons next ss =>
        have heads := heads_starters style next (facesOf style ss ++ follow)
        simpa [facesOf, closers] using heads.weaken (List.subset_cons_self _ _)
    refine ⟨?_, takes_all style ss settled.2 starts (by omega)⟩
    rw [← facesOf_eq]
    exact takes style s settled.1 (behind.weaken (closers_subset_followers _)) (by omega)

end

theorem faces_body (style : Style) (body : List Code) :
    (Code.body style body).faces = facesOf style body := by
  cases body with
  | nil => rfl
  | cons s ss => simp [Code.body, Forms.faces, Form.faces, faces_forms, facesOf]

theorem takes_body (style : Style) {depth : Nat} {body : List Code} (settled : AllSettled body)
    (enough : 10 * (facesOf style body).length + 10 ≤ depth) (front : List (Shape Kind))
    (around : List (Kind × List (Shape Kind))) (mark : Checkpoint) :
    Takes ((node .procedureBody (statementsUntil atBatchSeparator)).exec (readRule depth) mark)
      ⟨(Code.body style body).faces, front, around⟩
      ⟨[], front ++ (Code.body style body).shapes, around⟩ := by
  have rounds : Takes ((statementsUntil atBatchSeparator).exec (readRule depth) ⟨0⟩)
      ⟨facesOf style body ++ [], [], (.procedureBody, front) :: around⟩
      ⟨[], [] ++ shapesOf style body, (.procedureBody, front) :: around⟩ :=
    takes_codes rfl (fun _ => rfl) (.inl rfl)
      (takes_all style body settled (show Heads closers [] by simp [Heads]) enough)
  rw [List.append_nil, List.nil_append] at rounds
  rw [faces_body]
  cases body with
  | nil => exact (Takes.node_empty rounds).giving (by simp [Code.body, Forms.shapes])
  | cons s ss =>
    have shapes : (Code.body style (s :: ss)).shapes = [.rule .procedureBody (shapesOf style (s :: ss))] := by
      simp [Code.body, Forms.shapes, Form.shape, shapes_forms, shapesOf]
    rw [shapes]
    exact Takes.node (by simp [shapesOf]) rounds

end Code

def Style.header : Style → List (Kind × String)
  | .bare => [(.keyword, "CREATE"), (.keyword, "PROC"), (.identifier, "p"), (.keyword, "AS")]
  | .guarded | .ended => [(.keyword, "CREATE"), (.keyword, "PROC"), (.identifier, "p"),
      (.leftParen, "("), (.rightParen, ")"), (.keyword, "AS")]

theorem faces_program (style : Style) (body : List Code) :
    (program style body).faces = style.header ++ Code.facesOf style body := by
  cases style <;> simp [program, statement, procedure, keyword, Style.parameters, parens, Form.faces,
    Forms.faces, Code.faces_body, Style.header]

theorem takes_name_p {depth : Nat} {mark : Checkpoint} {follow : List (Kind × String)}
    {front : List (Shape Kind)} {around : List (Kind × List (Shape Kind))}
    (noDot : (Look.sees .dot).foresees follow = false) :
    Takes ((Grammar.call .qualifiedName).exec (readRule (depth + 1)) mark)
      ⟨(.identifier, "p") :: follow, front, around⟩
      ⟨follow, front ++ [.rule .qualifiedName [.leaf .identifier "p"]], around⟩ := by
  refine Takes.entered (Takes.branch_pos rfl rfl (Takes.node (by simp) (Takes.seq Takes.token ?_)))
  exact Takes.seq (Takes.loop_skipped rfl noDot) Takes.nothing

theorem takes_procedure (style : Style) {depth : Nat} {body : List Code}
    (settled : Code.AllSettled body) (enough : 10 * (Code.facesOf style body).length + 9 ≤ depth)
    (front : List (Shape Kind)) (around : List (Kind × List (Shape Kind))) :
    Takes (readRule (depth + 3) .statementBody) ⟨(procedure style body).faces, front, around⟩
      ⟨[], front ++ [(procedure style body).shape], around⟩ := by
  have inBody := @Code.takes_body style (depth + 1) body settled (by omega)
  refine Takes.entered (Takes.branch_neg rfl rfl (Takes.branch_neg rfl rfl (Takes.choose rfl rfl
    (Takes.entered (Takes.node (by simp) (Takes.seq (Takes.branch_pos rfl rfl
      (Takes.seq Takes.token (Takes.seq (Takes.branch_neg rfl rfl Takes.nothing) Takes.nothing))) ?_))))))
  refine Takes.seq (Takes.branch_neg rfl rfl (Takes.branch_pos rfl rfl Takes.token)) ?_
  cases style with
  | bare =>
    refine Takes.seq (takes_name_p rfl) (Takes.seq (Takes.branch_neg rfl rfl Takes.nothing) ?_)
    refine Takes.seq (Takes.branch_neg rfl rfl Takes.nothing) (Takes.seq
      (Takes.branch_neg rfl rfl Takes.nothing) (Takes.seq (Takes.branch_pos rfl rfl Takes.token) ?_))
    exact Takes.seq (inBody _ _ _) Takes.nothing
  | guarded | ended =>
    refine Takes.seq (takes_name_p rfl) (Takes.seq (Takes.branch_pos rfl rfl (Takes.node (by simp)
      (Takes.branch_pos rfl rfl (Takes.seq Takes.token (Takes.seq
        (Takes.branch_pos rfl rfl Takes.nothing)
        (Takes.seq (Takes.branch_pos rfl rfl Takes.token) Takes.nothing)))))) ?_)
    refine Takes.seq (Takes.branch_neg rfl rfl Takes.nothing) (Takes.seq
      (Takes.branch_neg rfl rfl Takes.nothing) (Takes.seq (Takes.branch_pos rfl rfl Takes.token) ?_))
    exact Takes.seq (inBody _ _ _) Takes.nothing

theorem takes_program (style : Style) {depth : Nat} {body : List Code}
    (settled : Code.AllSettled body) (enough : 10 * (Code.facesOf style body).length + 10 ≤ depth) :
    Takes (readRule (depth + 4) .compileUnit) ⟨(program style body).faces, [], []⟩
      ⟨[], [(program style body).shape], []⟩ := by
  obtain ⟨depth, rfl⟩ : ∃ d, depth = d + 1 := ⟨depth - 1, by omega⟩
  have faces : (program style body).faces = (procedure style body).faces := by
    simp [program, statement, Form.faces, Forms.faces]
  obtain ⟨others, first⟩ : ∃ others, (procedure style body).faces = (.keyword, "CREATE") :: others :=
    ⟨_, rfl⟩
  have inside := @takes_procedure style depth body settled (by omega)
  rw [faces, first] at *
  refine Takes.entered (Takes.node (by simp) (Takes.loop ?_))
  intro tokens length
  cases tokens with
  | nil => cases length
  | cons token tokens =>
    refine Takes.round rfl rfl (Takes.branch_neg rfl rfl ?_) (Takes.rounds_end rfl rfl tokens)
    have ends : Heads (Code.followers false) [] := by simp [Heads]
    exact Code.takes_statement ends inside

/-! ### Kinds -/

def plainKinds : List Kind := [
  .keyword, .numberLiteral, .userVariable, .equals, .notEquals, .less, .greater, .lessEquals,
  .greaterEquals, .print, .setVariable, .returnStatement, .breakStatement, .continueStatement,
  .comparisonExpression]

def codeKinds : List Kind := [
  .statement, .ifStatement, .whileStatement, .block, .parenExpression, .leftParen, .rightParen,
  .semicolon] ++ plainKinds

def partKinds : List Kind := [
  .qualifiedName, .identifier, .procedureParameters, .procedureBody] ++ codeKinds

def programKinds : List Kind := [.compileUnit, .createProcedure] ++ partKinds

theorem Simple.kinds_form (s : Simple) : ∀ kind ∈ s.form.kinds, kind ∈ plainKinds := by
  cases s with
  | print word value =>
    change ∀ kind ∈ [.print, .keyword, value.1.kind], kind ∈ plainKinds
    rw [value.kind]
    decide
  | assign word name value =>
    change ∀ kind ∈ [.setVariable, .keyword, name.1.kind, .equals, value.1.kind], kind ∈ plainKinds
    rw [name.kind, value.kind]
    decide
  | jump j word =>
    change ∀ kind ∈ [j.kind, .keyword], kind ∈ plainKinds
    cases j <;> decide

theorem Guard.kinds_comparison (g : Guard) : ∀ kind ∈ g.comparison.kinds, kind ∈ plainKinds := by
  have isComparison : [Kind.equals, .notEquals, .less, .greater, .lessEquals, .greaterEquals].contains
      g.op.1.kind = true := g.op.2
  have comparisons : ∀ kind ∈ [Kind.equals, .notEquals, .less, .greater, .lessEquals, .greaterEquals],
      kind ∈ plainKinds := by decide
  have isPlain := comparisons _ (List.contains_iff_mem.mp isComparison)
  change ∀ kind ∈ [.comparisonExpression, g.name.1.kind, g.op.1.kind, g.value.1.kind],
    kind ∈ plainKinds
  rw [g.name.kind, g.value.kind]
  simp only [List.forall_mem_cons]
  exact ⟨by decide, by decide, isPlain, by decide, by simp⟩

theorem mem_codeKinds {kind : Kind} (plain : kind ∈ plainKinds) : kind ∈ codeKinds :=
  List.mem_append_right _ plain

theorem Guard.kinds_form (g : Guard) (style : Style) :
    ∀ kind ∈ (g.form style).kinds, kind ∈ codeKinds := by
  have inside kind (member : kind ∈ g.comparison.kinds) := mem_codeKinds (g.kinds_comparison kind member)
  have parens : ∀ kind ∈ Kind.parenExpression :: .leftParen :: (g.comparison.kinds ++ [.rightParen]),
      kind ∈ codeKinds := by
    simp only [List.forall_mem_cons, List.forall_mem_append]
    exact ⟨by decide, by decide, inside, by decide, by simp⟩
  cases style with
  | bare => exact inside
  | guarded | ended => exact parens

namespace Code

mutual

theorem kinds_form (style : Style) : ∀ (code : Code), ∀ kind ∈ (code.form style).kinds, kind ∈ codeKinds
  | .simple s => by
    have ending : ∀ kind ∈ style.ending.kinds, kind ∈ codeKinds := by cases style <;> decide
    simp only [Code.form, Form.kinds, List.forall_mem_cons, List.forall_mem_append]
    exact ⟨by decide, fun kind member => mem_codeKinds (s.kinds_form kind member), ending⟩
  | .when word g yes => by
    simp only [Code.form, statement, Word.form, keyword, Form.kinds, Forms.kinds, List.forall_mem_cons,
      List.forall_mem_append]
    exact ⟨by decide, ⟨by decide, ⟨by decide, by simp⟩, g.kinds_form style, kinds_form style yes,
      by simp⟩, by simp⟩
  | .choose word g yes other no => by
    simp only [Code.form, statement, Word.form, keyword, Form.kinds, Forms.kinds, List.forall_mem_cons,
      List.forall_mem_append]
    exact ⟨by decide, ⟨by decide, ⟨by decide, by simp⟩, g.kinds_form style, kinds_form style yes,
      ⟨by decide, by simp⟩, kinds_form style no, by simp⟩, by simp⟩
  | .loop word g body => by
    simp only [Code.form, statement, Word.form, keyword, Form.kinds, Forms.kinds, List.forall_mem_cons,
      List.forall_mem_append]
    exact ⟨by decide, ⟨by decide, ⟨by decide, by simp⟩, g.kinds_form style, kinds_form style body,
      by simp⟩, by simp⟩
  | .block first body last => by
    simp only [Code.form, statement, Word.form, keyword, Form.kinds, Forms.kinds, List.forall_mem_cons,
      List.forall_mem_append]
    refine ⟨by decide, ⟨by decide, ⟨by decide, by simp⟩, kinds_forms style ?_ body⟩, by simp⟩
    simp only [Form.kinds, Forms.kinds, List.forall_mem_cons, List.forall_mem_append]
    exact ⟨⟨by decide, by simp⟩, by simp⟩

theorem kinds_forms (style : Style) {rest : Forms} (others : ∀ kind ∈ rest.kinds, kind ∈ codeKinds) :
    ∀ (ss : List Code), ∀ kind ∈ (Code.forms style rest ss).kinds, kind ∈ codeKinds
  | [] => others
  | s :: ss => by
    simp only [Code.forms, Forms.kinds, List.forall_mem_append]
    exact ⟨kinds_form style s, kinds_forms style others ss⟩

end

end Code

theorem Code.kinds_body (style : Style) (body : List Code) :
    ∀ kind ∈ (Code.body style body).kinds, kind ∈ partKinds := by
  cases body with
  | nil => simp [Code.body, Forms.kinds]
  | cons s ss =>
    simp only [Code.body, Form.kinds, Forms.kinds, List.forall_mem_cons, List.forall_mem_append]
    refine ⟨⟨by decide, fun kind member => ?_, fun kind member => ?_⟩, by simp⟩
    · exact List.mem_append_right _ (Code.kinds_form style s kind member)
    · exact List.mem_append_right _ (Code.kinds_forms style (by simp [Forms.kinds]) ss kind member)

theorem kinds_procedure (style : Style) (body : List Code) :
    ∀ kind ∈ (procedure style body).kinds.tail, kind ∈ partKinds := by
  cases style with
  | bare =>
    change ∀ kind ∈ [Kind.keyword, .keyword, .qualifiedName, .identifier, .keyword] ++
      (Code.body .bare body).kinds, _
    rw [List.forall_mem_append]
    exact ⟨by decide, Code.kinds_body .bare body⟩
  | guarded =>
    change ∀ kind ∈ [Kind.keyword, .keyword, .qualifiedName, .identifier, .procedureParameters, .leftParen,
      .rightParen, .keyword] ++ (Code.body .guarded body).kinds, _
    rw [List.forall_mem_append]
    exact ⟨by decide, Code.kinds_body .guarded body⟩
  | ended =>
    change ∀ kind ∈ [Kind.keyword, .keyword, .qualifiedName, .identifier, .procedureParameters, .leftParen,
      .rightParen, .keyword] ++ (Code.body .ended body).kinds, _
    rw [List.forall_mem_append]
    exact ⟨by decide, Code.kinds_body .ended body⟩

theorem kinds_program (style : Style) (body : List Code) :
    ∀ kind ∈ (program style body).kinds, kind ∈ programKinds := by
  have whole : (program style body).kinds =
      [.compileUnit, .statement, .createProcedure] ++ ((procedure style body).kinds.tail ++ [] ++ []) := rfl
  rw [whole, List.append_nil, List.append_nil, List.forall_mem_append]
  exact ⟨by decide, fun kind inside => List.mem_append_right _ (kinds_procedure style body kind inside)⟩

end SqlFerry.Tsql
