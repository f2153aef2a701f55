import SqlFerry.Proofs.Tsql.Code
import SqlFerry.Proofs.Tsql.Structure

/-! Programs of plain control flow are read as they are written. Their tokens can be told from one another
in every style, so lexing gives them back. -/
namespace SqlFerry.Tsql

open Text (isWordChar)

theorem Lexeme.tokenPiece (l : Lexeme) : ∃ c rest n, tokenPiece c rest = .ok (l.kind, n) ∧
    l.text.toList = c :: rest.take n := mem_lexFrom l.lexes _ (List.mem_singleton_self _)

theorem Variable.text (v : Variable) : ∃ name, v.1.text.toList = '@' :: name ∧
    ∀ c ∈ name, isWordChar c = true := by
  obtain ⟨c, rest, n, found, text⟩ := v.1.tokenPiece
  rw [v.kind] at found
  rcases tokenPiece_cases found with literal | ⟨rfl, user⟩ | ⟨-, table⟩ | name | sign
  · simp at literal
  · rcases variableTail_cases user with other | ⟨-, rfl⟩
    · cases other
    · refine ⟨_, text, fun c member => ?_⟩
      rw [take_runLength] at member
      exact List.all_eq_true.mp List.all_takeWhile c member
  · cases (tempTableTail_cases table).1
  · rcases word_kind name with other | other <;> cases other
  · exact absurd rfl (operator_kind sign).2.1

theorem Comparison.text (op : Comparison) : ∀ c ∈ op.1.text.toList, c ∈ ['<', '>', '=', '!'] := by
  obtain ⟨c, rest, n, found, text⟩ := op.1.tokenPiece
  have kinds : [Kind.equals, .notEquals, .less, .greater, .lessEquals, .greaterEquals].contains
      op.1.kind = true := op.2
  rw [text]
  generalize op.1.kind = kind at *
  rcases tokenPiece_cases found with literal | ⟨-, user⟩ | ⟨-, table⟩ | name | sign
  · simp only [List.mem_cons, List.not_mem_nil, or_false] at literal
    rcases literal with rfl | rfl | rfl | rfl <;> exact absurd kinds (by decide)
  · rcases variableTail_cases user with rfl | ⟨rfl, -⟩ <;> exact absurd kinds (by decide)
  · obtain ⟨rfl, -⟩ := tempTableTail_cases table
    exact absurd kinds (by decide)
  · rcases word_kind name with rfl | rfl <;> exact absurd kinds (by decide)
  · cases rest with
    | nil =>
      unfold operator at sign
      split at sign <;> cases sign <;> first | exact absurd kinds (by decide) | simp_all
    | cons next rest =>
      unfold operator at sign
      split at sign <;> cases sign <;> first | exact absurd kinds (by decide) | simp_all

/-- The tokens of a form can be told from one another in front of anything that ends a token. -/
def Form.Legible (form : Form) : Prop :=
  ∀ (gap : List Char) (more : List Spaced), (∀ c ∈ gap, isGapChar c = true) → Spaced.Readable more →
    Apart (more.flatMap Spaced.chars) → Spaced.Readable (form.items gap ++ more)

def Forms.Legible (forms : Forms) : Prop :=
  ∀ more : List Spaced, Spaced.Readable more → Apart (more.flatMap Spaced.chars) →
    Spaced.Readable (forms.items ++ more) ∧
      Apart ((forms.items ++ more).flatMap Spaced.chars)

theorem isGapChar_space : ∀ c ∈ space, isGapChar c = true := List.all_eq_true.mp rfl

theorem legible_leaf {kind : Kind} {text : String} (alone : Standalone kind text) :
    (Form.leaf kind text).Legible :=
  fun _ _ blank readable apart => Spaced.readable_cons blank alone apart readable

theorem legible_rule {kind : Kind} {first : Form} {rest : Forms} (atFirst : first.Legible)
    (atRest : rest.Legible) : (Form.rule kind first rest).Legible := by
  intro gap more blank readable apart
  obtain ⟨behind, apartBehind⟩ := atRest more readable apart
  rw [Form.items, List.append_assoc]
  exact atFirst gap _ blank behind apartBehind

theorem legible_nil : Forms.nil.Legible := fun _ readable apart => ⟨readable, apart⟩

theorem legible_behind {gap : List Char} {form : Form} {rest : Forms} (visible : gap ≠ [])
    (isGap : ∀ c ∈ gap, isGapChar c = true) (atForm : form.Legible) (atRest : rest.Legible) :
    (Forms.cons gap form rest).Legible := by
  intro more readable apart
  obtain ⟨behind, apartBehind⟩ := atRest more readable apart
  rw [Forms.items, List.append_assoc]
  refine ⟨atForm gap _ isGap behind apartBehind, ?_⟩
  rw [List.flatMap_append, form.flatMap_items, List.append_assoc]
  cases gap with
  | nil => exact absurd rfl visible
  | cons c gap => exact apart_cons (by rw [endsToken, isGap c List.mem_cons_self]; rfl)

theorem legible_cons {form : Form} {rest : Forms} (atForm : form.Legible) (atRest : rest.Legible) :
    (Forms.cons space form rest).Legible :=
  legible_behind (by decide) isGapChar_space atForm atRest

theorem readable_mark {c : Char} {kind : Kind} {gap : List Char} {text : String} {rest : List Spaced}
    (blank : ∀ c ∈ gap, isGapChar c = true) (isText : text.toList = [c])
    (alone : ∀ cs, piece c cs = .ok (some kind, 0)) (readable : Spaced.Readable rest) :
    Spaced.Readable (⟨gap, kind, text⟩ :: rest) :=
  ⟨blank, ⟨c, [], isText, alone _⟩, readable⟩

theorem piece_leftParen (cs : List Char) : piece '(' cs = .ok (some .leftParen, 0) := by
  cases cs <;> rfl

theorem piece_rightParen (cs : List Char) : piece ')' cs = .ok (some .rightParen, 0) := by
  cases cs <;> rfl

theorem piece_semicolon (cs : List Char) : piece ';' cs = .ok (some .semicolon, 0) := by
  cases cs <;> rfl

theorem legible_lexed {kind : Kind} {text : String} (lexed : lex text = .ok [⟨kind, text, 1, 0⟩]) :
    (Form.leaf kind text).Legible :=
  legible_leaf (standalone_of_lexFrom lexed _ (List.mem_singleton_self _))

theorem Word.legible {w : String} (word : Word w) (known : w ∈ reserved) : word.form.Legible :=
  legible_leaf (word.kind_eq_keyword known ▸ word.1.standalone)

theorem Jump.known (j : Jump) : j.word ∈ reserved := by cases j <;> decide

theorem Lexeme.legible (l : Lexeme) : l.form.Legible := legible_leaf l.standalone

theorem Integer.digits (n : Integer) : ∀ c ∈ n.1.text.toList, c.isDigit = true :=
  List.all_eq_true.mp (Bool.and_eq_true_iff.mp n.2).2

theorem Simple.legible (s : Simple) : s.form.Legible := by
  cases s with
  | print word value =>
    exact legible_rule (word.legible (by decide)) (legible_cons value.1.legible legible_nil)
  | assign word name value =>
    exact legible_rule (word.legible (by decide)) (legible_cons name.1.legible
      (legible_cons (legible_lexed (by with_unfolding_all rfl)) (legible_cons value.1.legible legible_nil)))
  | jump j word => exact legible_rule (word.legible j.known) legible_nil

theorem Guard.legible_comparison (g : Guard) : g.comparison.Legible :=
  legible_rule g.name.1.legible (legible_cons g.op.1.legible (legible_cons g.value.1.legible legible_nil))

theorem Guard.legible (g : Guard) (style : Style) : (g.form style).Legible := by
  cases style with
  | bare => exact g.legible_comparison
  | guarded | ended =>
    intro gap more blank readable apart
    have closing : Spaced.Readable (⟨[], .rightParen, ")"⟩ :: more) :=
      readable_mark (by simp) rfl piece_rightParen readable
    have inside := g.legible_comparison [] _ (by simp) closing (apart_cons rfl)
    have opening : Spaced.Readable (⟨gap, .leftParen, "("⟩ ::
        (g.comparison.items [] ++ ⟨[], .rightParen, ")"⟩ :: more)) :=
      readable_mark blank rfl piece_leftParen inside
    simpa [Guard.form, parens, Form.items, Forms.items] using opening

theorem Style.legible_ending (style : Style) : style.ending.Legible := by
  cases style with
  | bare => exact legible_nil
  | guarded => exact legible_nil
  | ended =>
    intro more readable apart
    exact ⟨readable_mark (by simp) rfl piece_semicolon readable, apart_cons rfl⟩

mutual

theorem Code.legible (style : Style) : ∀ s : Code, (s.form style).Legible
  | .simple s => legible_rule s.legible style.legible_ending
  | .when word g yes => legible_rule (legible_rule (word.legible (by decide))
      (legible_cons (g.legible style) (legible_cons (yes.legible style) legible_nil))) legible_nil
  | .choose word g yes other no => legible_rule (legible_rule (word.legible (by decide))
      (legible_cons (g.legible style) (legible_cons (yes.legible style)
        (legible_cons (other.legible (by decide)) (legible_cons (no.legible style) legible_nil)))))
      legible_nil
  | .loop word g body => legible_rule (legible_rule (word.legible (by decide))
      (legible_cons (g.legible style) (legible_cons (body.legible style) legible_nil))) legible_nil
  | .block first body last => legible_rule (legible_rule (first.legible (by decide))
      (Code.legible_forms style (legible_cons (last.legible (by decide)) legible_nil) body)) legible_nil

theorem Code.legible_forms (style : Style) {rest : Forms} (atRest : rest.Legible) :
    ∀ ss : List Code, (Code.forms style rest ss).Legible
  | [] => atRest
  | s :: ss => legible_cons (s.legible style) (Code.legible_forms style atRest ss)

end

theorem Style.legible_parameters (style : Style) {rest : Forms} (atRest : rest.Legible) :
    (style.parameters rest).Legible := by
  cases style with
  | bare => exact atRest
  | guarded | ended =>
    intro more readable apart
    obtain ⟨behind, -⟩ := atRest more readable apart
    have closing : Spaced.Readable (⟨[], .rightParen, ")"⟩ :: (rest.items ++ more)) :=
      readable_mark (by simp) rfl piece_rightParen behind
    exact ⟨readable_mark (by simp) rfl piece_leftParen closing, apart_cons rfl⟩

theorem Code.legible_body (style : Style) (body : List Code) : (Code.body style body).Legible := by
  cases body with
  | nil => exact legible_nil
  | cons s ss =>
    exact legible_cons (legible_rule (s.legible style) (legible_forms style legible_nil ss)) legible_nil

theorem legible_program (style : Style) (body : List Code) : (program style body).Legible := by
  have name : (Form.leaf .identifier "p").Legible := legible_lexed (by with_unfolding_all rfl)
  have create : (keyword "CREATE").Legible := legible_lexed (by with_unfolding_all rfl)
  have proc : (keyword "PROC").Legible := legible_lexed (by with_unfolding_all rfl)
  have as : (keyword "AS").Legible := legible_lexed (by with_unfolding_all rfl)
  have behind := style.legible_parameters (legible_cons as (Code.legible_body style body))
  exact legible_rule (legible_rule (legible_rule create
    (legible_cons proc (legible_cons (legible_rule name legible_nil) behind))) legible_nil) legible_nil

theorem Form.Legible.readable {form : Form} (legible : form.Legible) : Spaced.Readable (form.items []) := by
  have readable := legible [] [] (by simp) trivial apart_nil
  rwa [List.append_nil] at readable

theorem readable_program (style : Style) (body : List Code) :
    Spaced.Readable ((program style body).items []) := (legible_program style body).readable

/-- A program in which every `ELSE` is settled is read as it is written. -/
theorem parse_program (style : Style) {body : List Code} (settled : Code.AllSettled body) :
    ∃ tree root, parse (.ofList (program style body).text) = .ok tree ∧ tree.root = some root ∧
      root.shape = (program style body).shape := by
  refine parse_form (readable_program style body) ?_
  obtain ⟨depth, enough⟩ : ∃ depth, 80 * ((program style body).faces.length + 1) = depth + 4 :=
    ⟨80 * ((program style body).faces.length + 1) - 4, by omega⟩
  rw [enough]
  refine takes_program style settled ?_
  rw [faces_program, List.length_append] at enough
  omega

namespace Code

/-- The statement with an `ELSE` for the last `IF` in it that has none. -/
def attach (other : Word "ELSE") (no : Code) : Code → Code
  | when word g yes => if yes.isOpen then when word g (attach other no yes) else choose word g yes other no
  | choose word g yes other' last => choose word g yes other' (attach other no last)
  | loop word g body => loop word g (attach other no body)
  | simple s => simple s
  | block first body last => block first body last

mutual

/-- The statement that is read where this one is written. -/
def settle : Code → Code
  | simple s => simple s
  | when word g yes => when word g yes.settle
  | choose word g yes other no =>
    if yes.settle.isOpen then when word g (attach other no.settle yes.settle)
    else choose word g yes.settle other no.settle
  | loop word g body => loop word g body.settle
  | block first body last => block first (settleAll body) last

def settleAll : List Code → List Code
  | [] => []
  | s :: ss => s.settle :: settleAll ss

end

theorem settled_attach {other : Word "ELSE"} {no : Code} (settledNo : no.Settled) : ∀ s : Code,
    s.isOpen = true → s.Settled → (attach other no s).Settled
  | when word g yes, _, settled => by
    rw [attach]
    split
    · next isOpen => exact settled_attach settledNo yes isOpen settled
    · next closed => exact ⟨Bool.eq_false_iff.mpr closed, settled, settledNo⟩
  | choose word g yes _ last, isOpen, ⟨closed, settledYes, settledLast⟩ =>
    ⟨closed, settledYes, settled_attach settledNo last isOpen settledLast⟩
  | loop word g body, isOpen, settled => settled_attach settledNo body isOpen settled
  | simple _, isOpen, _ => by cases isOpen
  | block _ _ _, isOpen, _ => by cases isOpen

theorem faces_attach (style : Style) (other : Word "ELSE") (no : Code) : ∀ s : Code, s.isOpen = true →
    ((attach other no s).form style).faces =
      (s.form style).faces ++ other.face :: (no.form style).faces
  | when word g yes, _ => by
    rw [attach]
    split
    · next isOpen =>
      simp [form, statement, Form.faces, Forms.faces, faces_attach style other no yes isOpen]
    · simp [form, statement, Word.form, Word.face, keyword, Form.faces, Forms.faces]
  | choose word g yes _ last, isOpen => by
    simp [attach, form, statement, Form.faces, Forms.faces, faces_attach style other no last isOpen]
  | loop word g body, isOpen => by
    simp [attach, form, statement, Form.faces, Forms.faces, faces_attach style other no body isOpen]
  | simple _, isOpen => by cases isOpen
  | block _ _ _, isOpen => by cases isOpen

mutual

theorem settled_settle : ∀ s : Code, s.settle.Settled
  | simple s => trivial
  | when word g yes => settled_settle yes
  | choose word g yes other no => by
    rw [settle]
    split
    · next isOpen => exact settled_attach (settled_settle no) _ isOpen (settled_settle yes)
    · next closed =>
      exact ⟨Bool.eq_false_iff.mpr closed, settled_settle yes, settled_settle no⟩
  | loop word g body => settled_settle body
  | block first body last => allSettled_settleAll body

theorem allSettled_settleAll : ∀ ss : List Code, AllSettled (settleAll ss)
  | [] => trivial
  | s :: ss => ⟨settled_settle s, allSettled_settleAll ss⟩

end

mutual

theorem faces_settle (style : Style) : ∀ s : Code, (s.settle.form style).faces = (s.form style).faces
  | simple s => rfl
  | when word g yes => by simp [settle, form, statement, Form.faces, Forms.faces, faces_settle style yes]
  | choose word g yes other no => by
    rw [settle]
    split
    · next isOpen =>
      simp [form, statement, Word.form, Word.face, keyword, Form.faces, Forms.faces,
        faces_attach style _ _ _ isOpen, faces_settle style yes, faces_settle style no]
    · simp [form, statement, Form.faces, Forms.faces, faces_settle style yes, faces_settle style no]
  | loop word g body => by simp [settle, form, statement, Form.faces, Forms.faces, faces_settle style body]
  | block first body last => by
    simp [settle, form, statement, Form.faces, faces_forms, facesOf_settleAll style body]

theorem facesOf_settleAll (style : Style) : ∀ ss : List Code,
    facesOf style (settleAll ss) = facesOf style ss
  | [] => rfl
  | s :: ss => by
    have others := facesOf_settleAll style ss
    rw [facesOf, facesOf] at others
    rw [settleAll, facesOf, facesOf, List.flatMap_cons, List.flatMap_cons, faces_settle style s, others]

end

end Code

theorem Lexeme.form_shape_inj {l l' : Lexeme} (same : l.form.shape = l'.form.shape) : l = l' := by
  obtain ⟨kind, text, lexes⟩ := l
  obtain ⟨kind', text', lexes'⟩ := l'
  simp only [Lexeme.form, Form.shape, Shape.leaf.injEq] at same
  obtain ⟨rfl, rfl⟩ := same
  rfl

theorem Terminal.form_shape_inj {test : Lexeme → Bool} {t t' : Terminal test}
    (same : t.1.form.shape = t'.1.form.shape) : t = t' := Subtype.ext (Lexeme.form_shape_inj same)

theorem Word.form_shape_inj {w : String} (known : w ∈ reserved) {word word' : Word w}
    (same : word.form.shape = word'.form.shape) : word = word' := by
  refine Terminal.form_shape_inj ?_
  rw [Lexeme.form, Lexeme.form, word.kind_eq_keyword known, word'.kind_eq_keyword known]
  exact same

theorem Jump.kind_inj {j k : Jump} (same : j.kind = k.kind) : j = k := by
  cases j <;> cases k <;> first | rfl | cases same

theorem Jump.kind_ne (j : Jump) : Kind.print ≠ j.kind ∧ Kind.setVariable ≠ j.kind := by
  cases j <;> decide

theorem Simple.shape_inj {s t : Simple} (same : s.form.shape = t.form.shape) : s = t := by
  cases s with
  | print word value =>
    cases t <;> simp only [form, Form.shape, Forms.shapes, Shape.rule.injEq, List.cons.injEq] at same
    · rw [Word.form_shape_inj (by decide) same.2.1, Terminal.form_shape_inj same.2.2.1]
    · cases same.1
    · exact absurd same.1 (Jump.kind_ne _).1
  | assign word name value =>
    cases t <;> simp only [form, Form.shape, Forms.shapes, Shape.rule.injEq, List.cons.injEq] at same
    · cases same.1
    · rw [Word.form_shape_inj (by decide) same.2.1, Terminal.form_shape_inj same.2.2.1,
        Terminal.form_shape_inj same.2.2.2.2.1]
    · exact absurd same.1 (Jump.kind_ne _).2
  | jump j word =>
    cases t <;> simp only [form, Form.shape, Forms.shapes, Shape.rule.injEq, List.cons.injEq] at same
    · exact absurd same.1.symm j.kind_ne.1
    · exact absurd same.1.symm j.kind_ne.2
    · obtain rfl := Jump.kind_inj same.1
      rw [Word.form_shape_inj j.known same.2.1]

theorem Simple.shape_ne (s : Simple) {kind : Kind} {children : List (Shape Kind)}
    (other : kind ∈ [.ifStatement, .whileStatement, .block]) : s.form.shape ≠ .rule kind children := by
  simp only [List.mem_cons, List.not_mem_nil, or_false] at other
  intro same
  rcases s with _ | _ | ⟨_ | _ | _, _⟩ <;> rcases other with rfl | rfl | rfl <;> cases same

theorem Guard.shape_inj {g h : Guard} (same : (g.form .bare).shape = (h.form .bare).shape) : g = h := by
  obtain ⟨name, op, value⟩ := g
  obtain ⟨name', op', value'⟩ := h
  simp [form, comparison, Form.shape, Forms.shapes] at same
  rw [Terminal.form_shape_inj same.1, Terminal.form_shape_inj same.2.1,
    Terminal.form_shape_inj same.2.2]

namespace Code

mutual

theorem shape_inj : ∀ s t : Code, (s.form .bare).shape = (t.form .bare).shape → s = t
  | simple s, t, same => by
    cases t <;> simp [form, Form.shape, Forms.shapes, statement, Style.ending] at same
    · rw [Simple.shape_inj same]
    all_goals exact absurd same (s.shape_ne (by simp))
  | when word g yes, t, same => by
    cases t <;> simp [form, Form.shape, Forms.shapes, statement, Style.ending] at same
    · exact absurd same.symm (Simple.shape_ne _ (by simp))
    · rw [Word.form_shape_inj (by decide) same.1, Guard.shape_inj same.2.1, shape_inj _ _ same.2.2]
  | choose word g yes other no, t, same => by
    cases t <;> simp [form, Form.shape, Forms.shapes, statement, Style.ending] at same
    · exact absurd same.symm (Simple.shape_ne _ (by simp))
    · rw [Word.form_shape_inj (by decide) same.1, Guard.shape_inj same.2.1, shape_inj _ _ same.2.2.1,
        Word.form_shape_inj (by decide) same.2.2.2.1, shape_inj _ _ same.2.2.2.2]
  | loop word g body, t, same => by
    cases t <;> simp [form, Form.shape, Forms.shapes, statement, Style.ending] at same
    · exact absurd same.symm (Simple.shape_ne _ (by simp))
    · rw [Word.form_shape_inj (by decide) same.1, Guard.shape_inj same.2.1, shape_inj _ _ same.2.2]
  | block first body last, t, same => by
    cases t <;> simp [form, Form.shape, Forms.shapes, statement, Style.ending, shapes_forms] at same
    · exact absurd same.symm (Simple.shape_ne _ (by simp))
    · rw [Word.form_shape_inj (by decide) same.1, shapesOf_inj _ _ same.2.1,
        Word.form_shape_inj (by decide) same.2.2]

theorem shapesOf_inj : ∀ ss ts : List Code, shapesOf .bare ss = shapesOf .bare ts → ss = ts
  | [], [], _ => rfl
  | s :: ss, t :: ts, same => by
    obtain ⟨here, later⟩ := List.cons.inj same
    rw [shape_inj s t here, shapesOf_inj ss ts later]

end

end Code

theorem program_shape_inj {body body' : List Code}
    (same : (program .bare body).shape = (program .bare body').shape) : body = body' := by
  cases body with
  | nil =>
    cases body' with
    | nil => rfl
    | cons => simp [program, statement, procedure, Form.shape, Forms.shapes, Style.parameters, Code.body] at same
  | cons s ss =>
    cases body' with
    | nil => simp [program, statement, procedure, Form.shape, Forms.shapes, Style.parameters, Code.body] at same
    | cons t ts =>
      simp [program, statement, procedure, Form.shape, Forms.shapes, Style.parameters, Code.body,
        Code.shapes_forms] at same
      rw [Code.shape_inj _ _ same.1, Code.shapesOf_inj _ _ same.2]

mutual

/-- Every gap in the form is a single blank. -/
def Form.Even : Form → Prop
  | .leaf _ _ => True
  | .rule _ first rest => first.Even ∧ rest.Even

def Forms.Even : Forms → Prop
  | .nil => True
  | .cons gap form rest => gap = space ∧ form.Even ∧ rest.Even

end

mutual

theorem Form.Even.text_eq : ∀ {form : Form}, form.Even → ∃ first rest, form.faces = first :: rest ∧
    form.text = first.2.toList ++ rest.flatMap fun face => ' ' :: face.2.toList
  | .leaf kind text, _ => ⟨(kind, text), [], rfl, by simp [Form.text]⟩
  | .rule kind first others, ⟨evenFirst, evenRest⟩ => by
    obtain ⟨face, rest, faces, text⟩ := evenFirst.text_eq
    refine ⟨face, rest ++ others.faces, by simp [Form.faces, faces], ?_⟩
    rw [Form.text, text, evenRest.text_eq, List.flatMap_append, List.append_assoc]

theorem Forms.Even.text_eq : ∀ {forms : Forms}, forms.Even →
    forms.text = forms.faces.flatMap fun face => ' ' :: face.2.toList
  | .nil, _ => rfl
  | .cons gap form others, ⟨isSpace, evenForm, evenRest⟩ => by
    obtain ⟨face, rest, faces, text⟩ := evenForm.text_eq
    rw [Forms.text, Forms.faces, isSpace, text, faces, evenRest.text_eq]
    simp [space]

end

theorem Simple.even (s : Simple) : s.form.Even := by
  cases s <;> simp [form, Word.form, keyword, Lexeme.form, Form.Even, Forms.Even]

theorem Guard.even (g : Guard) : (g.form .bare).Even := by
  simp [form, comparison, Lexeme.form, Form.Even, Forms.Even]

mutual

theorem Code.even : ∀ s : Code, (s.form .bare).Even
  | .simple s => ⟨s.even, trivial⟩
  | .when _ g yes => ⟨⟨trivial, rfl, g.even, rfl, yes.even, trivial⟩, trivial⟩
  | .choose _ g yes _ no =>
    ⟨⟨trivial, rfl, g.even, rfl, yes.even, rfl, trivial, rfl, no.even, trivial⟩, trivial⟩
  | .loop _ g body => ⟨⟨trivial, rfl, g.even, rfl, body.even, trivial⟩, trivial⟩
  | .block _ body last =>
    have closing : (Forms.cons space last.form .nil).Even := ⟨rfl, trivial, trivial⟩
    ⟨⟨trivial, Code.even_forms closing body⟩, trivial⟩

theorem Code.even_forms {rest : Forms} (even : rest.Even) : ∀ ss : List Code,
    (Code.forms .bare rest ss).Even
  | [] => even
  | s :: ss => ⟨rfl, s.even, Code.even_forms even ss⟩

end

theorem even_program (body : List Code) : (program .bare body).Even := by
  have none : Forms.nil.Even := trivial
  have inBody : (Code.body .bare body).Even := by
    cases body with
    | nil => exact none
    | cons s ss => exact ⟨rfl, ⟨s.even, Code.even_forms none ss⟩, trivial⟩
  exact ⟨⟨⟨trivial, rfl, trivial, rfl, ⟨trivial, trivial⟩, rfl, trivial, inBody⟩, trivial⟩, trivial⟩

/-- Every `ELSE` of a program is settled that is read as it is written. -/
theorem settled_of_parse {body : List Code} {tree : Tree Kind} {root : Node Kind}
    (parsed : parse (.ofList (program .bare body).text) = .ok tree) (isRoot : tree.root = some root)
    (shaped : root.shape = (program .bare body).shape) : Code.AllSettled body := by
  have settled := Code.allSettled_settleAll body
  have sameFaces : (program .bare (Code.settleAll body)).faces = (program .bare body).faces := by
    rw [faces_program, faces_program, Code.facesOf_settleAll]
  have sameText : (program .bare (Code.settleAll body)).text = (program .bare body).text := by
    obtain ⟨first, rest, faces, text⟩ := (even_program body).text_eq
    obtain ⟨first', rest', faces', text'⟩ := (even_program (Code.settleAll body)).text_eq
    rw [faces, faces'] at sameFaces
    obtain ⟨rfl, rfl⟩ := List.cons.inj sameFaces
    rw [text, text']
  obtain ⟨tree', root', parsed', isRoot', shaped'⟩ := parse_program .bare settled
  rw [sameText, parsed] at parsed'
  obtain rfl := Except.ok.inj parsed'
  obtain rfl := Option.some.inj (isRoot.symm.trans isRoot')
  rw [program_shape_inj (shaped.symm.trans shaped')]
  exact settled

theorem toList_intercalate_space (first : String) (rest : List String) :
    (" ".intercalate (first :: rest)).toList =
      first.toList ++ rest.flatMap fun text => ' ' :: text.toList := by
  rw [String.toList_intercalate]
  induction rest generalizing first with
  | nil => simp
  | cons next rest ih =>
    have later := ih next
    simp only [List.map_cons, List.intercalate_cons_cons, List.flatMap_cons] at later ⊢
    rw [later]
    simp

def headerLexemes : List Lexeme := [⟨.keyword, "CREATE", by with_unfolding_all rfl⟩,
  ⟨.keyword, "PROC", by with_unfolding_all rfl⟩, ⟨.identifier, "p", by with_unfolding_all rfl⟩,
  ⟨.keyword, "AS", by with_unfolding_all rfl⟩]

/-- Words that are read as a program are the program as it is written. -/
theorem program_of_lexemes {lexemes : List Lexeme} {body : List Code} {tree : Tree Kind}
    {root : Node Kind}
    (parsed : parse (" ".intercalate ("CREATE PROC p AS" :: lexemes.map Lexeme.text)) = .ok tree)
    (isRoot : tree.root = some root) (shaped : root.shape = (program .bare body).shape) :
    " ".intercalate ("CREATE PROC p AS" :: lexemes.map Lexeme.text) =
      .ofList (program .bare body).text := by
  have source : " ".intercalate ("CREATE PROC p AS" :: lexemes.map Lexeme.text) =
      " ".intercalate ((headerLexemes ++ lexemes).map Lexeme.text) := by
    apply String.toList_inj.mp
    cases lexemes <;> simp [String.toList_intercalate, headerLexemes]
  obtain ⟨tokens, lexed, faces⟩ := lex_spaced (headerLexemes ++ lexemes)
  obtain ⟨lexed', -, leaves⟩ := parse_tree parsed
  rw [isRoot] at leaves
  rw [source, lexed] at lexed'
  have same : (headerLexemes ++ lexemes).map Lexeme.face = (program .bare body).faces := by
    rw [← faces, Except.ok.inj lexed', ← leaves, faces_of_shape _ shaped]
  obtain ⟨first, rest, isFaces, text⟩ := (even_program body).text_eq
  rw [isFaces] at same
  have texts : (headerLexemes ++ lexemes).map Lexeme.text = first.2 :: rest.map Prod.snd := by
    simpa [Lexeme.face, Function.comp_def] using congrArg (List.map Prod.snd) same
  apply String.toList_inj.mp
  rw [source, texts, toList_intercalate_space, String.toList_ofList, text, List.flatMap_map]

end SqlFerry.Tsql
