import SqlFerry.Conversion
import SqlFerry.Proofs.Pass.Declarations
import SqlFerry.Proofs.Pass.Parentheses
import SqlFerry.Proofs.Pass.Terminator
import SqlFerry.Proofs.Plpgsql.Function
import SqlFerry.Proofs.Plpgsql.Translation
import SqlFerry.Proofs.Stage

/-! Converting procedures of plain control flow from end to end. -/
namespace SqlFerry

open Text (byteLength isBlank isInk)

namespace Tsql

/-! ### The characters of a program -/

/-- The form is written with single blanks and visible characters. -/
def Form.Printed (form : Form) : Prop := ∀ c ∈ form.text, c = ' ' ∨ isBlank c = false

def Forms.Printed (forms : Forms) : Prop := ∀ c ∈ forms.text, c = ' ' ∨ isBlank c = false

theorem printed_rule {kind : Kind} {first : Form} {rest : Forms} (atFirst : first.Printed)
    (atRest : rest.Printed) : (Form.rule kind first rest).Printed :=
  List.forall_mem_append.mpr ⟨atFirst, atRest⟩

theorem printed_nil : Forms.nil.Printed := by simp [Forms.Printed, Forms.text]

theorem printed_cons {gap : List Char} {form : Form} {rest : Forms} (blank : ∀ c ∈ gap, c = ' ')
    (atForm : form.Printed) (atRest : rest.Printed) : (Forms.cons gap form rest).Printed :=
  List.forall_mem_append.mpr ⟨List.forall_mem_append.mpr ⟨fun c member => .inl (blank c member), atForm⟩, atRest⟩

theorem printed_spaced {form : Form} {rest : Forms} (atForm : form.Printed) (atRest : rest.Printed) :
    (Forms.cons space form rest).Printed := printed_cons (by simp [space]) atForm atRest

theorem printed_ink {kind : Kind} {text : String} (ink : ∀ c ∈ text.toList, isInk c = true) :
    (Form.leaf kind text).Printed := fun c member => .inr (solid_of_ink ink c member)

theorem Word.printed {w : String} (word : Word w) (plain : isPlainWord w = true) : word.form.Printed :=
  printed_ink (word.ink plain)

theorem Variable.printed (v : Variable) : v.1.form.Printed := by
  obtain ⟨name, text, isWord⟩ := v.text
  refine printed_ink fun c member => ?_
  rw [text] at member
  rcases List.mem_cons.mp member with rfl | inName
  · decide
  · exact Text.isInk_of_isWordChar (isWord c inName)

theorem Jump.plain (j : Jump) : isPlainWord j.word = true := by cases j <;> decide

theorem Simple.printed (s : Simple) : s.form.Printed := by
  cases s with
  | print word value =>
    exact printed_rule (word.printed (by decide)) (printed_spaced (printed_ink value.ink) printed_nil)
  | assign word name value =>
    exact printed_rule (word.printed (by decide)) (printed_spaced name.printed
      (printed_spaced (printed_ink (List.all_eq_true.mp (by decide))) (printed_spaced (printed_ink value.ink) printed_nil)))
  | jump j word => exact printed_rule (word.printed j.plain) printed_nil

theorem Guard.printed (g : Guard) (style : Style) : (g.form style).Printed := by
  have inside : g.comparison.Printed := printed_rule g.name.printed
    (printed_spaced (printed_ink g.op.ink) (printed_spaced (printed_ink g.value.ink) printed_nil))
  cases style with
  | bare => exact inside
  | guarded | ended =>
    exact printed_rule (printed_ink (List.all_eq_true.mp (by decide))) (printed_cons (by simp) inside
      (printed_cons (by simp) (printed_ink (List.all_eq_true.mp (by decide))) printed_nil))

theorem Style.printed_ending (style : Style) : style.ending.Printed := by
  cases style with
  | bare | guarded => exact printed_nil
  | ended =>
    have semicolon : (Form.leaf .semicolon ";").Printed := by simp [Form.Printed, Form.text]; decide
    exact printed_cons (by simp) semicolon printed_nil

mutual

theorem Code.printed (style : Style) : ∀ s : Code, (s.form style).Printed
  | .simple s => printed_rule s.printed style.printed_ending
  | .when word g yes => printed_rule (printed_rule (word.printed (by decide))
      (printed_spaced (g.printed style) (printed_spaced (yes.printed style) printed_nil))) printed_nil
  | .choose word g yes other no => printed_rule (printed_rule (word.printed (by decide))
      (printed_spaced (g.printed style) (printed_spaced (yes.printed style)
        (printed_spaced (other.printed (by decide)) (printed_spaced (no.printed style) printed_nil)))))
      printed_nil
  | .loop word g body => printed_rule (printed_rule (word.printed (by decide))
      (printed_spaced (g.printed style) (printed_spaced (body.printed style) printed_nil))) printed_nil
  | .block first body last => printed_rule (printed_rule (first.printed (by decide))
      (Code.printed_forms style (printed_spaced (last.printed (by decide)) printed_nil) body)) printed_nil

theorem Code.printed_forms (style : Style) {rest : Forms} (atRest : rest.Printed) :
    ∀ ss : List Code, (Code.forms style rest ss).Printed
  | [] => atRest
  | s :: ss => printed_spaced (s.printed style) (Code.printed_forms style atRest ss)

end

theorem printed_program (style : Style) (body : List Code) : (program style body).Printed := by
  have inBody : (Code.body style body).Printed := by
    cases body with
    | nil => exact printed_nil
    | cons s ss =>
      exact printed_spaced (printed_rule (s.printed style) (Code.printed_forms style printed_nil ss)) printed_nil
  have parameters {rest : Forms} (atRest : rest.Printed) : (style.parameters rest).Printed := by
    cases style with
    | bare => exact atRest
    | guarded | ended =>
      exact printed_cons (by simp) (printed_rule (printed_ink (List.all_eq_true.mp (by decide)))
        (printed_cons (by simp) (printed_ink (List.all_eq_true.mp (by decide))) printed_nil)) atRest
  have visible {kind : Kind} {text : String} (ink : text.toList.all isInk = true) : (Form.leaf kind text).Printed :=
    printed_ink (List.all_eq_true.mp ink)
  exact printed_rule (printed_rule (printed_rule (visible (by decide)) (printed_spaced (visible (by decide))
    (printed_spaced (printed_rule (visible (by decide)) printed_nil)
      (parameters (printed_spaced (visible (by decide)) inBody))))) printed_nil) printed_nil

theorem flat_program (style : Style) (body : List Code) : '\n' ∉ (program style body).text := by
  intro member
  rcases printed_program style body _ member with other | other <;> cases other

theorem dropReturn_program (style : Style) (body : List Code) :
    Buffer.dropReturn (.ofList (program style body).text) = .ofList (program style body).text := by
  unfold Buffer.dropReturn
  split
  · next last =>
    rw [String.toList_ofList] at last
    rcases printed_program style body _ (List.mem_of_getLast? last) with other | other <;> cases other
  · rfl

/-! ### Sizes -/

@[simp] theorem byteLength_space : byteLength space = 1 := rfl

theorem Word.byteLength {w : String} (word : Word w) : byteLength word.1.text.toList = byteLength w.toList :=
  Text.byteLength_of_sameWord word.sameWord

theorem Simple.byteLength_form (s : Simple) : 3 ≤ byteLength s.form.text := by
  have words : byteLength "PRINT".toList = 5 ∧ byteLength "SET".toList = 3 := ⟨rfl, rfl⟩
  cases s with
  | print word value =>
    simp only [Simple.form, Form.text, text_keyword, Text.byteLength_append, word.byteLength]
    omega
  | assign word name value =>
    simp only [Simple.form, Form.text, text_keyword, Text.byteLength_append, word.byteLength]
    omega
  | jump j word =>
    have each : 3 ≤ byteLength j.word.toList := by cases j <;> decide
    simp only [Simple.form, Form.text, text_keyword, Text.byteLength_append, word.byteLength]
    omega

theorem Guard.byteLength_form (g : Guard) (style : Style) :
    byteLength (g.form style).text ≤ byteLength (g.form .bare).text + 2 := by
  cases style with
  | bare => exact Nat.le_add_right _ _
  | guarded | ended =>
    have parens : byteLength "(".toList = 1 ∧ byteLength ")".toList = 1 := ⟨rfl, rfl⟩
    simp only [Guard.form, Tsql.parens, Form.text, Forms.text, Text.byteLength_append, Text.byteLength_nil]
    omega

mutual

/-- Parentheses and semicolons no more than double a statement. -/
theorem Code.byteLength_form (style : Style) : ∀ s : Code,
    byteLength (s.form style).text ≤ 2 * byteLength (s.form .bare).text
  | .simple s => by
    have ending : byteLength style.ending.text ≤ 1 := by cases style <;> decide
    have visible := s.byteLength_form
    simp only [Code.form, Form.text, Text.byteLength_append]
    omega
  | .when word g yes => by
    have inGuard := g.byteLength_form style
    have inYes := yes.byteLength_form style
    simp only [Code.form, statement, Form.text, Forms.text, Text.byteLength_append, byteLength_space,
      Text.byteLength_nil]
    omega
  | .choose word g yes other no => by
    have inGuard := g.byteLength_form style
    have inYes := yes.byteLength_form style
    have inNo := no.byteLength_form style
    simp only [Code.form, statement, Form.text, Forms.text, Text.byteLength_append, byteLength_space,
      Text.byteLength_nil]
    omega
  | .loop word g body => by
    have inGuard := g.byteLength_form style
    have inBody := body.byteLength_form style
    simp only [Code.form, statement, Form.text, Forms.text, Text.byteLength_append, byteLength_space,
      Text.byteLength_nil]
    omega
  | .block first body last => by
    have inBody := Code.byteLength_forms style (.cons space last.form .nil) body
    simp only [Code.form, statement, Form.text, Text.byteLength_append]
    omega

theorem Code.byteLength_forms (style : Style) (rest : Forms) : ∀ ss : List Code,
    byteLength (Code.forms style rest ss).text ≤ 2 * byteLength (Code.forms .bare rest ss).text
  | [] => by simp only [Code.forms]; omega
  | s :: ss => by
    have inFirst := s.byteLength_form style
    have inRest := Code.byteLength_forms style rest ss
    simp only [Code.forms, Forms.text, Text.byteLength_append]
    omega

end

theorem byteLength_program (style : Style) (body : List Code) :
    byteLength (program style body).text ≤ 2 * byteLength (program .bare body).text := by
  have inBody : byteLength (Code.body style body).text ≤ 2 * byteLength (Code.body .bare body).text := by
    cases body with
    | nil => simp [Code.body, Forms.text]
    | cons s ss =>
      have inFirst := s.byteLength_form style
      have inRest := Code.byteLength_forms style .nil ss
      simp only [Code.body, Form.text, Forms.text, Text.byteLength_append, Text.byteLength_nil]
      omega
  have parameters (rest : Forms) :
      byteLength (style.parameters rest).text ≤ byteLength rest.text + 2 := by
    cases style with
    | bare => exact Nat.le_add_right _ _
    | guarded | ended =>
      have parens : byteLength (Tsql.parens .procedureParameters id).text = 2 := rfl
      simp only [Style.parameters, Forms.text, Text.byteLength_append, Text.byteLength_nil]
      omega
  have atAs := parameters (.cons space (keyword "AS") (Code.body style body))
  simp only [program, statement, procedure, Form.text, Forms.text, Text.byteLength_append, Text.byteLength_nil,
    byteLength_space, Style.parameters] at atAs ⊢
  omega

theorem byteLength_forms_program (body : List Code) :
    byteLength (Code.forms .bare .nil body).text ≤ byteLength (program .bare body).text := by
  have inBody : (Code.forms .bare .nil body).text = (Code.body .bare body).text := by
    cases body <;> simp [Code.forms, Code.body, Form.text, Forms.text]
  rw [inBody]
  simp only [program, statement, procedure, Style.parameters, Form.text, Forms.text, Text.byteLength_append]
  omega

section Target

variable {rename : String → String}

/-- New names are at most a little longer. -/
def Short (rename : String → String) : Prop :=
  ∀ v : Variable, byteLength (v.target rename) ≤ byteLength v.1.text.toList + 14

theorem Simple.byteLength_target (short : Short rename) (s : Simple) :
    byteLength (s.target rename) + 1 ≤ 16 * byteLength s.form.text := by
  have visible := s.byteLength_form
  cases s with
  | print word value =>
    have notice : byteLength "RAISE NOTICE '%',".toList = 17 := rfl
    rw [Simple.target_print]
    simp only [Simple.form, Form.text, Forms.text, Lexeme.form, Text.byteLength_append, byteLength_space,
      Text.byteLength_nil, notice] at visible ⊢
    omega
  | assign word name value =>
    have inName := short name
    have becomes : byteLength ":=".toList = 2 := rfl
    rw [Simple.target_assign]
    simp only [Simple.form, Form.text, Forms.text, Lexeme.form, Text.byteLength_append, byteLength_space,
      Text.byteLength_nil, becomes] at visible ⊢
    omega
  | jump j word =>
    have inside : byteLength (j.target word.1.text).toList ≤ 8 := by
      cases j with
      | leave => exact show byteLength "EXIT".toList ≤ 8 by decide
      | finish => exact word.byteLength.trans_le (by decide)
      | again => exact word.byteLength.trans_le (by decide)
    change byteLength (j.target word.1.text).toList + 1 ≤ _
    omega

theorem Guard.byteLength_target (short : Short rename) (g : Guard) :
    byteLength (g.target rename) ≤ byteLength (g.form .bare).text + 16 := by
  have inName := short g.name
  have parens : byteLength ['('] = 1 ∧ byteLength [')'] = 1 := ⟨rfl, rfl⟩
  have text : g.target rename = ['('] ++ g.name.target rename ++ space ++ g.op.1.text.toList ++ space ++
      g.value.1.text.toList ++ [')'] := rfl
  rw [text]
  simp only [Guard.form, Guard.comparison, Form.text, Forms.text, Lexeme.form, Text.byteLength_append,
    byteLength_space, Text.byteLength_nil]
  omega

/-- The converted texts of a statement are not much longer than the statement. -/
structure Code.Bounded (rename : String → String) (s : Code) : Prop where
  whole : byteLength (s.target rename) ≤ 16 * byteLength (s.form .bare).text
  middle : byteLength (s.middle rename) ≤ 16 * byteLength (s.form .bare).text + 1
  closed : ∀ closer : String,
    byteLength (s.closed rename closer) ≤ 16 * byteLength (s.form .bare).text + byteLength closer.toList + 1

theorem Code.Bounded.of_whole {s : Code} (other : s.isBlock = false)
    (whole : byteLength (s.target rename) ≤ 16 * byteLength (s.form .bare).text) : s.Bounded rename := by
  refine ⟨whole, ?_, fun closer => ?_⟩
  · rw [Code.middle_other _ other, Text.byteLength_append, byteLength_space]
    omega
  · have lineEnd : byteLength ['\n'] = 1 := rfl
    rw [Code.closed_other _ other, String.toList_append, Text.byteLength_append, Text.byteLength_append]
    change _ + (byteLength ['\n'] + _) ≤ _
    omega

mutual

theorem Code.bounded (short : Short rename) : ∀ s : Code, s.Bounded rename
  | .simple s => by
    have inside := s.byteLength_target short
    have semicolon : byteLength [';'] = 1 := rfl
    refine .of_whole rfl ?_
    rw [Code.target_simple]
    simp only [Code.form, Form.text, Text.byteLength_append]
    omega
  | .when word g yes => by
    have inGuard := g.byteLength_target short
    have inYes := (Code.bounded short yes).closed "END IF;"
    have words : byteLength word.1.text.toList = 2 ∧ byteLength " THEN".toList = 5 ∧
      byteLength "END IF;".toList = 7 := ⟨word.byteLength, rfl, rfl⟩
    refine .of_whole rfl ?_
    rw [Code.target_when]
    simp only [Code.form, statement, text_keyword, Form.text, Forms.text, Text.byteLength_append, byteLength_space,
      Text.byteLength_nil]
    omega
  | .choose word g yes other no => by
    have inGuard := g.byteLength_target short
    have inYes := (Code.bounded short yes).middle
    have inNo := (Code.bounded short no).closed "END IF;"
    have words : byteLength word.1.text.toList = 2 ∧ byteLength " THEN".toList = 5 ∧
      byteLength other.1.text.toList = 4 ∧ byteLength "END IF;".toList = 7 :=
        ⟨word.byteLength, rfl, other.byteLength, rfl⟩
    refine .of_whole rfl ?_
    rw [Code.target_choose]
    simp only [Code.form, statement, text_keyword, Form.text, Forms.text, Text.byteLength_append, byteLength_space,
      Text.byteLength_nil]
    omega
  | .loop word g body => by
    have inGuard := g.byteLength_target short
    have inBody := (Code.bounded short body).closed "END LOOP;"
    have words : byteLength word.1.text.toList = 5 ∧ byteLength " LOOP".toList = 5 ∧
      byteLength "END LOOP;".toList = 9 := ⟨word.byteLength, rfl, rfl⟩
    refine .of_whole rfl ?_
    rw [Code.target_loop]
    simp only [Code.form, statement, text_keyword, Form.text, Forms.text, Text.byteLength_append, byteLength_space,
      Text.byteLength_nil]
    omega
  | .block first body last => by
    have inBody := Code.bounded_all short (.cons space last.form .nil) body
    have words : byteLength first.1.text.toList = 5 ∧ byteLength last.1.text.toList = 3 ∧
      byteLength [';'] = 1 := ⟨first.byteLength, last.byteLength, rfl⟩
    have ending : byteLength (Forms.cons space last.form .nil).text = 4 := by
      simp only [Forms.text, Word.text_form, Text.byteLength_append, byteLength_space, Text.byteLength_nil]
      omega
    have text : byteLength ((Code.block first body last).form .bare).text = byteLength first.1.text.toList +
        byteLength (Code.forms .bare (.cons space last.form .nil) body).text := by
      simp only [Code.form, statement, text_keyword, Form.text, Forms.text, Text.byteLength_append,
        Text.byteLength_nil, Nat.add_zero]
    refine ⟨?_, ?_, fun closer => ?_⟩
    · rw [Code.target_block, text]
      simp only [Text.byteLength_append, byteLength_space]
      omega
    · change byteLength (Code.targets rename body) ≤ _
      omega
    · change byteLength (Code.targets rename body ++ closer.toList) ≤ _
      rw [Text.byteLength_append]
      omega

theorem Code.bounded_all (short : Short rename) (rest : Forms) : ∀ ss : List Code,
    byteLength (Code.targets rename ss) + 16 * byteLength rest.text ≤
      16 * byteLength (Code.forms .bare rest ss).text
  | [] => by simp only [Code.targets, Code.forms, Text.byteLength_nil]; omega
  | s :: ss => by
    have inFirst := (Code.bounded short s).whole
    have inRest := Code.bounded_all short rest ss
    rw [Code.targets_cons]
    simp only [Code.forms, Forms.text, Text.byteLength_append, byteLength_space]
    omega

end

theorem Code.byteLength_row (short : Short rename) (ss : List Code) :
    byteLength (Code.row rename ss) ≤ 16 * byteLength (Code.forms .bare .nil ss).text := by
  induction ss with
  | nil => simp [Code.row, Code.forms, Forms.text]
  | cons s ss ih =>
    have inFirst := (Code.bounded short s).whole
    have text : Code.row rename (s :: ss) = space ++ s.target rename ++ Code.row rename ss := rfl
    rw [text]
    simp only [Code.forms, Forms.text, Text.byteLength_append, byteLength_space]
    omega

theorem Code.byteLength_bodyTarget (short : Short rename) (body : List Code) :
    byteLength (Code.bodyTarget rename body) ≤ 16 * byteLength (Code.forms .bare .nil body).text := by
  by_cases sole : ∃ first inner last, body = [.block first inner last]
  · obtain ⟨first, inner, last, rfl⟩ := sole
    have inside := (Code.bounded short (.block first inner last)).middle
    change byteLength (space ++ Code.middle rename (.block first inner last)) ≤ _
    simp only [Code.forms, Forms.text, Text.byteLength_append, byteLength_space, Text.byteLength_nil] at inside ⊢
    omega
  · rw [Code.bodyTarget_other _ fun first inner last same => sole ⟨first, inner, last, same⟩]
    exact Code.byteLength_row short body

end Target

end Tsql

namespace Plpgsql

open Tsql (Kind Code Lexeme Names Short)

/-! ### Names -/

theorem names_default : Names (variableName {} false) where
  starts v := ⟨_, toList_variableName v.1.text⟩
  ink v := by
    obtain ⟨name, text, isWord⟩ := v.text
    refine isInk_variableName fun c member => ?_
    rw [text] at member
    rcases List.mem_cons.mp member with rfl | inName
    · decide
    · exact isWord c inName

theorem short_default : Short (variableName {} false) := fun v => byteLength_variableName v.1.text

/-! ### The whole conversion -/

variable {body : List Code}

theorem leads_program {name : String} {visit : Visit} {style next : Tsql.Style} (settled : Code.AllSettled body)
    (becomes : (Tsql.program style body).Becomes visit ⟨[], [], (· = [])⟩ (Tsql.program next body).text)
    (held : 16 * byteLength (Tsql.program .bare body).text ≤ textLimit) :
    (Pass.ofVisit name fun _ => visit).Leads [.ofList (Tsql.program style body).text]
      [.ofList (Tsql.program next body).text] := by
  obtain ⟨tree, root, parsed, isRoot, shaped⟩ := Tsql.parse_program style settled
  have fills := (Tsql.parse_lies (Tsql.readable_program style body) parsed isRoot shaped).fills
    (Tsql.flat_program style body)
  have inside : textLimit ≤ columnLimit := by decide
  have before := Tsql.byteLength_program style body
  have after := Tsql.byteLength_program next body
  exact Pass.leads_ofVisit parsed isRoot fills becomes (Tsql.flat_program next body) (by omega)

theorem leads_function (settled : Code.AllSettled body)
    (held : 16 * byteLength (Tsql.program .bare body).text ≤ textLimit) :
    (Pass.plpgsql {}).Leads [.ofList (Tsql.program .ended body).text] (functionOf {} body) := by
  obtain ⟨tree, root, parsed, isRoot, shaped⟩ := Tsql.parse_program .ended settled
  have fills := (Tsql.parse_lies (Tsql.readable_program .ended body) parsed isRoot shaped).fills
    (Tsql.flat_program .ended body)
  have one : Text.unlines [.ofList (Tsql.program .ended body).text] = .ofList (Tsql.program .ended body).text := by
    simp [Text.unlines, Text.join, Text.gather]
  have lines : tree.lines = [.ofList (Tsql.program .ended body).text] := by
    refine (Tsql.parse_tree parsed).2.1.trans ?_
    exact (congrArg Text.lines one.symm).trans
      (Text.lines_unlines (by simpa using Tsql.flat_program .ended body) (by simp))
  have limits : textLimit = 9223372036854775807 ∧ columnLimit = 18446744073709551615 := ⟨rfl, rfl⟩
  have source := Tsql.byteLength_program .ended body
  have header : byteLength (targetHeader {}) ≤ 64 := by decide
  have target := Code.byteLength_bodyTarget short_default body
  have inside := Tsql.byteLength_forms_program body
  obtain ⟨editor, ran, quiet⟩ := convertTree_program {} isRoot fills lines (by omega)
  exact Pass.leads_of_replace (by rw [one, parsed]) ran quiet

/-- The lines of a function around those of its body. -/
def frame (lines : List String) : List String :=
  ["CREATE OR REPLACE FUNCTION p() RETURNS void AS", "$$", "BEGIN"] ++ lines ++ ["END;", "$$ LANGUAGE plpgsql;"]

theorem functionOf_default (body : List Code) : functionOf {} body =
    frame (bodyLines "\t" (.ofList (Code.bodyTarget (variableName {} false) body))) := by
  have header : headerLines (.ofList (targetHeader {})) = ["CREATE OR REPLACE FUNCTION p() RETURNS void AS"] := by
    decide
  rw [functionOf, header]
  rfl

theorem flat_functionOf (body : List Code) : ∀ line ∈ functionOf {} body, '\n' ∉ line.toList := by
  rw [functionOf_default, frame, List.forall_mem_append, List.forall_mem_append]
  exact ⟨⟨by decide, flat_bodyLines (by decide) _⟩, by decide⟩

/-- A program of control flow goes through all stages. -/
theorem convert_program (settled : Code.AllSettled body)
    (held : 16 * byteLength (Tsql.program .bare body).text ≤ textLimit) :
    ∃ conversion, SqlFerry.convert {} (.ofList (Tsql.program .bare body).text) = .ok conversion ∧
      conversion.diagnostics = [] ∧ conversion.lines = functionOf {} body := by
  let source : String := .ofList (Tsql.program .bare body).text
  have single : Text.lines source = [source] := by
    have one : Text.unlines [source] = source := by simp [Text.unlines, Text.join, Text.gather]
    exact (congrArg Text.lines one.symm).trans
      (Text.lines_unlines (by simpa [source] using Tsql.flat_program .bare body) (by simp))
  have start : (Buffer.ofText source).lines = [source] := by
    simp only [Buffer.ofText, single, List.map_cons, List.map_nil, source, Tsql.dropReturn_program]
  exact convert_of_leads start (leads_program settled (Pass.becomes_program_guarded body) held)
    (leads_program settled (Pass.becomes_program_split body) held)
    (leads_program settled (Pass.becomes_program_ended body) held) (leads_function settled held)
    (flat_functionOf body) (by simp [functionOf_default, frame])

/-- Control flow is translated structurally: whatever tokens are read as a procedure of plain control
flow, its function has the words of the translation of the body. A source of this size leaves room for
everything that is put into it. -/
theorem control_flow_translated (lexemes : List Lexeme) (body : List Code) (tree : Tree Kind) (root : Node Kind)
    (parsed : Tsql.parse (" ".intercalate ("CREATE PROC p AS" :: lexemes.map Lexeme.text)) = .ok tree)
    (isRoot : tree.root = some root) (shaped : root.shape = (Tsql.program .bare body).shape)
    (held : 16 * Text.size (" ".intercalate ("CREATE PROC p AS" :: lexemes.map Lexeme.text)) ≤ textLimit) :
    ∃ conversion lines,
      SqlFerry.convert {} (" ".intercalate ("CREATE PROC p AS" :: lexemes.map Lexeme.text)) = .ok conversion ∧
      conversion.diagnostics = [] ∧ conversion.lines = frame lines ∧
      lines.flatMap Text.words = Code.bodyTranslation (variableName {} false) body := by
  have source := Tsql.program_of_lexemes parsed isRoot shaped
  rw [source] at parsed held ⊢
  rw [Text.size_ofList] at held
  obtain ⟨conversion, converted, quiet, lines⟩ :=
    convert_program (Tsql.settled_of_parse parsed isRoot shaped) held
  have spells := Code.spells_body names_default body
  refine ⟨conversion, _, converted, quiet, lines.trans (functionOf_default body), ?_⟩
  rw [words_bodyLines (List.all_eq_true.mp (by decide)), spells.words]
  rw [spells.words]
  exact spells.lasting

theorem dangling_else_translated : ∃ conversion lines,
    SqlFerry.convert {} "CREATE PROC p AS IF @a < 1 if @a = 1 Return ELSE begin PRINT 1 break END" =
      .ok conversion ∧
    conversion.diagnostics = [] ∧ conversion.lines = frame lines ∧
    lines.flatMap Text.words = ["IF", "(_vA", "<", "1)", "THEN", "if", "(_vA", "=", "1)", "THEN", "Return;",
      "ELSE", "RAISE", "NOTICE", "'%',", "1;", "EXIT;", "END", "IF;", "END", "IF;"] := by
  let word (text : String) (lexes : Tsql.lex text = .ok [⟨.keyword, text, 1, 0⟩]) : Lexeme := ⟨.keyword, text, lexes⟩
  let a : Lexeme := ⟨.userVariable, "@a", by with_unfolding_all rfl⟩
  let one : Tsql.Integer := ⟨⟨.numberLiteral, "1", by with_unfolding_all rfl⟩, by decide⟩
  let less : Lexeme := ⟨.less, "<", by with_unfolding_all rfl⟩
  let equals : Lexeme := ⟨.equals, "=", by with_unfolding_all rfl⟩
  let outer := word "IF" (by with_unfolding_all rfl)
  let inner := word "if" (by with_unfolding_all rfl)
  let finish := word "Return" (by with_unfolding_all rfl)
  let other := word "ELSE" (by with_unfolding_all rfl)
  let opening := word "begin" (by with_unfolding_all rfl)
  let print := word "PRINT" (by with_unfolding_all rfl)
  let leave := word "break" (by with_unfolding_all rfl)
  let ending := word "END" (by with_unfolding_all rfl)
  let lexemes : List Lexeme := [outer, a, less, one.1, inner, a, equals, one.1, finish, other, opening, print,
    one.1, leave, ending]
  let body : List Code := [.when ⟨outer, by decide⟩ ⟨⟨a, rfl⟩, ⟨less, rfl⟩, one⟩
    (.choose ⟨inner, by decide⟩ ⟨⟨a, rfl⟩, ⟨equals, rfl⟩, one⟩ (.simple (.jump .finish ⟨finish, by decide⟩))
      ⟨other, by decide⟩ (.block ⟨opening, by decide⟩ [.simple (.print ⟨print, by decide⟩ one),
        .simple (.jump .leave ⟨leave, by decide⟩)] ⟨ending, by decide⟩))]
  have settled : Code.AllSettled body := ⟨⟨rfl, trivial, trivial, trivial, trivial⟩, trivial⟩
  have source : " ".intercalate ("CREATE PROC p AS" :: lexemes.map Lexeme.text) =
      .ofList (Tsql.program .bare body).text := by decide
  have text : " ".intercalate ("CREATE PROC p AS" :: lexemes.map Lexeme.text) =
      "CREATE PROC p AS IF @a < 1 if @a = 1 Return ELSE begin PRINT 1 break END" := by decide
  have translation : Code.bodyTranslation (variableName {} false) body = ["IF", "(_vA", "<", "1)", "THEN", "if",
      "(_vA", "=", "1)", "THEN", "Return;", "ELSE", "RAISE", "NOTICE", "'%',", "1;", "EXIT;", "END", "IF;", "END",
      "IF;"] := by decide
  obtain ⟨tree, root, parsed, isRoot, shaped⟩ := Tsql.parse_program .bare settled
  rw [← source] at parsed
  obtain ⟨conversion, lines, converted, quiet, whole, words⟩ :=
    control_flow_translated lexemes body tree root parsed isRoot shaped (by decide)
  rw [text] at converted
  exact ⟨conversion, lines, converted, quiet, whole, words.trans translation⟩

end Plpgsql

end SqlFerry
