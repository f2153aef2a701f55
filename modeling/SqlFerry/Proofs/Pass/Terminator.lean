import SqlFerry.Proofs.Stage
import SqlFerry.Proofs.Tsql.Code

/-! Semicolons behind the statements of a procedure of plain control flow. Elsewhere the pass need not be
done after one run: a statement can take its semicolon for a word of its own. -/
namespace SqlFerry.Pass

open Tsql (Kind Form Forms Code Guard keyword space)

variable {page : Page}

theorem terminate_passes {kind : Kind} (other : kind ≠ .statement) : terminate.Passes kind := by
  intro recur site isKind
  rw [terminate, isKind]
  split <;> simp_all

theorem becomes_keyword (word : String) : (keyword word).Becomes terminate page word.toList :=
  Form.becomes_leaf word (terminate_passes (by decide))

theorem becomes_unchanged {form : Form} (inner : ∀ kind ∈ form.kinds, kind ≠ .statement) :
    form.Becomes terminate page form.text :=
  form.becomes_same fun kind member => terminate_passes (inner kind member)

theorem becomes_terminated {body : Form} {new : List Char} (visible : new ≠ [])
    (inside : body.Becomes terminate page new) :
    (Tsql.statement body).Becomes terminate page
      (if body.kind.takesTerminator then new ++ [';'] else new) := by
  intro recur column site reaches fills
  obtain ⟨below, rfl, deeper⟩ := reaches.step
  have children := Form.turns_children inside Forms.become_nil deeper fills
  have isSite : site.kind = .statement := fills.kind
  obtain ⟨id, node, _, isNode, atBody, rfl⟩ := fills
  have isKind : node.kind = body.kind := atBody.kind
  have only : site.node.child? 0 = some node := by rw [isNode]; rfl
  rw [terminate, isSite]
  simp only [only, lacksTerminator, isKind]
  cases ends : body.kind.takesTerminator with
  | false => simpa [Tsql.statement] using children
  | true =>
    have noSemicolon : body.kind ≠ .semicolon := by rintro same; simp [same, Kind.takesTerminator] at ends
    have lacks : (site.node.firstChild? .semicolon).isNone = true := by
      simp [Node.firstChild?, isNode, Node.children, isKind, noSemicolon]
    have ended := children.insert (by simpa using visible) ";"
    simp only [lacks, Bool.and_true, if_true, atBody.spans.insertAfter]
    simpa [Tsql.statement, Form.text, Forms.text] using ended

theorem becomes_simple (s : Tsql.Simple) :
    (Tsql.statement s.form).Becomes terminate page (Form.rule .statement s.form Tsql.Style.ended.ending).text := by
  have plain : ∀ kind ∈ Tsql.plainKinds, kind ≠ .statement := by decide
  have ends : s.form.kind.takesTerminator = true := by rcases s with _ | _ | ⟨_ | _ | _, _⟩ <;> rfl
  have visible : s.form.text ≠ [] := by
    rcases s with ⟨word, _⟩ | ⟨word, _, _⟩ | ⟨_, word⟩ <;> simp [Tsql.Simple.form, Form.text, word.1.visible]
  have whole := becomes_terminated visible (@becomes_unchanged page _ fun kind member =>
    plain kind (s.kinds_form kind member))
  simpa [ends, Tsql.Style.ending, Form.text, Forms.text] using whole

/-- A statement with others inside has no semicolon of its own. -/
theorem becomes_compound {kind : Kind} {word : String} {rest : Forms} {others : List Char}
    (visible : word.toList ≠ []) (isKind : kind ∈ [.ifStatement, .whileStatement, .block, .createProcedure])
    (later : rest.Become terminate page others) :
    (Tsql.statement (.rule kind (keyword word) rest)).Becomes terminate page (word.toList ++ others) := by
  have compound : ∀ kind ∈ [Kind.ifStatement, .whileStatement, .block, .createProcedure],
    kind ≠ .statement ∧ kind.takesTerminator = false := by decide
  have whole := becomes_terminated (by simp [visible]) (Form.becomes_rule
    (terminate_passes (compound kind isKind).1) (becomes_keyword word) later)
  simpa [Form.kind, (compound kind isKind).2] using whole

theorem becomes_guard (g : Guard) : (g.form .guarded).Becomes terminate page (g.form .ended).text := by
  have plain : ∀ kind ∈ Tsql.plainKinds, kind ≠ .statement := by decide
  refine becomes_unchanged ?_
  simp only [Guard.form, Tsql.parens, Form.kinds, Forms.kinds, List.forall_mem_cons, List.forall_mem_append]
  exact ⟨by decide, ⟨by decide, by simp⟩, fun kind member => plain kind (g.kinds_comparison kind member),
    ⟨by decide, by simp⟩, by simp⟩

mutual

theorem Code.becomes_ended : ∀ s : Code,
    (s.form .guarded).Becomes terminate page (s.form .ended).text
  | .simple s => becomes_simple s
  | .when word g yes => by
    have later := Forms.become_cons space (becomes_guard g)
      (Forms.become_cons space (becomes_ended yes) Forms.become_nil)
    have whole := becomes_compound word.1.visible (by decide : Kind.ifStatement ∈ _) later
    simpa [Code.form, Tsql.statement, Form.text, Forms.text] using whole
  | .choose word g yes other no => by
    have later := Forms.become_cons space (becomes_guard g) (Forms.become_cons space (becomes_ended yes)
      (Forms.become_cons space (becomes_keyword other.1.text)
        (Forms.become_cons space (becomes_ended no) Forms.become_nil)))
    have whole := becomes_compound word.1.visible (by decide : Kind.ifStatement ∈ _) later
    simpa [Code.form, Tsql.statement, Form.text, Forms.text] using whole
  | .loop word g body => by
    have later := Forms.become_cons space (becomes_guard g)
      (Forms.become_cons space (becomes_ended body) Forms.become_nil)
    have whole := becomes_compound word.1.visible (by decide : Kind.whileStatement ∈ _) later
    simpa [Code.form, Tsql.statement, Form.text, Forms.text] using whole
  | .block first body last => by
    have closing := Forms.become_cons space (@becomes_keyword page last.1.text) Forms.become_nil
    have later := @become_ended _ (.cons space last.form .nil)
      (by simpa [Form.text, Forms.text] using closing) body
    have whole := becomes_compound first.1.visible (by decide : Kind.block ∈ _) later
    simpa [Code.form, Tsql.statement, Form.text, Forms.text] using whole

theorem Code.become_ended {rest rest' : Forms}
    (later : rest.Become terminate page rest'.text) : ∀ ss : List Code,
    (Code.forms .guarded rest ss).Become terminate page (Code.forms .ended rest' ss).text
  | [] => later
  | s :: ss => by
    have whole := Forms.become_cons space (becomes_ended s) (become_ended later ss)
    simpa [Code.forms, Forms.text] using whole

end

theorem become_body_ended (body : List Code) :
    (Code.body .guarded body).Become terminate page (Code.body .ended body).text := by
  cases body with
  | nil => exact Forms.become_nil
  | cons s ss =>
    have inside := Form.becomes_rule (terminate_passes (by decide : Kind.procedureBody ≠ _))
      (Code.becomes_ended s) (@Code.become_ended page .nil .nil Forms.become_nil ss)
    have whole := Forms.become_cons space inside Forms.become_nil
    simpa [Code.body, Form.text, Forms.text] using whole

theorem becomes_program_ended (body : List Code) :
    (Tsql.program .guarded body).Becomes terminate page (Tsql.program .ended body).text := by
  have parameters := @becomes_unchanged page (Tsql.parens .procedureParameters id) (by decide)
  have name := @becomes_unchanged page (.rule .qualifiedName (.leaf .identifier "p") .nil) (by decide)
  have later := Forms.become_cons space (becomes_keyword "PROC") (Forms.become_cons space name
    (Forms.become_cons [] parameters (Forms.become_cons space (becomes_keyword "AS")
      (become_body_ended body))))
  have whole := Form.becomes_rule (terminate_passes (by decide : Kind.compileUnit ≠ _))
    (becomes_compound (by decide : "CREATE".toList ≠ []) (by decide : Kind.createProcedure ∈ _) later)
    Forms.become_nil
  simpa [Tsql.program, Tsql.procedure, Tsql.statement, Tsql.Style.parameters, Form.text, Forms.text]
    using whole

end SqlFerry.Pass

namespace SqlFerry

/-- A `RAISERROR` that ends with `WITH` takes the semicolon put behind it for the option that is missing, so
that it still lacks one. -/
theorem option_takes_semicolon :
    (convertWith [.statementTerminator] {} "RAISERROR('x', 16, 1) WITH").toOption.map (·.text) =
      some "RAISERROR('x', 16, 1) WITH;" ∧
    (convertWith [.statementTerminator, .statementTerminator] {}
      "RAISERROR('x', 16, 1) WITH").toOption.map (·.text) = some "RAISERROR('x', 16, 1) WITH;;" := by
  have first : Pass.statementTerminator.Leads ["RAISERROR('x', 16, 1) WITH"] ["RAISERROR('x', 16, 1) WITH;"] :=
    Pass.leads_of_stage (by decide +kernel)
  have second : Pass.statementTerminator.Leads ["RAISERROR('x', 16, 1) WITH;"] ["RAISERROR('x', 16, 1) WITH;;"] :=
    Pass.leads_of_stage (by decide +kernel)
  obtain ⟨once, atOnce, first⟩ :=
    (@Session.at_ofText _ "RAISERROR('x', 16, 1) WITH" (by decide)).step first
  obtain ⟨twice, atTwice, second⟩ := atOnce.step second
  exact ⟨text_of_run (first []) atOnce (by decide) (by decide),
    text_of_run ((first _).trans (second [])) atTwice (by decide) (by decide)⟩

end SqlFerry
