import SqlFerry.Proofs.Stage
import SqlFerry.Proofs.Tsql.Code

/-! Splitting declarations leaves a procedure of plain control flow as it is, since it declares nothing.
Elsewhere the pass need not be done after one run: a declaration can end up in another place. -/
namespace SqlFerry.Pass

open Tsql (Kind Form Forms Code)

variable {page : Page}

theorem splitDeclaration_passes {kind : Kind} (other : kind ≠ .declare) :
    splitDeclaration.Passes kind := by
  intro recur site isKind
  rw [splitDeclaration, isKind]
  split <;> simp_all

theorem becomes_program_split (body : List Code) :
    (Tsql.program .guarded body).Becomes splitDeclaration page (Tsql.program .guarded body).text := by
  have others : ∀ kind ∈ Tsql.programKinds, kind ≠ .declare := by decide
  exact Form.becomes_same _ fun kind member =>
    splitDeclaration_passes (others kind (Tsql.kinds_program .guarded body kind member))

end SqlFerry.Pass

namespace SqlFerry

/-- Where a list of declarations is a branch of its own, all but the first one are put behind the
conditional, and where a comment of several lines ends in front of a declaration, its end is written over. -/
theorem split_declaration_leaves_branch :
    (convertWith [.singleDeclarations] {} "IF (@x = 1) DECLARE @a int, @b int ELSE PRINT 1").toOption.map
        (·.text) = some "IF (@x = 1) DECLARE @a int;\nDECLARE @b int ELSE PRINT 1" ∧
    (convertWith [.singleDeclarations, .singleDeclarations] {}
      "IF (@x = 1) DECLARE @a int, @b int ELSE PRINT 1").toOption = none ∧
    (convertWith [.singleDeclarations] {} "DECLARE @a int, /* x\n y */ @b int").toOption.map (·.text) =
      some "DECLARE @a int;/* x\nDECLARE @b int" ∧
    (convertWith [.singleDeclarations, .singleDeclarations] {}
      "DECLARE @a int, /* x\n y */ @b int").toOption = none := by
  have branch : Pass.singleDeclarations.Leads ["IF (@x = 1) DECLARE @a int, @b int ELSE PRINT 1"]
      ["IF (@x = 1) DECLARE @a int;", "DECLARE @b int ELSE PRINT 1"] := Pass.leads_of_stage (by decide +kernel)
  have comment : Pass.singleDeclarations.Leads ["DECLARE @a int, /* x", " y */ @b int"]
      ["DECLARE @a int;/* x", "DECLARE @b int"] := Pass.leads_of_stage (by decide +kernel)
  obtain ⟨_, atBranch, branch⟩ := (@Session.at_ofText _ "IF (@x = 1) DECLARE @a int, @b int ELSE PRINT 1"
    (by decide)).step branch
  obtain ⟨_, atComment, comment⟩ := (@Session.at_ofText _ "DECLARE @a int, /* x\n y */ @b int"
    (by decide)).step comment
  refine ⟨text_of_run (branch []) atBranch (by decide) (by decide), ?_,
    text_of_run (comment []) atComment (by decide) (by decide), ?_⟩
  · exact convertWith_eq_none ((congrArg _ (branch _)).trans (atBranch.stuck (by decide +kernel) []))
  · exact convertWith_eq_none ((congrArg _ (comment _)).trans (atComment.stuck (by decide +kernel) []))

end SqlFerry
