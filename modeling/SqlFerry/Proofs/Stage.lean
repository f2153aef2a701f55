import SqlFerry.Conversion
import SqlFerry.Proofs.Pass.Walk
import SqlFerry.Proofs.Text.Words

/-! What a pass does to the text, seen from the stage that runs it: it reads lines and hands on other
lines. -/
namespace SqlFerry

open Tsql (Kind Form)
open Text (byteLength)

theorem Stage.run_of_rebuild {pass : Pass} {snapshot : Snapshot} {tree : Tree Kind} {e : Editor}
    (read : snapshot.tree = .ok tree)
    (passed : (pass.run tree).run snapshot.editor = .ok .rebuild e) :
    Stage.run pass snapshot = .ok {
      name := pass.name
      tree
      ending := .rebuild
      diagnostics := e.diagnostics.map fun d => { d with stage := pass.name }
      next := .ofLines e.contents } := by
  rw [Stage.run, read]
  simp only [passed]
  rfl

/-- From these lines the pass goes to other lines and has nothing to report. -/
def Pass.Leads (pass : Pass) (lines next : List String) : Prop :=
  ∃ stage, Stage.run pass (.ofLines lines) = .ok stage ∧ stage.diagnostics = [] ∧
    stage.next = .ofLines next

section Leads

variable {pass : Pass} {lines next : List String} {tree : Tree Kind} {e : Editor}

theorem Snapshot.tree_ofLines (lines : List String) :
    (Snapshot.ofLines lines).tree = Tsql.parse (Text.unlines lines) := by
  simp [Snapshot.tree, ofLines, Editor.ofLines, Buffer.joined]

theorem Pass.leads_of_rebuild (parsed : Tsql.parse (Text.unlines lines) = .ok tree)
    (passed : (pass.run tree).run (.ofLines lines) = .ok .rebuild e) (quiet : e.diagnostics = []) :
    pass.Leads lines e.contents := by
  have read : (Snapshot.ofLines lines).tree = .ok tree := by rw [Snapshot.tree_ofLines, parsed]
  exact ⟨_, Stage.run_of_rebuild read passed, by simp [quiet], rfl⟩

theorem Pass.leads_of_replace (parsed : Tsql.parse (Text.unlines lines) = .ok tree)
    (passed : (pass.run tree).run (.ofLines lines) = .ok (.replace next) e) (quiet : e.diagnostics = []) :
    pass.Leads lines next := by
  have read : (Snapshot.ofLines lines).tree = .ok tree := by rw [Snapshot.tree_ofLines, parsed]
  have ran : Stage.run pass (.ofLines lines) = .ok {
      name := pass.name
      tree
      ending := .replace next
      diagnostics := e.diagnostics.map fun d => { d with stage := pass.name }
      next := .ofLines next } := by
    rw [Stage.run, read]
    simp only [Snapshot.ofLines, passed]
    rfl
  exact ⟨_, ran, by simp [quiet], rfl⟩

theorem Pass.leads_of_stage
    (ran : (Stage.run pass (.ofLines lines)).toOption.map
        (fun stage => (stage.diagnostics, stage.next.editor, stage.next.tree?.isNone)) =
      some ([], .ofLines next, true)) : pass.Leads lines next := by
  cases result : Stage.run pass (.ofLines lines) with
  | error error => simp [result, Except.toOption] at ran
  | ok stage =>
    obtain ⟨name, tree, ending, diagnostics, ⟨editor, read⟩⟩ := stage
    simp only [result, Except.toOption, Option.map_some, Option.some.injEq, Prod.mk.injEq,
      Option.isNone_iff_eq_none] at ran
    obtain ⟨rfl, rfl, rfl⟩ := ran
    exact ⟨_, result, rfl, rfl⟩

/-- A session that has come to some lines and has nothing to report. -/
structure Session.At (session : Session) (lines : List String) : Prop where
  snapshot : session.snapshot = .ofLines lines
  quiet : session.diagnostics = []

theorem Session.At.step {session : Session} (start : session.At lines) (leads : pass.Leads lines next) :
    ∃ after : Session, after.At next ∧ ∀ passes, session.run (pass :: passes) = after.run passes := by
  obtain ⟨stage, ran, quiet, isNext⟩ := leads
  refine ⟨⟨stage.next, session.reports ++ [stage.report], session.diagnostics ++ stage.diagnostics⟩,
    ⟨isNext, by simp [start.quiet, quiet]⟩, fun passes => ?_⟩
  rw [Session.run, List.foldlM_cons, Session.step, start.snapshot, ran]
  rfl

theorem Session.At.contents {session : Session} (done : session.At lines)
    (flat : ∀ line ∈ lines, '\n' ∉ line.toList) (visible : lines ≠ []) : session.contents = lines := by
  rw [Session.contents, done.snapshot]
  exact Text.lines_unlines flat visible

theorem Session.at_ofText {text : String} (start : (Buffer.ofText text).lines = lines) :
    (Session.ofText text).At lines :=
  ⟨by simp only [Session.ofText, Snapshot.ofText, Snapshot.ofLines, Editor.ofText, start], rfl⟩

theorem Session.At.stuck {session : Session} (start : session.At lines)
    (failed : (Stage.run pass (.ofLines lines)).toOption = none) (passes : List Pass) :
    (session.run (pass :: passes)).toOption = none := by
  cases result : Stage.run pass (.ofLines lines) with
  | ok stage => simp [result, Except.toOption] at failed
  | error error =>
    rw [Session.run, List.foldlM_cons, Session.step, start.snapshot, result]
    rfl

theorem convertWith_of_run {names : List PassName} {options : Options} {text : String} {session : Session}
    (ran : (Session.ofText text).run (names.map (·.pass options)) = .ok session) :
    convertWith names options text = .ok ⟨session.contents, session.diagnostics, session.reports⟩ := by
  rw [convertWith, ran]
  rfl

theorem text_of_run {names : List PassName} {options : Options} {text : String} {session : Session}
    (ran : (Session.ofText text).run (names.map (·.pass options)) = .ok session) (done : session.At lines)
    (flat : ∀ line ∈ lines, '\n' ∉ line.toList) (visible : lines ≠ []) :
    (convertWith names options text).toOption.map (·.text) = some (Text.unlines lines) := by
  rw [convertWith_of_run ran, Except.toOption, Option.map_some, Conversion.text, done.contents flat visible]

theorem convertWith_eq_none {names : List PassName} {options : Options} {text : String}
    (failed : ((Session.ofText text).run (names.map (·.pass options))).toOption = none) :
    (convertWith names options text).toOption = none := by
  rw [convertWith]
  cases ran : (Session.ofText text).run (names.map (·.pass options)) with
  | ok session => simp [ran, Except.toOption] at failed
  | error error => rfl

/-- A conversion goes from stage to stage. -/
theorem convert_of_leads {options : Options} {text : String} {source repaired split ended last : List String}
    (start : (Buffer.ofText text).lines = source) (first : Pass.parenthesisRepair.Leads source repaired)
    (second : Pass.singleDeclarations.Leads repaired split) (third : Pass.statementTerminator.Leads split ended)
    (fourth : (Pass.plpgsql options).Leads ended last) (flat : ∀ line ∈ last, '\n' ∉ line.toList)
    (visible : last ≠ []) :
    ∃ conversion, convert options text = .ok conversion ∧ conversion.diagnostics = [] ∧
      conversion.lines = last := by
  obtain ⟨_, atRepaired, first⟩ := (Session.at_ofText start).step first
  obtain ⟨_, atSplit, second⟩ := atRepaired.step second
  obtain ⟨_, atEnded, third⟩ := atSplit.step third
  obtain ⟨session, atLast, fourth⟩ := atEnded.step fourth
  have ran : (Session.ofText text).run (PassName.standard.map (·.pass options)) = .ok session :=
    (first _).trans ((second _).trans ((third _).trans (fourth [])))
  exact ⟨_, convertWith_of_run ran, atLast.quiet, atLast.contents flat visible⟩

end Leads

theorem Pass.leads_ofVisit {name : String} {visit : Visit} {form : Form} {new : List Char}
    {tree : Tree Kind} {root : Node Kind} (parsed : Tsql.parse (.ofList form.text) = .ok tree)
    (isRoot : tree.root = some root) (fills : form.Fills 1 0 root)
    (becomes : form.Becomes visit ⟨[], [], (· = [])⟩ new) (flat : '\n' ∉ new)
    (fits : byteLength form.text + byteLength new ≤ columnLimit) :
    (Pass.ofVisit name fun _ => visit).Leads [.ofList form.text] [.ofList new] := by
  let page : Page := ⟨[], [], (· = [])⟩
  have start : page.Shows [.kept form.text] (.ofLines [.ofList form.text]) := by
    refine ⟨_, Editor.holds_ofLines _, ?_, rfl⟩
    simpa using @Patchwork.ofText (.ofList form.text) (by rw [Text.size_ofList]; omega)
  have turns := becomes (visit.run root.height) 0 (.ofNode root) ⟨root.height, Nat.le_refl _, rfl⟩ fills
  obtain ⟨_, e, ran, l, holds, patched, quiet⟩ := turns [] [] rfl (by simpa using fits) _ start
  have texts : e.texts = [.ofList new] := by
    have shown := patched.text
    simp only [List.nil_append, Patch.textOf_cons, Patch.text_made, Patch.textOf_nil, List.append_nil] at shown
    rw [holds.texts, ← shown]
    simp
  have contents : e.contents = [.ofList new] := by
    rw [Editor.contents, Buffer.resplit, Buffer.joined]
    change Text.lines (Text.unlines e.texts) = _
    rw [texts]
    exact Text.lines_unlines (by simpa using flat) (by simp)
  have passed : ((Pass.ofVisit name fun _ => visit).run tree).run (.ofLines [.ofList form.text]) =
      .ok .rebuild e := by
    have walk : visit.runTree tree = visit.run root.height (.ofNode root) := by
      rw [Visit.runTree.eq_def, isRoot]
    simp only [Pass.ofVisit, walk]
    rw [EStateM.run_bind, ran]
    rfl
  have one : Text.unlines [.ofList form.text] = .ofList form.text := by simp [Text.unlines, Text.join, Text.gather]
  rw [← contents]
  exact Pass.leads_of_rebuild (by rw [one, parsed]) passed quiet

namespace Plpgsql

/-- The last stage, from what its walk over the tree leaves behind. -/
theorem leads_of_walk {options : Options} {lines : List String} {editor : Editor}
    {procedures : List FunctionLayout}
    (walked : (Tsql.parse (Text.unlines lines)).toOption.bind (fun tree =>
        match ((convert (.ofTree options tree)).runTree tree).run (.ofLines lines) with
        | .ok _ e => some (e, layouts (.ofTree options tree))
        | .error _ _ => none) = some (editor, procedures))
    (quiet : editor.diagnostics = []) :
    (Pass.plpgsql options).Leads lines (reassemble editor options procedures) := by
  cases parsed : Tsql.parse (Text.unlines lines) with
  | error error => simp [parsed, Except.toOption] at walked
  | ok tree =>
    simp only [parsed, Except.toOption, Option.bind_some] at walked
    cases ran : ((convert (.ofTree options tree)).runTree tree).run (.ofLines lines) with
    | error error e => simp [ran] at walked
    | ok _ e =>
      simp only [ran, Option.some.injEq, Prod.mk.injEq] at walked
      obtain ⟨rfl, rfl⟩ := walked
      refine Pass.leads_of_replace parsed ?_ quiet
      simp only [Pass.plpgsql, convertTree]
      rw [EStateM.run_bind, ran]
      rfl

/-- An output parameter keeps its default. -/
theorem output_keeps_default :
    (SqlFerry.convert {} "CREATE PROC p @x int = 1 OUTPUT AS SELECT 1").toOption.map (·.text) =
      some "CREATE OR REPLACE FUNCTION p(OUT _pX int = 1) RETURNS int AS\n$$\nBEGIN\n\tSELECT 1;\nEND;\n$$ LANGUAGE plpgsql;" := by
  let function : List String := ["CREATE OR REPLACE FUNCTION p(OUT _pX int = 1) RETURNS int AS", "$$", "BEGIN",
    "\tSELECT 1;", "END;", "$$ LANGUAGE plpgsql;"]
  let editor : Editor := ⟨⟨["CREATE OR REPLACE FUNCTION p(OUT _pX int = 1) RETURNS int AS SELECT 1;"]⟩,
    ⟨[[⟨6, 11⟩, ⟨22, 4⟩, ⟨31, 1⟩, ⟨47, -7⟩, ⟨29, 4⟩, ⟨48, 12⟩]]⟩, []⟩
  -- Stage by stage: the kernel would otherwise run all four on one term.
  have repaired : Pass.parenthesisRepair.Leads ["CREATE PROC p @x int = 1 OUTPUT AS SELECT 1"]
      ["CREATE PROC p(@x int = 1 OUTPUT) AS SELECT 1"] := Pass.leads_of_stage (by decide +kernel)
  have split : Pass.singleDeclarations.Leads ["CREATE PROC p(@x int = 1 OUTPUT) AS SELECT 1"]
      ["CREATE PROC p(@x int = 1 OUTPUT) AS SELECT 1"] := Pass.leads_of_stage (by decide +kernel)
  have ended : Pass.statementTerminator.Leads ["CREATE PROC p(@x int = 1 OUTPUT) AS SELECT 1"]
      ["CREATE PROC p(@x int = 1 OUTPUT) AS SELECT 1;"] := Pass.leads_of_stage (by decide +kernel)
  have walked : (Pass.plpgsql {}).Leads ["CREATE PROC p(@x int = 1 OUTPUT) AS SELECT 1;"]
      (reassemble editor {} [⟨⟨1, 35⟩, ⟨1, 45⟩, []⟩]) := leads_of_walk (by decide +kernel) rfl
  have laid : reassemble editor {} [⟨⟨1, 35⟩, ⟨1, 45⟩, []⟩] = function := by decide +kernel
  rw [laid] at walked
  have start : (Buffer.ofText "CREATE PROC p @x int = 1 OUTPUT AS SELECT 1").lines =
      ["CREATE PROC p @x int = 1 OUTPUT AS SELECT 1"] := by decide
  obtain ⟨conversion, converted, -, lines⟩ := convert_of_leads start repaired split ended walked
    (by decide) (by decide)
  rw [converted, Except.toOption, Option.map_some, Conversion.text, lines]
  decide

/-- The row limit of a statement other than a query stays as it is and is not reported. -/
theorem row_limit_left_silently :
    (SqlFerry.convert {} "DELETE TOP (5) t").toOption.map (fun c => (c.text, c.diagnostics)) =
      some ("DELETE TOP (5) t;", []) := by
  have repaired : Pass.parenthesisRepair.Leads ["DELETE TOP (5) t"] ["DELETE TOP (5) t"] :=
    Pass.leads_of_stage (by decide +kernel)
  have split : Pass.singleDeclarations.Leads ["DELETE TOP (5) t"] ["DELETE TOP (5) t"] :=
    Pass.leads_of_stage (by decide +kernel)
  have ended : Pass.statementTerminator.Leads ["DELETE TOP (5) t"] ["DELETE TOP (5) t;"] :=
    Pass.leads_of_stage (by decide +kernel)
  have converted : (Pass.plpgsql {}).Leads ["DELETE TOP (5) t;"] ["DELETE TOP (5) t;"] :=
    Pass.leads_of_stage (by decide +kernel)
  obtain ⟨conversion, ran, quiet, lines⟩ := @convert_of_leads {} "DELETE TOP (5) t" _ _ _ _ _ (by decide)
    repaired split ended converted (by decide) (by decide)
  rw [ran, Except.toOption, Option.map_some, Conversion.text, lines, quiet]
  rfl

/-- The variable of a procedure that stands alone is declared. -/
theorem lone_name_declared :
    (SqlFerry.convert {} "CREATE PROC b AS DECLARE @x int").toOption.map (·.lines) =
      some ["CREATE OR REPLACE FUNCTION b() RETURNS void AS", "$$", "DECLARE", "\t_vX int;", "BEGIN", "END;",
        "$$ LANGUAGE plpgsql;"] := by
  have repaired : Pass.parenthesisRepair.Leads ["CREATE PROC b AS DECLARE @x int"]
      ["CREATE PROC b() AS DECLARE @x int"] := Pass.leads_of_stage (by decide +kernel)
  have split : Pass.singleDeclarations.Leads ["CREATE PROC b() AS DECLARE @x int"]
      ["CREATE PROC b() AS DECLARE @x int"] := Pass.leads_of_stage (by decide +kernel)
  have ended : Pass.statementTerminator.Leads ["CREATE PROC b() AS DECLARE @x int"]
      ["CREATE PROC b() AS DECLARE @x int;"] := Pass.leads_of_stage (by decide +kernel)
  have converted : (Pass.plpgsql {}).Leads ["CREATE PROC b() AS DECLARE @x int;"]
      ["CREATE OR REPLACE FUNCTION b() RETURNS void AS", "$$", "DECLARE", "\t_vX int;", "BEGIN", "END;",
        "$$ LANGUAGE plpgsql;"] := Pass.leads_of_stage (by decide +kernel)
  obtain ⟨conversion, ran, -, lines⟩ := @convert_of_leads {} "CREATE PROC b AS DECLARE @x int" _ _ _ _ _ (by decide)
    repaired split ended converted (by decide) (by decide)
  rw [ran, Except.toOption, Option.map_some, lines]

/-- Where another procedure of the text has a parameter of its name, it is not. -/
theorem shared_name_undeclared :
    (SqlFerry.convert {} "CREATE PROC a @x int AS\nGO\nCREATE PROC b AS DECLARE @x int").toOption.map (·.lines) =
      some ["CREATE OR REPLACE FUNCTION a(_pX int) RETURNS void AS", "$$", "BEGIN", "END;", "$$ LANGUAGE plpgsql;",
        "", "CREATE OR REPLACE FUNCTION b() RETURNS void AS", "$$", "BEGIN", "END;", "$$ LANGUAGE plpgsql;"] ∧
    (SqlFerry.convert {} "CREATE PROC b AS DECLARE @x int").toOption.map (·.lines) =
      some ["CREATE OR REPLACE FUNCTION b() RETURNS void AS", "$$", "DECLARE", "\t_vX int;", "BEGIN", "END;",
        "$$ LANGUAGE plpgsql;"] := by
  refine ⟨?_, lone_name_declared⟩
  have repaired : Pass.parenthesisRepair.Leads ["CREATE PROC a @x int AS", "GO", "CREATE PROC b AS DECLARE @x int"]
      ["CREATE PROC a(@x int) AS", "GO", "CREATE PROC b() AS DECLARE @x int"] :=
    Pass.leads_of_stage (by decide +kernel)
  have split : Pass.singleDeclarations.Leads ["CREATE PROC a(@x int) AS", "GO", "CREATE PROC b() AS DECLARE @x int"]
      ["CREATE PROC a(@x int) AS", "GO", "CREATE PROC b() AS DECLARE @x int"] :=
    Pass.leads_of_stage (by decide +kernel)
  have ended : Pass.statementTerminator.Leads ["CREATE PROC a(@x int) AS", "GO", "CREATE PROC b() AS DECLARE @x int"]
      ["CREATE PROC a(@x int) AS", "GO", "CREATE PROC b() AS DECLARE @x int;"] :=
    Pass.leads_of_stage (by decide +kernel)
  have converted : (Pass.plpgsql {}).Leads ["CREATE PROC a(@x int) AS", "GO", "CREATE PROC b() AS DECLARE @x int;"]
      ["CREATE OR REPLACE FUNCTION a(_pX int) RETURNS void AS", "$$", "BEGIN", "END;", "$$ LANGUAGE plpgsql;",
        "", "CREATE OR REPLACE FUNCTION b() RETURNS void AS", "$$", "BEGIN", "END;", "$$ LANGUAGE plpgsql;"] :=
    Pass.leads_of_stage (by decide +kernel)
  obtain ⟨conversion, ran, -, lines⟩ := @convert_of_leads {}
    "CREATE PROC a @x int AS\nGO\nCREATE PROC b AS DECLARE @x int" _ _ _ _ _ (by decide)
    repaired split ended converted (by decide) (by decide)
  rw [ran, Except.toOption, Option.map_some, lines]

end Plpgsql

end SqlFerry
