import SqlFerry.Conversion
import SqlFerry.Proofs.Pass.Names
import SqlFerry.Proofs.Tsql.Placement

/-! What the stages of a conversion start from. A stage edits its text and hands on the lines that the
text is cut into anew, so the next one starts without shifts, from lines that hold no line end. Such
lines are those of the text they make up: they are the lines of its tree, and what stands between
the ends of a node is the same whether the tree or the editor is asked for it. -/
namespace SqlFerry

open Tsql (Kind)
open Text (byteLength StandsAt)

/-- A snapshot of lines that are cut at every line end and have not been edited. -/
def Snapshot.Fresh (s : Snapshot) : Prop := ∃ source, s = .ofLines (Text.lines source)

theorem line_around (before after : List Char) {text : List Char} (flat : '\n' ∉ text) :
    ∃ right, row? (Text.lines (.ofList (before ++ text ++ after)))
      (Position.origin.advance before).line =
        some (.ofList (Text.lastLine before ++ text ++ right)) := by
  obtain ⟨right, back, lines⟩ := Text.lines_around before after flat
  refine ⟨right, ?_⟩
  rw [lines, Position.advance_origin, Nat.add_comm 1, row?, ← Text.length_frontLines,
    ← List.length_map String.ofList, List.getElem?_append_right (Nat.le_refl _), Nat.sub_self]
  rfl

theorem standsAt_advance (before after : List Char) {line : String}
    (present : row? (Text.lines (.ofList (before ++ after)))
      (Position.origin.advance before).line = some line) :
    StandsAt line (Position.origin.advance before).column "" := by
  obtain ⟨right, isLine⟩ := @line_around before after [] (by simp)
  rw [List.append_nil, present, List.append_nil] at isLine
  obtain rfl := Option.some.inj isLine
  exact ⟨Text.lastLine before, right, by simp, by rw [Position.advance_origin]⟩

theorem Editor.isEmpty_ledger_ofLines (lines : List String) : (Editor.ofLines lines).ledger.isEmpty = true := by
  simp [ofLines, Ledger.ofLineCount, Ledger.isEmpty]

theorem Editor.textSpan_ofLines {source : String} {before text after : List Char}
    (whole : source.toList = before ++ text ++ after) (held : Text.size source ≤ columnLimit) :
    (Editor.ofLines (Text.lines source)).textSpan (Position.origin.advance before)
      ((Position.origin.advance before).advance text) = .ofList text := by
  obtain rfl : source = .ofList (before ++ text ++ after) :=
    String.toList_injective (by rw [whole, String.toList_ofList])
  rw [textSpan]
  split
  · next same =>
    have flat : '\n' ∉ text := Position.no_line_end_of_line_advance same.symm
    obtain ⟨right, isLine⟩ := line_around before after flat
    have member := mem_of_row? isLine
    have short := Nat.le_trans (Text.size_line_le member) held
    have present : row? (Editor.ofLines (Text.lines (.ofList (before ++ text ++ after)))).lines
        (Position.origin.advance before).line =
          some { text := .ofList (Text.lastLine before ++ text ++ right) } := by
      rw [Editor.lines_ofLines, row?_map, isLine]
      rfl
    have shown := Patchwork.ofText short
    rw [String.toList_ofList] at shown
    have cut := @Patchwork.textAt _ [.kept (Text.lastLine before)] [.kept text] [.kept right]
      (shown.coarsen (by simpa using Patch.coarsens_cuts [Text.lastLine before, text, right]))
    rw [textAt_of_row? present, Position.advance_of_no_line_end _ flat, Nat.add_sub_cancel_left,
      Position.advance_origin]
    simpa using cut
  · rw [Editor.texts_ofLines, Editor.resolve_ofLines, Editor.resolve_ofLines,
      spanText_eq_textBetween, textBetween_advance]
    · intro line present
      rw [List.append_assoc] at present
      exact standsAt_advance before (text ++ after) present
    · intro line present
      rw [← Position.advance_append] at present ⊢
      exact standsAt_advance (before ++ text) after present

/-- The tree of an unedited text and its editor agree on every node. -/
theorem Snapshot.Fresh.agrees {s : Snapshot} (fresh : s.Fresh) {tree : Tree Kind}
    (read : s.tree = .ok tree) (held : Text.size s.editor.buffer.joined ≤ textLimit) :
    s.editor.ledger.isEmpty = true ∧ tree.lines = s.editor.buffer.lines ∧
      ∀ node ∈ tree.descendants, s.editor.isUntouched tree node = true := by
  obtain ⟨source, rfl⟩ := fresh
  have texts : (Snapshot.ofLines (Text.lines source)).editor.buffer.lines = Text.lines source := rfl
  rw [Buffer.joined, texts, Text.unlines_lines] at held
  rw [Snapshot.tree_ofLines, Text.unlines_lines] at read
  obtain ⟨-, isLines, -⟩ := Tsql.parse_tree read
  refine ⟨Editor.isEmpty_ledger_ofLines _, by rw [isLines, texts], ?_⟩
  intro node member
  obtain ⟨before, text, after, whole, start, stop, -⟩ := Tsql.parse_stretch read member
  have inTree : tree.text node = .ofList text := by
    rw [Tree.text, isLines, start, stop, ← source.ofList_toList, whole, textBetween_advance]
  have inEditor : (Editor.ofLines (Text.lines source)).textOf node = .ofList text := by
    rw [Editor.textOf, start, stop]
    exact Editor.textSpan_ofLines whole (Nat.le_trans held (by decide))
  exact beq_iff_eq.mpr (inTree.trans inEditor.symm)

/-- All passes but the last of a conversion hand on the text that they have edited. -/
theorem PassName.ending_eq {options : Options} {name : PassName} (other : name ≠ .plpgsql)
    {tree : Tree Kind} {e e' : Editor} {ending : Ending}
    (ran : ((name.pass options).run tree).run e = .ok ending e') : ending = .rebuild := by
  have ofVisit {label : String} {visit : Tree Kind → Visit}
      (ran : ((Pass.ofVisit label visit).run tree).run e = .ok ending e') : ending = .rebuild := by
    simp only [Pass.ofVisit] at ran
    rw [EStateM.run_bind] at ran
    split at ran
    · cases ran; rfl
    · cases ran
  cases name with
  | plpgsql => exact absurd rfl other
  | parenthesisRepair => exact ofVisit ran
  | variableNames => exact ofVisit ran
  | tableNames => exact ofVisit ran
  | singleDeclarations => exact ofVisit ran
  | statementTerminator => exact ofVisit ran

theorem Session.step_fresh {options : Options} {name : PassName} (other : name ≠ .plpgsql)
    {s next : Session} (stepped : s.step (name.pass options) = .ok next) : next.snapshot.Fresh := by
  obtain ⟨stage, ran, rest⟩ := Tsql.bind_eq_ok.mp stepped
  cases rest
  rw [Stage.run] at ran
  split at ran
  · cases ran
  · next tree read =>
    split at ran
    · cases ran
    · next ending e passed =>
      cases PassName.ending_eq other passed
      cases ran
      exact ⟨_, rfl⟩

/-- A run without the last pass of a conversion keeps the text fresh. -/
theorem Session.run_fresh {options : Options} {names : List PassName} (others : .plpgsql ∉ names)
    {s final : Session} (fresh : s.snapshot.Fresh)
    (ran : s.run (names.map (·.pass options)) = .ok final) : final.snapshot.Fresh := by
  induction names generalizing s with
  | nil =>
    cases ran
    exact fresh
  | cons name names ih =>
    rw [List.mem_cons, not_or] at others
    rw [run, List.map_cons, List.foldlM_cons] at ran
    obtain ⟨next, stepped, rest⟩ := Tsql.bind_eq_ok.mp ran
    exact ih others.2 (step_fresh (Ne.symm others.1) stepped) rest

theorem Snapshot.fresh_ofText (text : String) : (Snapshot.ofText text).Fresh :=
  ⟨(Buffer.ofText text).joined, by rw [Buffer.lines_joined_ofText]; rfl⟩

/-- Whenever a stage of a conversion has read its text, nothing has been moved yet, the tree has the
lines of the text, and the editor shows for every node what the tree was read from. -/
theorem stages_start_in_agreement (options : Options) (text : String) (before after : List PassName)
    (name : PassName) (atEnd : .plpgsql ∉ (before ++ name :: after).dropLast) (s : Session)
    (ran : (Session.ofText text).run (before.map (·.pass options)) = .ok s) (tree : Tree Kind)
    (read : s.snapshot.tree = .ok tree)
    (held : Text.size s.snapshot.editor.buffer.joined ≤ textLimit) :
    s.snapshot.editor.ledger.isEmpty = true ∧ tree.lines = s.snapshot.editor.buffer.lines ∧
      ∀ node ∈ tree.descendants, s.snapshot.editor.isUntouched tree node = true := by
  have others : .plpgsql ∉ before := by
    rw [List.dropLast_append_of_ne_nil (by simp), List.mem_append, not_or] at atEnd
    exact atEnd.1
  exact (Session.run_fresh others (Snapshot.fresh_ofText text) ran).agrees read held

/-- A stage behind one that has edited the line on which a string of two lines ends. -/
theorem edited_string_starts_in_agreement : ∃ (s : Session) (tree : Tree Kind),
    (Session.ofText "PRINT 'a\nb' PRINT 1").run
        ([PassName.statementTerminator].map (·.pass {})) = .ok s ∧
      s.snapshot.tree = .ok tree ∧ tree.lines = ["PRINT 'a", "b'; PRINT 1;"] ∧
      s.snapshot.editor.ledger.isEmpty = true ∧
      ∀ node ∈ tree.descendants, s.snapshot.editor.isUntouched tree node = true := by
  have facts : (fun s : Session => (s.snapshot.tree.toBool, s.snapshot.editor.buffer.lines)) <$>
      (Session.ofText "PRINT 'a\nb' PRINT 1").run ([PassName.statementTerminator].map (·.pass {})) =
        .ok (true, ["PRINT 'a", "b'; PRINT 1;"]) := by
    decide +kernel
  obtain ⟨s, ran, facts⟩ := Tsql.map_eq_ok.mp facts
  obtain ⟨parses, lines⟩ := Prod.mk.inj facts
  have held : Text.size s.snapshot.editor.buffer.joined ≤ textLimit := by
    rw [Buffer.joined, ← lines]
    decide
  cases read : s.snapshot.tree with
  | error =>
    rw [read] at parses
    cases parses
  | ok tree =>
    obtain ⟨unmoved, isLines, agree⟩ := stages_start_in_agreement {} "PRINT 'a\nb' PRINT 1"
      [.statementTerminator] [] .plpgsql (by decide) s ran tree read held
    exact ⟨s, tree, ran, read, by rw [isLines, lines], unmoved, agree⟩

end SqlFerry
