import SqlFerry.Proofs.Editor.Line

/-! An editor seen line by line, each text with its own shifts. The editor itself keeps the texts and the
shifts apart: an edit writes the text of a line and then records a shift for it, and the second step
would fail on a line that has no shifts. No edit adds or takes away a line on either side, so where both
sides have the same lines to begin with, both steps fail or neither does. -/
namespace SqlFerry

section Rows

variable {α : Type} {rows : List α} {number other : Nat}

theorem row?_setRow_of_ne (apart : other ≠ number) (new : α) :
    row? (setRow rows number new) other = row? rows other := by
  cases number with
  | zero => rfl
  | succ index =>
    cases other with
    | zero => rfl
    | succ index' => exact List.getElem?_set_ne (by omega)

theorem row?_zipWith {β γ : Type} (f : α → β → γ) (xs : List α) (ys : List β) (number : Nat) :
    row? (List.zipWith f xs ys) number =
      (row? xs number).bind fun x => (row? ys number).map (f x) := by
  cases number with
  | zero => rfl
  | succ index =>
    simp only [row?, List.getElem?_zipWith]
    cases xs[index]? <;> cases ys[index]? <;> rfl

theorem zipWith_setRow {β γ : Type} (f : α → β → γ) (xs : List α) (ys : List β) (number : Nat) (x : α)
    (y : β) : List.zipWith f (setRow xs number x) (setRow ys number y) =
      setRow (List.zipWith f xs ys) number (f x y) := by
  cases number with
  | zero => rfl
  | succ index =>
    simp only [setRow]
    induction xs generalizing ys index with
    | nil => simp
    | cons _ xs ih =>
      cases ys with
      | nil => simp
      | cons _ ys =>
        cases index with
        | zero => rfl
        | succ index => simp [ih]

end Rows

namespace Editor

def lines (e : Editor) : List Line := List.zipWith Line.mk e.buffer.lines e.ledger.lines

def setLine (e : Editor) (number : Nat) (l : Line) : Editor where
  buffer := ⟨setRow e.buffer.lines number l.text⟩
  ledger := ⟨setRow e.ledger.lines number l.shifts⟩
  diagnostics := e.diagnostics

/-- There is one list of shifts for each line. -/
def Aligned (e : Editor) : Prop := e.ledger.lineCount = e.buffer.lineCount

variable {e : Editor} {number : Nat} {l : Line}

theorem row?_lines_iff : row? e.lines number = some l ↔
    row? e.buffer.lines number = some l.text ∧ row? e.ledger.lines number = some l.shifts := by
  rw [lines, row?_zipWith]
  constructor
  · intro found
    obtain ⟨text, isText, found⟩ := Option.bind_eq_some_iff.mp found
    obtain ⟨shifts, isShifts, rfl⟩ := Option.map_eq_some_iff.mp found
    exact ⟨isText, isShifts⟩
  · rintro ⟨isText, isShifts⟩
    simp [isText, isShifts]

@[simp] theorem lines_setLine (e : Editor) (number : Nat) (l : Line) :
    (e.setLine number l).lines = setRow e.lines number l :=
  zipWith_setRow Line.mk _ _ number l.text l.shifts

@[simp] theorem texts_setLine (e : Editor) (number : Nat) (l : Line) :
    (e.setLine number l).texts = setRow e.texts number l.text := rfl

@[simp] theorem diagnostics_setLine (e : Editor) (number : Nat) (l : Line) :
    (e.setLine number l).diagnostics = e.diagnostics := rfl

theorem row?_setLine (present : row? e.lines number = some l) (l' : Line) :
    row? (e.setLine number l').lines number = some l' := by
  rw [lines_setLine]
  exact row?_setRow (by rw [present]; rfl)

theorem setLine_of_row? (present : row? e.lines number = some l) : e.setLine number l = e := by
  obtain ⟨isText, isShifts⟩ := row?_lines_iff.mp present
  rw [setLine, setRow_row? isText, setRow_row? isShifts]

@[simp] theorem setLine_setLine (e : Editor) (number : Nat) (first second : Line) :
    (e.setLine number first).setLine number second = e.setLine number second := by
  simp only [setLine, setRow_setRow]

theorem line_of_row? (present : row? e.lines number = some l) : e.line number = .ok l.text := by
  rw [line, Buffer.line, row, (row?_lines_iff.mp present).1]

theorem entries_of_row? (present : row? e.lines number = some l) : e.ledger.entries number = l.shifts := by
  rw [Ledger.entries, (row?_lines_iff.mp present).2]
  rfl

theorem resolve_of_row? (present : row? e.lines number = some l) (column : Nat) :
    e.resolve ⟨number, column⟩ = ⟨number, l.shifts.resolve column⟩ := by
  rw [resolve, Ledger.resolve, entries_of_row? present]

theorem textAt_of_row? (present : row? e.lines number = some l) (column length : Nat) :
    e.textAt number column length = l.textAt column length := by
  simp only [textAt, line_of_row? present, Ledger.resolve, entries_of_row? present]
  rfl

section Aligned

theorem aligned_ofLines (lines : List String) : (ofLines lines).Aligned := by
  simp [Aligned, ofLines, Ledger.lineCount, Ledger.ofLineCount, Buffer.lineCount]

theorem texts_ofLines (lines : List String) : (ofLines lines).texts = lines := rfl

theorem entries_ofLines (lines : List String) (number : Nat) : (ofLines lines).ledger.entries number = [] := by
  cases number with
  | zero => rfl
  | succ index =>
    simp only [ofLines, Ledger.ofLineCount, Ledger.entries, row?, List.getElem?_replicate]
    split <;> rfl

theorem resolve_ofLines (lines : List String) (p : Position) : (ofLines lines).resolve p = p := by
  rw [resolve, Ledger.resolve, entries_ofLines]
  rfl

theorem lines_ofLines (lines : List String) : (ofLines lines).lines = lines.map fun text => { text } := by
  rw [Editor.lines, ofLines, Ledger.ofLineCount]
  induction lines with
  | nil => rfl
  | cons text lines ih => exact congrArg (_ :: ·) ih

theorem Aligned.setLine (aligned : e.Aligned) (number : Nat) (l : Line) : (e.setLine number l).Aligned := by
  simpa [Aligned, Editor.setLine, Ledger.lineCount, Buffer.lineCount] using aligned

theorem Aligned.exists_row (aligned : e.Aligned) {text : String}
    (read : row? e.buffer.lines number = some text) : ∃ l, row? e.lines number = some l ∧ l.text = text := by
  have recorded : (row? e.ledger.lines number).isSome = true := by
    cases number with
    | zero => cases read
    | succ index =>
      have inside := (List.getElem?_eq_some_iff.mp read).1
      have same : e.ledger.lines.length = e.buffer.lines.length := aligned
      simpa [row?, same] using inside
  obtain ⟨shifts, isShifts⟩ := Option.isSome_iff_exists.mp recorded
  exact ⟨⟨text, shifts⟩, row?_lines_iff.mpr ⟨read, isShifts⟩, rfl⟩

theorem Aligned.row?_cases (aligned : e.Aligned) (number : Nat) :
    (∃ l, row? e.lines number = some l) ∨ row? e.buffer.lines number = none := by
  cases read : row? e.buffer.lines number with
  | none => exact .inr rfl
  | some text =>
    obtain ⟨l, present, -⟩ := aligned.exists_row read
    exact .inl ⟨l, present⟩

theorem Aligned.map_text (aligned : e.Aligned) : e.lines.map (·.text) = e.texts := by
  rw [lines, ← List.map_uncurry_zip_eq_zipWith, List.map_map]
  exact List.map_fst_zip (Nat.le_of_eq aligned.symm)

theorem Aligned.row_lines (aligned : e.Aligned) (missing : row? e.buffer.lines number = none) :
    row e.lines number = .error (.lineOutOfRange number e.buffer.lineCount) := by
  have none : row? e.lines number = none := by rw [lines, row?_zipWith, missing]; rfl
  have count : e.lines.length = e.buffer.lineCount := by
    rw [← List.length_map (·.text), aligned.map_text]
    rfl
  rw [row, none, count]

/-- The lines of the editor with their shifts, and nothing else. -/
structure Holds (e : Editor) (lines : List Line) : Prop where
  aligned : e.Aligned
  lines_eq : e.lines = lines

theorem holds_ofLines (lines : List String) : (ofLines lines).Holds (lines.map fun text => { text }) :=
  ⟨aligned_ofLines lines, lines_ofLines lines⟩

variable {lines : List Line}

theorem Holds.texts (holds : e.Holds lines) : e.texts = lines.map (·.text) := by
  rw [← holds.aligned.map_text, holds.lines_eq]

theorem Holds.setLine (holds : e.Holds lines) (number : Nat) (l : Line) :
    (e.setLine number l).Holds (setRow lines number l) :=
  ⟨holds.aligned.setLine number l, by rw [lines_setLine, holds.lines_eq]⟩

end Aligned

end Editor

namespace Edit

variable {e : Editor} {number : Nat} {l : Line}

theorem run_ofExcept {α : Type} (result : Except EditError α) (e : Editor) :
    (MonadExcept.ofExcept result : Edit α).run e = match result with
      | .ok a => .ok a e
      | .error error => .error error e := by
  cases result <;> rfl

theorem lineAt_run (present : row? e.lines number = some l) : (lineAt number).run e = .ok l.text e := by
  rw [lineAt, EStateM.run_bind, EStateM.run_get]
  simp only [run_ofExcept, Editor.line_of_row? present]

theorem rewriteLine_record_run (present : row? e.lines number = some l) (f : String → String) (reference : Nat)
    (delta : Int) : (do rewriteLine number f; record number reference delta : Edit Unit).run e =
      .ok () (e.setLine number ⟨f l.text, l.shifts.record reference delta⟩) := by
  obtain ⟨isText, isShifts⟩ := Editor.row?_lines_iff.mp present
  have rewritten : (rewriteLine number f).run e =
      .ok () { e with buffer := ⟨setRow e.buffer.lines number (f l.text)⟩ } := by
    simp only [rewriteLine, EStateM.run_bind, EStateM.run_get, Buffer.onLine, Buffer.line, row, isText]
    rfl
  rw [EStateM.run_bind, rewritten]
  simp only [record, EStateM.run_bind, EStateM.run_get, Ledger.record, row, isShifts]
  rfl

theorem splice_run (present : row? e.lines number = some l) (start stop : Nat) (text : String) :
    (splice number start stop text).run e = .ok () (e.setLine number (l.splice start stop text)) :=
  rewriteLine_record_run present _ _ _

theorem eat_run (present : row? e.lines number = some l) (column : Nat) :
    (eat number column).run e = .ok (l.eat column).2 (e.setLine number (l.eat column).1) := by
  rw [eat, EStateM.run_bind, lineAt_run present]
  simp only [Line.eat]
  split
  · rw [Editor.setLine_of_row? present]
    rfl
  · simp only [← bind_assoc, EStateM.run_bind, rewriteLine_record_run present]
    rfl

/-- An edit at a line that exists succeeds and changes that line only. -/
theorem replace_run (present : row? e.lines number = some l) (column length : Nat) (text : String)
    (eats : Bool) : (replace number column length text eats).run e =
      .ok () (e.setLine number (l.replace column length text eats)) := by
  have places (column : Nat) : Text.floorColumn l.text (e.ledger.resolve number column) = l.place column := by
    rw [Ledger.resolve, Editor.entries_of_row? present, Line.place]
  rw [replace, EStateM.run_bind, lineAt_run present]
  simp only [EStateM.run_bind, EStateM.run_get, places, splice_run present]
  cases eats with
  | false => rfl
  | true =>
    simp only [if_true, EStateM.run_bind, eat_run (Editor.row?_setLine present _), Editor.setLine_setLine]
    rfl

section Missing

variable (missing : row? e.buffer.lines number = none)
include missing

theorem lineAt_run_of_missing :
    (lineAt number).run e = .error (.lineOutOfRange number e.buffer.lineCount) e := by
  rw [lineAt, EStateM.run_bind, EStateM.run_get]
  simp only [run_ofExcept, Editor.line, Buffer.line, row, missing]
  rfl

theorem splice_run_of_missing (start stop : Nat) (text : String) :
    (splice number start stop text).run e = .error (.lineOutOfRange number e.buffer.lineCount) e := by
  rw [splice, EStateM.run_bind, rewriteLine, EStateM.run_bind, EStateM.run_get]
  simp only [EStateM.run_bind, run_ofExcept, Buffer.onLine, Buffer.line, row, missing]
  rfl

theorem eat_run_of_missing (column : Nat) :
    (eat number column).run e = .error (.lineOutOfRange number e.buffer.lineCount) e := by
  rw [eat, EStateM.run_bind, lineAt_run_of_missing missing]

theorem replace_run_of_missing (column length : Nat) (text : String) (eats : Bool) :
    (replace number column length text eats).run e =
      .error (.lineOutOfRange number e.buffer.lineCount) e := by
  rw [replace, EStateM.run_bind, lineAt_run_of_missing missing]

end Missing

end Edit

end SqlFerry
