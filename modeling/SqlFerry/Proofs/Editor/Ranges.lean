import SqlFerry.Proofs.Editor.Locality
import SqlFerry.Proofs.Text.Bytes

/-! The ranges of bytes that calls of the editor cut. Here the calls are made on the bytes of the lines, with
a check of every range before it is cut, and a check that fails ends the call without any answer. No check
ever fails: columns are brought to boundaries before they are used, whatever the shifts of the line say, so a
call on the bytes answers as the call on characters does. -/
namespace SqlFerry

open Edit (gapBetween)
open Text (StandsAt)

namespace Line

/-! The edits of one line on its bytes. Columns are resolved as ever, and all that is cut is checked. -/

def splice? (l : Line) (start stop : Nat) (text : String) : Option Line := do
  let spliced ← Text.splice? l.text start stop text
  return { text := spliced, shifts := l.shifts.record stop ((Text.size text : Int) - ((stop : Int) - start)) }

def eat? (l : Line) (column : Nat) : Option (Line × Nat) := do
  let start := Text.floorColumn l.text column
  let behind ← Text.slice? l.text start (Text.size l.text)
  let run := (behind.toList.takeWhile Text.isIndent).length
  if run = 0 then return (l, 0)
  let before ← Text.slice? l.text 0 start
  let after ← Text.slice? l.text (start + run) (Text.size l.text)
  let kept := gapBetween before.toList.getLast? after.toList.head?
  let removed := run - kept.length
  if removed = 0 then return (l, 0)
  let eaten ← Text.splice? l.text start (start + run) (.ofList kept)
  return ({ text := eaten, shifts := l.shifts.record (start + run) (-removed) }, removed)

def replace? (l : Line) (column length : Nat) (text : String) (eats : Bool) : Option Line := do
  let start := l.place column
  let stop := l.place (columnBehind column length)
  let replaced ← l.splice? start (max start stop) text
  if eats then return (← replaced.eat? (start + Text.size text)).1 else return replaced

def textAt? (l : Line) (column length : Nat) : Option String :=
  let start := l.place column
  let stop := l.place (columnBehind column length)
  Text.between? l.text start stop

theorem splice?_eq (l : Line) {start stop : Nat} (text : String) (left : StandsAt l.text start "")
    (right : StandsAt l.text stop "") (ordered : start ≤ stop) :
    l.splice? start stop text = some (l.splice start stop text) := by
  rw [splice?, Text.splice?_eq left right ordered]
  rfl

theorem eat?_eq (l : Line) (column : Nat) : l.eat? column = some (l.eat column) := by
  obtain ⟨before, behind, shape, isStart⟩ := Text.standsAt_floorColumn l.text column
  simp only [String.toList_empty, List.append_nil] at shape
  generalize isRun : behind.takeWhile Text.isIndent = run
  generalize isAfter : behind.dropWhile Text.isIndent = after
  have whole : l.text.toList = before ++ run ++ after := by
    rw [shape, ← isRun, ← isAfter, List.append_assoc, List.takeWhile_append_dropWhile]
  have blank : ∀ c ∈ run, Text.isIndent c = true := by
    rw [← isRun]
    exact fun c member => List.all_eq_true.mp List.all_takeWhile c member
  have runSize := byteLength_of_all_isIndent blank
  have taken : Text.takeBytes (Text.byteLength before) l.text.toList = before := by
    rw [shape, Text.takeBytes_append]
  have dropped : Text.dropBytes (Text.byteLength before) l.text.toList = behind := by
    rw [shape, Text.dropBytes_append]
  have cutAfter := Text.slice?_back whole
  have spliced := Text.splice?_of_shape whole
  rw [Text.byteLength_append, runSize] at cutAfter
  rw [runSize] at spliced
  simp only [eat?, eat, ← isStart, taken, dropped, Text.slice?_back shape, Text.slice?_front shape, cutAfter,
    spliced, Option.bind_eq_bind, Option.bind_some, String.toList_ofList, isRun, isAfter]
  by_cases none : run.length = 0
  · simp [none]
  · by_cases stays : run.length - (gapBetween before.getLast? after.head?).length = 0
    · simp [none, stays]
    · simp [none, stays]

theorem replace?_eq (l : Line) (column length : Nat) (text : String) (eats : Bool) :
    l.replace? column length text eats = some (l.replace column length text eats) := by
  have ordered := Nat.le_max_left (l.place column) (l.place (columnBehind column length))
  rw [replace?, l.splice?_eq text (l.place_boundary column) (l.stop_boundary column length) ordered]
  cases eats with
  | true =>
    simp only [Option.bind_eq_bind, Option.bind_some, eat?_eq, replace, if_true]
    rfl
  | false => rfl

theorem textAt?_eq (l : Line) (column length : Nat) : l.textAt? column length = some (l.textAt column length) :=
  Text.between?_eq (l.place_boundary _) (l.place_boundary _)

end Line

namespace Editor

def textAt? (e : Editor) (line column length : Nat) : Option String :=
  match row? e.lines line with
  | some l => l.textAt? column length
  | none => some ""

def textSpan? (e : Editor) (start stop : Position) : Option String :=
  if start.line = stop.line then
    e.textAt? start.line start.column (stop.column - start.column)
  else do
    let parts ← (numberedLines e.texts start.line stop.line).mapM fun (line, number) =>
      Text.between? line (if number = start.line then Text.floorColumn line (e.resolve start).column else 0)
        (if number = stop.line then Text.floorColumn line (e.resolve stop).column else Text.size line)
    return Text.unlines parts

theorem textAt?_eq (e : Editor) (aligned : e.Aligned) (line column length : Nat) :
    e.textAt? line column length = some (e.textAt line column length) := by
  rw [textAt?]
  rcases aligned.row?_cases line with ⟨l, present⟩ | missing
  · rw [present, textAt_of_row? present]
    exact l.textAt?_eq column length
  · have none : row? e.lines line = none := by rw [lines, row?_zipWith, missing]; rfl
    rw [none, textAt, Editor.line, Buffer.line, row, missing]

theorem textSpan?_eq (e : Editor) (aligned : e.Aligned) (start stop : Position) :
    e.textSpan? start stop = some (e.textSpan start stop) := by
  rw [textSpan?, textSpan]
  split
  · exact e.textAt?_eq aligned _ _ _
  · have left (line : String) (number column : Nat) :
        StandsAt line (if number = start.line then Text.floorColumn line column else 0) "" := by
      split
      · exact Text.standsAt_floorColumn line column
      · exact Text.standsAt_zero line
    have right (line : String) (number column : Nat) :
        StandsAt line (if number = stop.line then Text.floorColumn line column else Text.size line) "" := by
      split
      · exact Text.standsAt_floorColumn line column
      · exact Text.standsAt_size line
    simp only [Text.between?_eq (left _ _ _) (right _ _ _), ← Option.pure_def, List.mapM_pure]
    rfl

end Editor

/-- What an edit leaves: an answer or an error, and the editor. -/
def Edit.outcome {α : Type} (edit : Edit α) (e : Editor) : Except EditError α × Editor :=
  match edit.run e with
  | .ok a e' => (.ok a, e')
  | .error error e' => (.error error, e')

/-- An edit on bytes. It leaves nothing if a range cannot be cut. -/
abbrev ByteEdit := ExceptT EditError (StateT Editor Option)

namespace ByteEdit

variable {α β : Type}

def onLine (number : Nat) (f : Line → Option (α × Line)) : ByteEdit α := do
  let e ← get
  match row e.lines number with
  | .ok l =>
    let (result, l) ← (f l : Option (α × Line))
    set (e.setLine number l)
    return result
  | .error error => throw error

def tell (f : Editor → Option α) : ByteEdit α := do
  let e ← get
  (f e : Option α)

/-- Puts `indent` in front of lines, one after the other. -/
def indentLines (indent : String) (line : Nat) : Nat → ByteEdit Unit
  | 0 => return
  | n + 1 => do
    onLine line fun l => return ((), ← l.splice? 0 0 indent)
    indentLines indent (line + 1) n

/-- Where there are shifts for every line, the edit can cut every range on the bytes and has the same
outcome. It can fail only for a line that does not exist, and keeps the number of lines. -/
structure Performs (onBytes : ByteEdit α) (edit : Edit α) : Prop where
  same : ∀ e, e.Aligned → onBytes.run.run e = some (edit.outcome e)
  refusal : ∀ e error, e.Aligned → (edit.outcome e).1 = .error error →
    ∃ number, error = .lineOutOfRange number e.buffer.lineCount
  aligned : ∀ e, e.Aligned → (edit.outcome e).2.Aligned
  count : ∀ e, e.Aligned → (edit.outcome e).2.buffer.lineCount = e.buffer.lineCount

theorem performs_pure (a : α) : Performs (pure a) (pure a) where
  same _ _ := rfl
  refusal _ _ _ fails := by cases fails
  aligned _ aligned := aligned
  count _ _ := rfl

theorem Performs.bind {x : ByteEdit α} {edit : Edit α} {y : α → ByteEdit β} {next : α → Edit β}
    (first : Performs x edit) (second : ∀ a, Performs (y a) (next a)) : Performs (x >>= y) (edit >>= next) := by
  have opened (e : Editor) : (edit >>= next).outcome e = match edit.outcome e with
      | (.ok a, e') => (next a).outcome e'
      | (.error error, e') => (.error error, e') := by
    simp only [Edit.outcome, EStateM.run_bind]
    cases edit.run e <;> rfl
  refine ⟨fun e aligned => ?_, fun e error aligned fails => ?_, fun e aligned => ?_, fun e aligned => ?_⟩
  · have aligned' := first.aligned e aligned
    rw [ExceptT.run_bind, StateT.run_bind, first.same e aligned, opened]
    generalize edit.outcome e = outcome at aligned'
    rcases outcome with ⟨result | a, e'⟩
    · rfl
    · exact (second a).same e' aligned'
  · have aligned' := first.aligned e aligned
    have count := first.count e aligned
    have refusal := first.refusal e
    rw [opened] at fails
    generalize edit.outcome e = outcome at fails aligned' count refusal
    rcases outcome with ⟨error' | a, e'⟩
    · cases fails
      exact refusal error aligned rfl
    · obtain ⟨number, isError⟩ := (second a).refusal e' error aligned' fails
      exact ⟨number, by rw [isError, count]⟩
  · have aligned' := first.aligned e aligned
    rw [opened]
    generalize edit.outcome e = outcome at aligned'
    rcases outcome with ⟨error' | a, e'⟩
    · exact aligned'
    · exact (second a).aligned e' aligned'
  · have aligned' := first.aligned e aligned
    have count := first.count e aligned
    rw [opened]
    generalize edit.outcome e = outcome at aligned' count
    rcases outcome with ⟨error' | a, e'⟩
    · exact count
    · exact ((second a).count e' aligned').trans count

theorem run_get (e : Editor) : (get : ByteEdit Editor).run.run e = some (.ok e, e) := rfl

theorem performs_onLine {number : Nat} {edit : Edit α} {f : Line → Option (α × Line)} (g : Line → α × Line)
    (each : ∀ l, f l = some (g l))
    (edits : ∀ e l, row? e.lines number = some l → edit.run e = .ok (g l).1 (e.setLine number (g l).2))
    (fails : ∀ e, row? e.buffer.lines number = none →
      edit.run e = .error (.lineOutOfRange number e.buffer.lineCount) e) :
    Performs (onLine number f) edit := by
  refine ⟨fun e aligned => ?_, fun e error aligned failed => ?_, fun e aligned => ?_, fun e aligned => ?_⟩
  · rw [onLine, ExceptT.run_bind, StateT.run_bind, run_get]
    rcases aligned.row?_cases number with ⟨l, present⟩ | missing
    · simp only [Edit.outcome, edits e l present, Option.bind_eq_bind, Option.bind_some, row, present, each]
      rfl
    · simp only [Edit.outcome, fails e missing, Option.bind_eq_bind, Option.bind_some, aligned.row_lines missing]
      rfl
  · rcases aligned.row?_cases number with ⟨l, present⟩ | missing
    · rw [Edit.outcome, edits e l present] at failed
      cases failed
    · rw [Edit.outcome, fails e missing] at failed
      exact ⟨number, (Except.error.inj failed).symm⟩
  · rcases aligned.row?_cases number with ⟨l, present⟩ | missing
    · rw [Edit.outcome, edits e l present]
      exact aligned.setLine number _
    · rw [Edit.outcome, fails e missing]
      exact aligned
  · rcases aligned.row?_cases number with ⟨l, present⟩ | missing
    · rw [Edit.outcome, edits e l present]
      exact length_setRow _ _ _
    · rw [Edit.outcome, fails e missing]

theorem performs_replace (number column length : Nat) (text : String) (eats : Bool) :
    Performs (onLine number fun l => return ((), ← l.replace? column length text eats))
      (Edit.replace number column length text eats) :=
  performs_onLine (fun l => ((), l.replace column length text eats)) (fun l => by rw [l.replace?_eq]; rfl)
    (fun _ _ present => Edit.replace_run present column length text eats)
    fun _ missing => Edit.replace_run_of_missing missing column length text eats

theorem performs_eat (number column : Nat) :
    Performs (onLine number fun l => return (← l.eat? column).swap) (Edit.eat number column) :=
  performs_onLine (fun l => (l.eat column).swap) (fun l => by rw [l.eat?_eq]; rfl)
    (fun _ _ present => Edit.eat_run present column)
    fun _ missing => Edit.eat_run_of_missing missing column

theorem performs_indent (indent : String) (number : Nat) :
    Performs (onLine number fun l => return ((), ← l.splice? 0 0 indent)) (Edit.splice number 0 0 indent) := by
  have each (l : Line) : l.splice? 0 0 indent = some (l.splice 0 0 indent) :=
    l.splice?_eq indent (Text.standsAt_zero _) (Text.standsAt_zero _) (Nat.le_refl 0)
  exact performs_onLine (fun l => ((), l.splice 0 0 indent)) (fun l => by rw [each]; rfl)
    (fun _ _ present => Edit.splice_run present 0 0 indent)
    fun _ missing => Edit.splice_run_of_missing missing 0 0 indent

theorem performs_indentLines (indent : String) (line count : Nat) :
    Performs (indentLines indent line count) (Edit.indentRegion.indentLines indent line count) := by
  induction count generalizing line with
  | zero => exact performs_pure ()
  | succ count ih => exact (performs_indent indent line).bind fun _ => ih (line + 1)

theorem performs_tell {f : Editor → Option α} {g : Editor → α} (each : ∀ e, e.Aligned → f e = some (g e)) :
    Performs (tell f) (do return g (← get)) where
  same e aligned := by
    rw [tell, ExceptT.run_bind, StateT.run_bind, run_get]
    simp only [Option.bind_eq_bind, Option.bind_some, each e aligned]
    rfl
  refusal _ _ _ fails := by cases fails
  aligned _ aligned := aligned
  count _ _ := rfl

end ByteEdit

/-- A call that reads or edits at given columns. -/
inductive ColumnCall where
  | replace (line column length : Nat) (text : String) (eats : Bool)
  | insert (line column : Nat) (text : String) (eats : Bool)
  | eat (line column : Nat)
  | indentRegion (first last : Nat) (indent : String)
  | textAt (line column length : Nat)
  | textSpan (start stop : Position)

namespace ColumnCall

inductive Answer where
  | done
  | removed (bytes : Nat)
  | text (text : String)

def run : ColumnCall → Edit Answer
  | replace line column length text eats => do
    Edit.replace line column length text eats
    return .done
  | insert line column text eats => do
    Edit.insert line column text eats
    return .done
  | eat line column => do
    let bytes ← Edit.eat line column
    return .removed bytes
  | indentRegion first last indent => do
    Edit.indentRegion first last indent
    return .done
  | textAt line column length => do return .text ((← get).textAt line column length)
  | textSpan start stop => do return .text ((← get).textSpan start stop)

def onBytes : ColumnCall → ByteEdit Answer
  | replace line column length text eats => do
    ByteEdit.onLine line fun l => return ((), ← l.replace? column length text eats)
    return .done
  | insert line column text eats => do
    ByteEdit.onLine line fun l => return ((), ← l.replace? column 0 text eats)
    return .done
  | eat line column => do
    let bytes ← ByteEdit.onLine line fun l => return (← l.eat? column).swap
    return .removed bytes
  | indentRegion first last indent => do
    ByteEdit.indentLines indent first (last + 1 - first)
    return .done
  | textAt line column length => ByteEdit.tell fun e => return .text (← e.textAt? line column length)
  | textSpan start stop => ByteEdit.tell fun e => return .text (← e.textSpan? start stop)

open ByteEdit in
theorem performs (call : ColumnCall) : Performs call.onBytes call.run := by
  cases call with
  | replace line column length text eats =>
    exact (performs_replace line column length text eats).bind fun _ => performs_pure _
  | insert line column text eats =>
    exact (performs_replace line column 0 text eats).bind fun _ => performs_pure _
  | eat line column =>
    exact (performs_eat line column).bind fun bytes => performs_pure _
  | indentRegion first last indent =>
    exact (performs_indentLines _ _ _).bind fun _ => performs_pure _
  | textAt line column length =>
    refine performs_tell fun e aligned => ?_
    rw [e.textAt?_eq aligned]
    rfl
  | textSpan start stop =>
    refine performs_tell fun e aligned => ?_
    rw [e.textSpan?_eq aligned]
    rfl

end ColumnCall

/-- After any calls with any arguments, a call that reads or edits at any columns can be made on the bytes of
the lines: every range that it cuts begins and ends between characters of the line, in this order, and every
line it leaves is UTF-8 again. It gives an answer, or fails because a line does not exist. -/
theorem Editor.column_calls_cut_whole_characters {κ : Type} [ToString κ] (lines : List String)
    (calls : List (EditorCall κ)) (call : ColumnCall) :
    let e := calls.foldl EditorCall.after (ofLines lines)
    call.onBytes.run.run e = some (call.run.outcome e) ∧
      ∀ error, (call.run.outcome e).1 = .error error →
        ∃ number, error = .lineOutOfRange number lines.length := by
  intro e
  have accounts : Accounts lines e := (accounts_ofLines lines).calls calls
  refine ⟨call.performs.same e accounts.aligned, fun error fails => ?_⟩
  rw [← accounts.count]
  exact call.performs.refusal e error accounts.aligned fails

end SqlFerry
