import SqlFerry.Editor.Edit
import SqlFerry.Proofs.Text.Column

/-! One line under edit: its current text together with its shifts, and how edits of the line move its
columns. Everything comes down to `splice`: eating blanks is a splice over a run of blanks, and a
replacement is a splice at resolved columns that may be followed by eating. -/
namespace SqlFerry

open Edit (gapBetween)
open Text (StandsAt)

section Rows

variable {α : Type} {rows : List α} {number : Nat} {row : α}

theorem row?_setRow (present : (row? rows number).isSome) :
    row? (setRow rows number row) number = some row := by
  cases number with
  | zero => simp [row?] at present
  | succ index =>
    have bound : index < rows.length := by simpa [row?] using present
    exact List.getElem?_set_self bound

theorem row?_map {β : Type} (f : α → β) : row? (rows.map f) number = (row? rows number).map f := by
  cases number with
  | zero => rfl
  | succ index => simp [row?]

theorem mem_of_row? (present : row? rows number = some row) : row ∈ rows := by
  cases number with
  | zero => cases present
  | succ index => exact List.mem_of_getElem? present

theorem setRow_row? (present : row? rows number = some row) : setRow rows number row = rows := by
  cases number with
  | zero => rfl
  | succ index =>
    obtain ⟨bound, rfl⟩ := List.getElem?_eq_some_iff.mp present
    exact List.set_getElem_self bound

theorem setRow_setRow (first second : α) :
    setRow (setRow rows number first) number second = setRow rows number second := by
  cases number with
  | zero => rfl
  | succ index => exact List.set_set _

end Rows

theorem Shifts.resolve_record (shifts : Shifts) (reference : Nat) (delta : Int) (column : Nat)
    (inside : shifts.resolve column ≤ columnLimit) :
    (shifts.record reference delta).resolve column =
      Shift.apply ⟨reference, delta⟩ (shifts.resolve column) := by
  by_cases still : delta = 0
  · subst still
    simp only [record, ite_true, Shift.apply, Int.add_zero, Int.toNat_natCast]
    split <;> omega
  · rw [record, if_neg still, resolve_append]
    rfl

/-- The largest size of a text that can be held in memory. -/
def textLimit : Nat := 0x7FFFFFFFFFFFFFFF

structure Line where
  text : String
  shifts : Shifts := []
deriving DecidableEq, Repr

namespace Line

/-- The place in the current text of a column of the unedited line. -/
def place (l : Line) (column : Nat) : Nat := Text.floorColumn l.text (l.shifts.resolve column)

def splice (l : Line) (start stop : Nat) (text : String) : Line where
  text := Text.splice l.text start stop text
  shifts := l.shifts.record stop ((Text.size text : Int) - ((stop : Int) - start))

def eat (l : Line) (column : Nat) : Line × Nat :=
  let start := Text.floorColumn l.text column
  let before := Text.takeBytes start l.text.toList
  let behind := Text.dropBytes start l.text.toList
  let run := behind.takeWhile Text.isIndent
  let after := behind.dropWhile Text.isIndent
  let kept := gapBetween before.getLast? after.head?
  let removed := run.length - kept.length
  if removed = 0 then
    (l, 0)
  else
    ({ text := .ofList (before ++ kept ++ after),
       shifts := l.shifts.record (start + run.length) (-removed) }, removed)

def replace (l : Line) (column length : Nat) (text : String) (eats : Bool) : Line :=
  let start := l.place column
  let stop := l.place (columnBehind column length)
  let replaced := l.splice start (max start stop) text
  if eats then (replaced.eat (start + Text.size text)).1 else replaced

def textAt (l : Line) (column length : Nat) : String :=
  let start := l.place column
  let stop := l.place (columnBehind column length)
  if start < stop then Text.slice l.text start stop else ""

/-- Where a current column goes when `added` bytes take the place of the columns from `start` to
`stop`. -/
def moved (start stop added column : Nat) : Nat :=
  if column < stop then column else column - stop + start + added

theorem moved_of_lt {start stop added column : Nat} (h : column < stop) :
    moved start stop added column = column := if_pos h

theorem moved_of_le {start stop added column : Nat} (h : stop ≤ column) :
    moved start stop added column = column - stop + start + added :=
  if_neg (Nat.not_lt.mpr h)

theorem resolve_splice (l : Line) {start stop column : Nat} (text : String)
    (inside : l.shifts.resolve column ≤ columnLimit)
    (fits : moved start stop (Text.size text) (l.shifts.resolve column) ≤ columnLimit) :
    (l.splice start stop text).shifts.resolve column =
      moved start stop (Text.size text) (l.shifts.resolve column) := by
  rw [splice, Shifts.resolve_record _ _ _ _ inside]
  simp only [Shift.apply, moved] at fits ⊢
  split
  · rfl
  · next behind =>
    rw [if_neg behind] at fits
    omega

theorem place_eq {l : Line} {column : Nat} {text : String}
    (stands : StandsAt l.text (l.shifts.resolve column) text) :
    l.place column = l.shifts.resolve column :=
  stands.floorColumn_eq

theorem columnBehind_eq {column length : Nat} (fits : column + length ≤ columnLimit) :
    columnBehind column length = column + length :=
  Nat.mod_eq_of_lt (by omega)

theorem utf8Size_of_isIndent {c : Char} (h : Text.isIndent c = true) : c.utf8Size = 1 := by
  simp only [Text.isIndent, Bool.or_eq_true, beq_iff_eq] at h
  rcases h with rfl | rfl <;> rfl

theorem byteLength_of_all_isIndent {cs : List Char} (h : ∀ c ∈ cs, Text.isIndent c = true) :
    Text.byteLength cs = cs.length := by
  induction cs with
  | nil => rfl
  | cons c cs ih =>
    have first := utf8Size_of_isIndent (h c List.mem_cons_self)
    have rest := ih fun d hd => h d (List.mem_cons_of_mem _ hd)
    simp only [Text.byteLength, List.length_cons]
    omega

theorem gapBetween_isIndent (before after : Option Char) :
    ∀ c ∈ gapBetween before after, Text.isIndent c = true := by
  intro c member
  unfold gapBetween at member
  split at member
  · obtain rfl := List.mem_singleton.mp member; rfl
  · cases member

/-- Eating takes the run of blanks at a column, but for what has to stay of it. -/
theorem eat_eq (l : Line) {before run after : List Char}
    (whole : l.text.toList = before ++ run ++ after) (blank : ∀ c ∈ run, Text.isIndent c = true)
    (ends : ∀ c ∈ after.head?, Text.isIndent c = false) :
    (l.eat (Text.byteLength before)).1 =
      if run.length ≤ (gapBetween before.getLast? after.head?).length then l
      else l.splice (Text.byteLength before) (Text.byteLength before + Text.byteLength run)
        (.ofList (gapBetween before.getLast? after.head?)) := by
  have floor : Text.floorColumn l.text (Text.byteLength before) = Text.byteLength before := by
    rw [Text.floorColumn, whole, List.append_assoc, Text.takeBytes_append]
  have taken : Text.takeBytes (Text.byteLength before) l.text.toList = before := by
    rw [whole, List.append_assoc, Text.takeBytes_append]
  have dropped : Text.dropBytes (Text.byteLength before) l.text.toList = run ++ after := by
    rw [whole, List.append_assoc, Text.dropBytes_append]
  have stop : after.takeWhile Text.isIndent = [] ∧ after.dropWhile Text.isIndent = after := by
    cases after with
    | nil => exact ⟨rfl, rfl⟩
    | cons c after => simp [ends c rfl]
  have inRun : (run ++ after).takeWhile Text.isIndent = run := by
    rw [List.takeWhile_append_of_pos blank, stop.1, List.append_nil]
  have behindRun : (run ++ after).dropWhile Text.isIndent = after := by
    rw [List.dropWhile_append_of_pos blank, stop.2]
  unfold eat
  simp only [floor, taken, dropped, inRun, behindRun]
  generalize hkept : gapBetween before.getLast? after.head? = kept
  have runSize := byteLength_of_all_isIndent blank
  have keptSize := byteLength_of_all_isIndent (hkept ▸ gapBetween_isIndent _ _)
  have texts : Text.splice l.text (Text.byteLength before)
      (Text.byteLength before + Text.byteLength run) (.ofList kept) =
        .ofList (before ++ kept ++ after) := by
    apply String.toList_injective
    rw [Text.splice_toList whole]
    simp
  by_cases short : run.length ≤ kept.length
  · simp [short]
  · have delta : -((run.length - kept.length : Nat) : Int) =
        (Text.size (.ofList kept) : Int) -
          ((Text.byteLength before + Text.byteLength run : Nat) - Text.byteLength before) := by
      rw [Text.size_ofList]; omega
    rw [if_neg (by omega), if_neg short, splice, texts]
    simp only [delta, runSize]

/-- The run of blanks that is eaten at a column. -/
structure Eaten (l : Line) (column stop : Nat) (kept : String) : Prop where
  boundary : StandsAt l.text stop ""
  shrinks : column + Text.size kept < stop
  /-- What stands inside the run starts with a blank. -/
  blank : ∀ position text c, StandsAt l.text position text → text.toList.head? = some c →
    column ≤ position → position < stop → Text.isIndent c = true

theorem eat_cases (l : Line) {column : Nat} (boundary : StandsAt l.text column "") :
    (l.eat column).1 = l ∨
      ∃ stop kept, Eaten l column stop kept ∧ (l.eat column).1 = l.splice column stop kept := by
  obtain ⟨before, behind, shape, rfl⟩ := boundary
  simp only [String.toList_empty, List.append_nil] at shape
  generalize hrun : behind.takeWhile Text.isIndent = run
  generalize hafter : behind.dropWhile Text.isIndent = after
  have whole : l.text.toList = before ++ run ++ after := by
    rw [shape, ← hrun, ← hafter, List.append_assoc, List.takeWhile_append_dropWhile]
  have runBlank : ∀ c ∈ run, Text.isIndent c = true := by
    rw [← hrun]
    exact fun c member => List.all_eq_true.mp List.all_takeWhile c member
  have ends : ∀ c ∈ after.head?, Text.isIndent c = false := by
    intro c first
    have stops := List.head?_dropWhile_not Text.isIndent behind
    rwa [hafter, Option.mem_def.mp first] at stops
  have runSize := byteLength_of_all_isIndent runBlank
  have keptSize := byteLength_of_all_isIndent (gapBetween_isIndent before.getLast? after.head?)
  rw [eat_eq l whole runBlank ends]
  split
  · exact .inl rfl
  · next removes =>
    refine .inr ⟨_, _, ⟨?_, ?_, ?_⟩, rfl⟩
    · exact ⟨before ++ run, after, by simp [whole], by simp⟩
    · rw [Text.size_ofList]; omega
    · rintro position text c ⟨pre, post, shape', rfl⟩ head behindColumn beforeStop
      rw [whole, List.append_assoc, List.append_assoc] at shape'
      obtain ⟨mid, rfl, inRun⟩ := Text.cut_of_byteLength_le shape' behindColumn
      cases htext : text.toList with
      | nil => simp [htext] at head
      | cons d rest =>
        obtain rfl : d = c := by simpa [htext] using head
        have shorter : Text.byteLength mid < Text.byteLength run := by
          rw [Text.byteLength_append] at beforeStop; omega
        obtain ⟨tail, rfl, more⟩ := Text.cut_of_byteLength_le inRun.symm (Nat.le_of_lt shorter)
        cases tail with
        | nil => simp at shorter
        | cons e tail =>
          have same : e = d := by simpa [htext] using (congrArg List.head? more).symm
          exact same ▸ runBlank e (by simp)

end Line

end SqlFerry
