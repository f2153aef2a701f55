import SqlFerry.Position
import SqlFerry.Proofs.Text.Column

/-! Where a text ends: each line end in it starts a new line, and the column counts the bytes behind
the last one. -/
namespace SqlFerry

namespace Text

/-- What stands behind the last line end. -/
def lastLine : List Char → List Char
  | [] => []
  | c :: cs => if '\n' ∈ c :: cs then lastLine cs else c :: cs

theorem lastLine_of_not_mem {cs : List Char} (flat : '\n' ∉ cs) : lastLine cs = cs := by
  cases cs with
  | nil => rfl
  | cons c cs => rw [lastLine, if_neg flat]

theorem lastLine_of_mem_tail (c : Char) {cs : List Char} (broken : '\n' ∈ cs) :
    lastLine (c :: cs) = lastLine cs := by
  rw [lastLine, if_pos (List.mem_cons_of_mem _ broken)]

theorem lastLine_line_end (cs : List Char) : lastLine ('\n' :: cs) = lastLine cs := by
  rw [lastLine, if_pos List.mem_cons_self]

end Text

namespace Position

open Text (byteLength lastLine)

theorem line_advance (p : Position) (cs : List Char) :
    (p.advance cs).line = p.line + cs.count '\n' := by
  induction cs generalizing p with
  | nil => rfl
  | cons c cs ih =>
    rw [advance_cons, ih, List.count_cons, step]
    by_cases lineEnd : c = '\n'
    · simp [lineEnd]
      omega
    · simp [lineEnd]

theorem advance_of_no_line_end (p : Position) {cs : List Char} (flat : '\n' ∉ cs) :
    p.advance cs = ⟨p.line, p.column + byteLength cs⟩ := by
  induction cs generalizing p with
  | nil => rfl
  | cons c cs ih =>
    have first := List.ne_of_not_mem_cons flat
    have rest := List.not_mem_of_not_mem_cons flat
    rw [advance_cons, ih _ rest, step, if_neg (by simpa using first.symm)]
    simp only [byteLength, Nat.add_assoc]

theorem column_advance_of_line_end (p : Position) {cs : List Char} (broken : '\n' ∈ cs) :
    (p.advance cs).column = byteLength (lastLine cs) := by
  induction cs generalizing p with
  | nil => simp at broken
  | cons c cs ih =>
    rw [advance_cons]
    by_cases later : '\n' ∈ cs
    · rw [ih _ later, Text.lastLine_of_mem_tail c later]
    · obtain rfl : '\n' = c := by simpa [later] using broken
      rw [advance_of_no_line_end _ later, Text.lastLine_line_end, Text.lastLine_of_not_mem later]
      simp [step]

theorem advance_origin (cs : List Char) :
    origin.advance cs = ⟨1 + cs.count '\n', byteLength (lastLine cs)⟩ := by
  have line := line_advance origin cs
  have column : (origin.advance cs).column = byteLength (lastLine cs) := by
    by_cases broken : '\n' ∈ cs
    · exact column_advance_of_line_end _ broken
    · rw [advance_of_no_line_end _ broken, Text.lastLine_of_not_mem broken]
      simp [origin]
  rw [← column]
  exact congrArg (Position.mk · _) line

theorem no_line_end_of_line_advance {p : Position} {cs : List Char}
    (same : (p.advance cs).line = p.line) : '\n' ∉ cs := by
  rw [line_advance] at same
  exact List.count_eq_zero.mp (by omega)

theorem advance_eq_self {p : Position} {cs : List Char} (same : p.advance cs = p) :
    cs = [] := by
  have flat : '\n' ∉ cs := no_line_end_of_line_advance (by rw [same])
  rw [advance_of_no_line_end p flat] at same
  have column : p.column + byteLength cs = p.column := congrArg Position.column same
  exact Text.byteLength_eq_zero.mp (by omega)

end Position

end SqlFerry
