import SqlFerry.EditError

/-! Lists with one entry for each line of a text. Lines count from 1. -/
namespace SqlFerry

variable {α : Type}

/-- The entry of a line. -/
def row? (rows : List α) : Nat → Option α
  | 0 => none
  | index + 1 => rows[index]?

def row (rows : List α) (line : Nat) : Except EditError α :=
  match row? rows line with
  | some row => .ok row
  | none => .error (.lineOutOfRange line rows.length)

/-- The list with a new entry for one line; a line that does not exist changes nothing. -/
def setRow (rows : List α) (line : Nat) (row : α) : List α :=
  match line with
  | 0 => rows
  | index + 1 => rows.set index row

@[simp] theorem length_setRow (rows : List α) (line : Nat) (row : α) :
    (setRow rows line row).length = rows.length := by
  cases line <;> simp [setRow]

end SqlFerry
