import SqlFerry.LineNumber

/-! How far the columns of a line have moved. A shift is recorded for every edit, in the columns
that were current then, and a column of the unedited line is resolved by applying the shifts of its
line, oldest first. -/
namespace SqlFerry

/-- Columns at or behind `reference` move by `delta`. -/
structure Shift where
  reference : Nat
  delta : Int
deriving DecidableEq, Repr

/-- The largest column. -/
def columnLimit : Nat := 0xFFFFFFFFFFFFFFFF

/-- The column `length` behind `column`; columns are numbers of 64 bits and go around. -/
def columnBehind (column length : Nat) : Nat := (column + length) % (columnLimit + 1)

/-- A column stays in the range from 0 to the limit. -/
def Shift.apply (s : Shift) (column : Nat) : Nat :=
  if column < s.reference then column else min ((column : Int) + s.delta).toNat columnLimit

/-- The shifts of one line, oldest first. -/
abbrev Shifts := List Shift

namespace Shifts

/-- A shift by nothing is not kept. -/
def record (shifts : Shifts) (reference : Nat) (delta : Int) : Shifts :=
  if delta = 0 then shifts else shifts ++ [⟨reference, delta⟩]

def resolve (shifts : Shifts) (column : Nat) : Nat := shifts.foldl (fun c s => s.apply c) column

/-- By how much the line has grown. -/
def total (shifts : Shifts) : Int := shifts.foldl (fun n s => n + s.delta) 0

theorem resolve_append (xs ys : Shifts) (column : Nat) :
    resolve (xs ++ ys) column = resolve ys (resolve xs column) := by
  simp [resolve, List.foldl_append]

theorem total_record (shifts : Shifts) (reference : Nat) (delta : Int) :
    total (record shifts reference delta) = total shifts + delta := by
  unfold record total
  split <;> simp_all [List.foldl_append]

end Shifts

/-- The shifts of every line. -/
structure Ledger where
  lines : List Shifts
deriving DecidableEq, Repr

namespace Ledger

def ofLineCount (n : Nat) : Ledger := ⟨List.replicate n []⟩

def lineCount (l : Ledger) : Nat := l.lines.length

def isEmpty (l : Ledger) : Bool := l.lines.all List.isEmpty

/-- The shifts of a line; a line that does not exist has none. -/
def entries (l : Ledger) (line : Nat) : Shifts := (row? l.lines line).getD []

def record (l : Ledger) (line reference : Nat) (delta : Int) : Except EditError Ledger := do
  let shifts ← row l.lines line
  return ⟨setRow l.lines line (shifts.record reference delta)⟩

def resolve (l : Ledger) (line column : Nat) : Nat := (l.entries line).resolve column

end Ledger

end SqlFerry
