import SqlFerry.Text.Blank

/-! Cutting a text at separators and putting the pieces together again. A text always has at least
one piece, and a separator at either end leaves an empty piece there. -/
namespace SqlFerry.Text

/-- The pieces between the characters that satisfy `sep`. -/
def pieces (sep : Char → Bool) : List Char → List (List Char)
  | [] => [[]]
  | c :: cs =>
    match pieces sep cs with
    | [] => [[c]]
    | piece :: rest => if sep c then [] :: piece :: rest else (c :: piece) :: rest

/-- The pieces with `sep` between each two of them. -/
def gather (sep : List Char) : List (List Char) → List Char
  | [] => []
  | [piece] => piece
  | piece :: rest => piece ++ sep ++ gather sep rest

theorem pieces_ne_nil (sep : Char → Bool) (cs : List Char) : pieces sep cs ≠ [] := by
  cases cs with
  | nil => simp [pieces]
  | cons c cs => simp only [pieces]; split <;> (try split) <;> simp

theorem gather_cons_cons (sep p q : List Char) (rest : List (List Char)) :
    gather sep (p :: q :: rest) = p ++ sep ++ gather sep (q :: rest) := rfl

/-- Cutting at a character and gathering with it gives the text back. -/
theorem gather_pieces (c : Char) (cs : List Char) :
    gather [c] (pieces (· == c) cs) = cs := by
  induction cs with
  | nil => rfl
  | cons d cs ih =>
    simp only [pieces]
    split
    · next h => exact absurd h (pieces_ne_nil _ _)
    · next piece rest h =>
      rw [h] at ih
      split
      · next hd => rw [gather_cons_cons, ih, beq_iff_eq.mp hd]; rfl
      · cases rest with
        | nil => simpa [gather] using ih
        | cons q rest => simpa [gather_cons_cons] using ih

/-- A text cut at a character. -/
def splitOn (c : Char) (s : String) : List String := (pieces (· == c) s.toList).map .ofList

def lines (s : String) : List String := splitOn '\n' s

def join (sep : String) (texts : List String) : String :=
  .ofList (gather sep.toList (texts.map String.toList))

def unlines (texts : List String) : String := join "\n" texts

theorem unlines_lines (s : String) : unlines (lines s) = s := by
  simp [unlines, join, lines, splitOn, Function.comp_def, gather_pieces]

/-- The words of a line: its pieces between blank characters, without the empty ones. -/
def words (s : String) : List String :=
  ((pieces isBlank s.toList).filter (· ≠ [])).map .ofList

end SqlFerry.Text
