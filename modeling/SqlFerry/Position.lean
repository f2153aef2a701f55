/-! Positions in a text: lines count from 1, columns count UTF-8 bytes from 0. -/
namespace SqlFerry

structure Position where
  line : Nat
  column : Nat
deriving DecidableEq, Repr

namespace Position

/-- Where a text begins. -/
def origin : Position := ⟨1, 0⟩

def render (p : Position) : String := s!"{p.line}:{p.column}"

def renderRange (start stop : Position) : String := s!"{start.render}-{stop.render}"

/-- The position behind a character that stands at `p`. -/
def step (p : Position) (c : Char) : Position :=
  if c == '\n' then ⟨p.line + 1, 0⟩ else ⟨p.line, p.column + c.utf8Size⟩

/-- The position behind a text that starts at `p`. -/
def advance (p : Position) (cs : List Char) : Position := cs.foldl step p

@[simp] theorem advance_nil (p : Position) : p.advance [] = p := rfl

@[simp] theorem advance_cons (p : Position) (c : Char) (cs : List Char) :
    p.advance (c :: cs) = (p.step c).advance cs := rfl

theorem advance_append (p : Position) (xs ys : List Char) :
    p.advance (xs ++ ys) = (p.advance xs).advance ys := by
  simp [advance, List.foldl_append]

end Position

end SqlFerry
