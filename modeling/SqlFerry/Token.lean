import SqlFerry.Position
import SqlFerry.Text.Ascii
import SqlFerry.Text.Column

/-! A token is a stretch of the source with its kind and the position of its first character. -/
namespace SqlFerry

structure Token (κ : Type) where
  kind : κ
  text : String
  line : Nat
  column : Nat
deriving DecidableEq, Repr

namespace Token

variable {κ : Type}

def size (t : Token κ) : Nat := Text.size t.text

def start (t : Token κ) : Position := ⟨t.line, t.column⟩

/-- The position just behind the token, which may lie on a later line. -/
def stop (t : Token κ) : Position := t.start.advance t.text.toList

/-- The token reads as `word`, whatever its kind and the case of its letters. -/
def isWord (t : Token κ) (word : String) : Bool := Text.sameWord t.text word

end Token

end SqlFerry
