/-! Byte columns of a line. A column counts the UTF-8 bytes in front of it; a column inside a
character stands for the start of that character, and one past the end for the end. -/
namespace SqlFerry.Text

def byteLength : List Char → Nat
  | [] => 0
  | c :: cs => c.utf8Size + byteLength cs

/-- The characters that lie wholly in the first `n` bytes. -/
def takeBytes : Nat → List Char → List Char
  | _, [] => []
  | n, c :: cs => if c.utf8Size ≤ n then c :: takeBytes (n - c.utf8Size) cs else []

/-- What `takeBytes` leaves. -/
def dropBytes : Nat → List Char → List Char
  | _, [] => []
  | n, c :: cs => if c.utf8Size ≤ n then dropBytes (n - c.utf8Size) cs else c :: cs

theorem takeBytes_append_dropBytes (n : Nat) (cs : List Char) :
    takeBytes n cs ++ dropBytes n cs = cs := by
  induction cs generalizing n with
  | nil => rfl
  | cons c cs ih => by_cases h : c.utf8Size ≤ n <;> simp [takeBytes, dropBytes, h, ih]

@[simp] theorem byteLength_append (xs ys : List Char) :
    byteLength (xs ++ ys) = byteLength xs + byteLength ys := by
  induction xs with
  | nil => simp [byteLength]
  | cons c xs ih => simp [byteLength, ih]; omega

/-- The number of bytes of a text. -/
def size (s : String) : Nat := byteLength s.toList

/-- The nearest column at or before `n` where a character starts or the line ends. -/
def floorColumn (s : String) (n : Nat) : Nat := byteLength (takeBytes n s.toList)

def isBoundary (s : String) (n : Nat) : Bool := floorColumn s n == n

/-- The text from column `start` up to column `stop`. -/
def slice (s : String) (start stop : Nat) : String :=
  .ofList (dropBytes start (takeBytes stop s.toList))

/-- The line with the text from column `start` up to column `stop` replaced. -/
def splice (s : String) (start stop : Nat) (text : String) : String :=
  .ofList (takeBytes start s.toList ++ text.toList ++ dropBytes stop s.toList)

end SqlFerry.Text
