/-! Blank characters, in the sense of the Unicode property White_Space, and trimming. -/
namespace SqlFerry.Text

def isBlank (c : Char) : Bool :=
  let n := c.toNat
  (0x09 ≤ n && n ≤ 0x0D) || n == 0x20 || n == 0x85 || n == 0xA0 || n == 0x1680 ||
    (0x2000 ≤ n && n ≤ 0x200A) || n == 0x2028 || n == 0x2029 || n == 0x202F || n == 0x205F ||
    n == 0x3000

/-- Spaces and tabs, the characters that indent a line. -/
def isIndent (c : Char) : Bool := c == ' ' || c == '\t'

def dropLeft (p : Char → Bool) (cs : List Char) : List Char := cs.dropWhile p

def dropRight (p : Char → Bool) (cs : List Char) : List Char := (cs.reverse.dropWhile p).reverse

def trimRight (s : String) : String := .ofList (dropRight isBlank s.toList)

def trim (s : String) : String := .ofList (dropRight isBlank (dropLeft isBlank s.toList))

/-- A line with nothing but blank characters. -/
def isBlankLine (s : String) : Bool := s.toList.all isBlank

/-- The spaces and tabs that a line starts with. -/
def indentation (s : String) : String := .ofList (s.toList.takeWhile isIndent)

end SqlFerry.Text
