import SqlFerry.Text.Alphabetic
import SqlFerry.Text.Numeric

/-! Letters, digits and the characters of words. The tests take every script, with the ASCII range
decided first. -/
namespace SqlFerry.Text

def isAscii (c : Char) : Bool := c.toNat < 0x80

def isAlphabetic (c : Char) : Bool :=
  if isAscii c then c.isAlpha else alphabeticBeyondAscii.contains c

def isNumeric (c : Char) : Bool :=
  if isAscii c then c.isDigit else numericBeyondAscii.contains c

def isAlphanumeric (c : Char) : Bool := isAlphabetic c || isNumeric c

/-- The characters that make up words: two of them side by side read as one word. -/
def isWordChar (c : Char) : Bool :=
  isAlphanumeric c || c == '_' || c == '@' || c == '#' || c == '$'

/-- A word starts with a letter or an underscore. -/
def isWordStart (c : Char) : Bool := isAlphabetic c || c == '_'

def isHexDigit (c : Char) : Bool :=
  c.isDigit || ('a' ≤ c && c ≤ 'f') || ('A' ≤ c && c ≤ 'F')

end SqlFerry.Text
