/-! Words compared without regard to the case of ASCII letters. Other letters have to agree. -/
namespace SqlFerry.Text

def asciiUpper (s : String) : String := .ofList (s.toList.map Char.toUpper)

/-- Equality up to the case of ASCII letters. -/
def sameWord (a b : String) : Bool := a.toList.map Char.toLower == b.toList.map Char.toLower

end SqlFerry.Text
