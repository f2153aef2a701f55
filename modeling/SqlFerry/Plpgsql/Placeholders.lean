/-! Placeholders of messages. A message of T-SQL marks them by conversions such as `%d` or `%-5s`,
one of PL/pgSQL by a single `%`; both write a percent sign as `%%`. -/
namespace SqlFerry.Plpgsql

/-- Characters between the `%` of a conversion and its letter. -/
def isConversionFlag (c : Char) : Bool := c.isDigit || "-+ #.*lhI".toList.contains c

def isConversionLetter (c : Char) : Bool := "disuoxX".toList.contains c

/-- A conversion at the start of a text: how many characters it takes behind its `%`. -/
def conversionLength? (cs : List Char) : Option Nat :=
  let flags := (cs.takeWhile isConversionFlag).length
  if (cs.drop flags).head?.any isConversionLetter then some (flags + 1) else none

/-- Puts `%` in the place of every conversion. -/
def placeholders : List Char → List Char
  | [] => []
  | '%' :: '%' :: rest => '%' :: '%' :: placeholders rest
  | c :: rest =>
    if c = '%' then
      match conversionLength? rest with
      | some n => '%' :: placeholders (rest.drop n)
      | none => '%' :: placeholders rest
    else
      c :: placeholders rest
termination_by cs => cs.length
decreasing_by all_goals simp only [List.length_drop, List.length_cons]; omega

end SqlFerry.Plpgsql
