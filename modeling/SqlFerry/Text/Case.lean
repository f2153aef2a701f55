import SqlFerry.Text.CaseRuns
import SqlFerry.Text.CaseIgnorable
import SqlFerry.Text.Cased
import SqlFerry.Text.Letter

/-! Upper and lower case of every script. A letter can map to several characters, and a capital
sigma is written differently at the end of a word. -/
namespace SqlFerry.Text

def mapCase (runs : List (Nat × Nat × Nat × Nat)) (sequences : List (Nat × List Nat))
    (c : Char) : List Char :=
  match runs.findSome? fun run => (CaseRun.ofTuple run).map? c.toNat with
  | some n => [Char.ofNat n]
  | none =>
    match sequences.lookup c.toNat with
    | some ns => ns.map Char.ofNat
    | none => [c]

def upperChar (c : Char) : List Char :=
  if isAscii c then [c.toUpper] else mapCase upperRuns upperSequences c

def lowerChar (c : Char) : List Char :=
  if isAscii c then [c.toLower] else mapCase lowerRuns lowerSequences c

def isCased (c : Char) : Bool :=
  if isAscii c then c.isAlpha else casedBeyondAscii.contains c

def isCaseIgnorable (c : Char) : Bool :=
  if isAscii c then "'.:^`".toList.contains c else caseIgnorableBeyondAscii.contains c

/-- The nearest character that is not passed over is a cased one. -/
def reachesCased (cs : List Char) : Bool := (cs.dropWhile isCaseIgnorable).head?.any isCased

/-- Lower case of a text that follows `before`, which is in reverse order. A capital sigma that
ends a word becomes the final form. -/
def lowerAfter (before : List Char) : List Char → List Char
  | [] => []
  | c :: cs =>
    let mapped :=
      if c == 'Σ' then
        if reachesCased before && !reachesCased cs then ['ς'] else ['σ']
      else
        lowerChar c
    mapped ++ lowerAfter (c :: before) cs

def toLower (s : String) : String := .ofList (lowerAfter [] s.toList)

def toUpper (s : String) : String := .ofList (s.toList.flatMap upperChar)

end SqlFerry.Text
