/-! Sets of characters given as ranges of code points, the form in which character properties are
tabulated. -/
namespace SqlFerry.Text

/-- Closed ranges of code points, in increasing order. -/
structure CharSet where
  ofRanges ::
  ranges : List (Nat × Nat)

def CharSet.contains (s : CharSet) (c : Char) : Bool :=
  s.ranges.any fun r => r.1 ≤ c.toNat && c.toNat ≤ r.2

end SqlFerry.Text
