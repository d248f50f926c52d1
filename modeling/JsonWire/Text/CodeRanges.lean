/-
  JsonWire.Text.CodeRanges — sets of characters as ranges of code points.

  A property of characters is a table of closed ranges, in ascending order and with gaps
  between them (`Separated`), so that each character lies in at most one.
-/

namespace JsonWire.Text

/-- Closed ranges, first and last code point. -/
abbrev CodeRanges := List (Nat × Nat)

namespace CodeRanges

def contains (ranges : CodeRanges) (c : Char) : Bool :=
  ranges.any fun (first, last) => first ≤ c.toNat && c.toNat ≤ last

/-- Every range is in order and ends before the code point in front of the next. -/
def Separated : CodeRanges → Bool
  | [] => true
  | [(first, last)] => first ≤ last
  | (first, last) :: (next, after) :: rest =>
    first ≤ last && last + 1 < next && Separated ((next, after) :: rest)

end CodeRanges

end JsonWire.Text
