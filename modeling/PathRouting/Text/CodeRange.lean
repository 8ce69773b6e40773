/-!
# Ranges of code points

A property of characters is given by the ranges of code points that have it, both ends
included, listed upward.

## Main definitions

* `CodeRange.covers` — a code point lies in one of the ranges
-/

namespace PathRouting.Text

/-- The code points from `first` to `last`, both included. -/
abbrev CodeRange := Nat × Nat

namespace CodeRange

/-- Whether `code` lies in one of the ranges. They are listed upward, so the search stops
at the first range that begins after `code`. -/
def covers (code : Nat) : List CodeRange → Bool
  | [] => false
  | (first, last) :: rest => decide (first ≤ code) && (decide (code ≤ last) || covers code rest)

end CodeRange

end PathRouting.Text
