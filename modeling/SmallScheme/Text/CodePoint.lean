/-
Module: SmallScheme.Text.CodePoint
Purpose: Sets of characters given as ranges of code points. Several tables of the library
  (non-printing characters, decimal digits, other digits) are lists of inclusive ranges; here is the one
  membership test they share.
Main exports: Range, inRanges
-/

namespace SmallScheme.Text

/-- An inclusive range of code points, from the first component to the second. -/
abbrev Range := Nat × Nat

/-- Whether a code point lies in one of the ranges. -/
def inRanges (ranges : List Range) (n : Nat) : Bool :=
  ranges.any fun r => decide (r.1 ≤ n) && decide (n ≤ r.2)

end SmallScheme.Text
