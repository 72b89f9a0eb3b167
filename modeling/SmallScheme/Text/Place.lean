/-
Module: SmallScheme.Text.Place
Purpose: Where in a text a character stands. A line feed alone ends a line; lines and columns count from one,
  columns in characters.
Main exports: Place, Place.ofOffset
-/

namespace SmallScheme.Text

/-- A line and a column, both counted from one. -/
structure Place where
  line : Nat
  column : Nat
deriving DecidableEq, Repr, Inhabited

/-- The place of the character at an offset, or of the end of the text: one line more than there are line
    feeds before it, and one column more than there are characters since the last of them. -/
def Place.ofOffset (source : List Char) (offset : Nat) : Place :=
  let before := source.take offset
  { line := before.count '\n' + 1
    column := (before.reverse.takeWhile (· != '\n')).length + 1 }

end SmallScheme.Text
