/-
Module: SmallScheme.Path
Purpose: File names in normal form. Repeated slashes, slashes at the end and parts that are a single full stop say
  nothing and are dropped; `..` is kept, since what it means depends on the file system. A name that starts
  with exactly two slashes keeps both, with one or with three or more it keeps one. The empty name is the
  working directory, written as a full stop.
Main exports: Path, Path.ofString, Path.toString, Path.isAbsolute, Path.under
-/

namespace SmallScheme

/-- A file name in normal form: the slashes it starts with (none, one or two) and its parts. -/
structure Path where
  slashes : Nat
  parts : List String
deriving DecidableEq, Repr, Inhabited

namespace Path

/-- The parts between the slashes of a name, empty ones included. -/
def components (name : List Char) : List String :=
  (name.splitOn '/').map String.ofList

/-- The slashes that count at the start of a name. -/
def leadingSlashes (name : List Char) : Nat :=
  match (name.takeWhile (· == '/')).length with
  | 0 => 0
  | 2 => 2
  | _ => 1

/-- The normal form of a name. -/
def ofString (name : String) : Path :=
  { slashes := leadingSlashes name.toList
    parts := (components name.toList).filter fun part => part != "" && part != "." }

/-- A path as text. -/
protected def toString (p : Path) : String :=
  if p.slashes = 0 ∧ p.parts = [] then "."
  else String.ofList (List.replicate p.slashes '/') ++ "/".intercalate p.parts

instance : ToString Path :=
  ⟨Path.toString⟩

/-- Whether a path starts at the root of the file system. -/
def isAbsolute (p : Path) : Bool :=
  p.slashes != 0

/-- A relative path, taken inside a directory. -/
def under (directory p : Path) : Path :=
  { directory with parts := directory.parts ++ p.parts }

end Path

end SmallScheme
