import SmallScheme.Path
import SmallScheme.Text.Utf8

/-
Module: SmallScheme.FileTree
Purpose: The files a program can reach, as a value. Places are lists of directory names from the root; there is a
  working directory, a set of directories and a table of files with their bytes. A name is followed part by part
  from the root or the working directory, as an operating system does it, so the order of the checks decides which
  of several faults is reported. Names can be too long, places can be barred, and files can be limited in size.
  Left out are links, rights that bar some uses of a place and not others, a store that several files fill up, and
  devices, but for one that can be written to and never has room.
Main exports: FileTree, Trouble, Refusal, Spot, FileTree.locate, FileTree.contents?, FileTree.openRead,
  FileTree.openWrite, FileTree.holds, FileTree.overlay, FileTree.isFile, FileTree.withFullDevice
-/

namespace SmallScheme

/-- A place in the file system: the names from the root down to it. -/
abbrev Location := List String

/-- The directories and files. -/
structure FileTree where
  /-- The working directory. -/
  here : Location := []
  /-- The directories besides the root. -/
  directories : List Location := []
  /-- The files and their bytes. -/
  files : List (Location × List UInt8) := []
  /-- The directories that must not be searched, and the files that must not be opened or made. -/
  barred : List Location := []
  /-- The most bytes that a file can hold, for the files that are limited. -/
  limits : List (Location × Nat) := []
deriving DecidableEq, Repr, Inhabited

/-- What the file system refuses. -/
inductive Trouble where
  | noSuchFile
  | isDirectory
  | notDirectory
  | nameTooLong
  | denied
deriving DecidableEq, Repr, Inhabited

namespace Trouble

/-- The wording of a trouble. -/
def text : Trouble → String
  | noSuchFile => "No such file or directory"
  | isDirectory => "Is a directory"
  | notDirectory => "Not a directory"
  | nameTooLong => "File name too long"
  | denied => "Permission denied"

/-- The number of a trouble in the operating system. -/
def number : Trouble → Nat
  | noSuchFile => 2
  | isDirectory => 21
  | notDirectory => 20
  | nameTooLong => 36
  | denied => 13

/-- Whether a trouble says no more than that there is no such file. -/
def saysAbsent : Trouble → Bool
  | noSuchFile | notDirectory => true
  | isDirectory | nameTooLong | denied => false

end Trouble

/-- Why a file is not opened. -/
inductive Refusal where
  /-- The name has a null character, which no name can have; the file system is not asked. -/
  | nullInName
  /-- The file system refuses. -/
  | trouble (trouble : Trouble)
deriving DecidableEq, Repr, Inhabited

/-- What a name leads to. -/
inductive Spot where
  /-- A directory. -/
  | directory (place : Location)
  /-- A file. -/
  | file (place : Location)
  /-- Nothing yet, inside a directory that exists. -/
  | vacant (place : Location)
deriving DecidableEq, Repr, Inhabited

namespace FileTree

/-- Whether a place is a directory. -/
def hasDirectory (t : FileTree) (l : Location) : Bool :=
  l.isEmpty || t.directories.contains l

/-- The bytes of the file at a place. -/
def contents? (t : FileTree) (l : Location) : Option (List UInt8) :=
  t.files.lookup l

/-- Whether a place is barred. -/
def isBarred (t : FileTree) (l : Location) : Bool :=
  t.barred.contains l

/-- The most bytes that a part of a name can have. -/
def maxPartSize : Nat :=
  255

/-- The most bytes that a name can have. -/
def maxNameSize : Nat :=
  4095

/-- How many bytes a name has. -/
def nameSize (name : List Char) : Nat :=
  (Text.Utf8.encode name).length

/-- Follows the components of a name from a directory. Whether the directory may be searched is found out before
    the next part is looked at. -/
def follow (t : FileTree) (l : Location) : List String → Except Trouble Spot
  | [] => .ok (.directory l)
  | part :: parts =>
    if part = "" then t.follow l parts
    else if t.isBarred l then .error .denied
    else if part = "." then t.follow l parts
    else if part = ".." then t.follow l.dropLast parts
    else if maxPartSize < nameSize part.toList then .error .nameTooLong
    else
      let next := l ++ [part]
      if t.hasDirectory next then t.follow next parts
      else if (t.contents? next).isSome then
        if parts = [] then .ok (.file next) else .error .notDirectory
      else if parts = [] then .ok (.vacant next) else .error .noSuchFile

/-- Where following a name starts. -/
def base (t : FileTree) (name : List Char) : Location :=
  if name.head? = some '/' then [] else t.here

/-- What the given parts of a name lead to, if the name can be one at all. The empty name leads nowhere. -/
def reach (t : FileTree) (name : List Char) (parts : List String) : Except Refusal Spot :=
  if name.contains '\x00' then .error .nullInName
  else if name = [] then .error (.trouble .noSuchFile)
  else if maxNameSize < nameSize name then .error (.trouble .nameTooLong)
  else (t.follow (t.base name) parts).mapError .trouble

/-- What a name leads to. -/
def locate (t : FileTree) (name : String) : Except Refusal Spot :=
  t.reach name.toList (Path.components name.toList)

/-- Whether a path leads to a file. A path that cannot be followed to its end is not always one to no file. -/
def isFile (t : FileTree) (p : Path) : Except Trouble Bool :=
  match t.locate p.toString with
  | .ok (.file _) => .ok true
  | .ok _ | .error .nullInName => .ok false
  | .error (.trouble trouble) => if trouble.saysAbsent then .ok false else .error trouble

/-- The place of the file to read under a name. -/
def openRead (t : FileTree) (name : String) : Except Refusal Location :=
  match t.locate name with
  | .ok (.file l) => if t.isBarred l then .error (.trouble .denied) else .ok l
  | .ok (.directory l) => .error (.trouble (if t.isBarred l then .denied else .isDirectory))
  | .ok (.vacant _) => .error (.trouble .noSuchFile)
  | .error refusal => .error refusal

/-- Replaces the bytes of a file, or adds a file. -/
def write (t : FileTree) (l : Location) (bytes : List UInt8) : FileTree :=
  if (t.contents? l).isSome then
    { t with files := t.files.map fun f => if f.1 = l then (l, bytes) else f }
  else { t with files := t.files ++ [(l, bytes)] }

/-- A name without the slashes it ends with. -/
def dropTrailingSlashes (name : List Char) : List Char :=
  (name.reverse.dropWhile (· == '/')).reverse

/-- Opens a file for writing, which empties it or creates it. A name that ends with a slash can only be a
    directory, whether there is one or not, as long as its other parts lead to a directory. -/
def openWrite (t : FileTree) (name : String) : Except Refusal (FileTree × Location) :=
  let cs := name.toList
  let stem := dropTrailingSlashes cs
  if stem.length = cs.length then
    match t.locate name with
    | .ok (.file l) | .ok (.vacant l) => if t.isBarred l then .error (.trouble .denied) else .ok (t.write l [], l)
    | .ok (.directory _) => .error (.trouble .isDirectory)
    | .error refusal => .error refusal
  else
    match t.reach cs (Path.components stem).dropLast with
    | .ok (.directory l) => .error (.trouble (if t.isBarred l then .denied else .isDirectory))
    | .ok (.file _) => .error (.trouble .notDirectory)
    | .ok (.vacant _) => .error (.trouble .noSuchFile)
    | .error refusal => .error refusal

/-- Whether a file can hold so many bytes. -/
def holds (t : FileTree) (l : Location) (count : Nat) : Bool :=
  match t.limits.lookup l with
  | some most => count ≤ most
  | none => true

/-- Writes bytes over the start of a file, as many as it can hold; what was longer stays. -/
def overlay (t : FileTree) (l : Location) (bytes : List UInt8) : FileTree :=
  let kept := match t.limits.lookup l with
    | some most => bytes.take most
    | none => bytes
  t.write l (kept ++ ((t.contents? l).getD []).drop kept.length)

/-- Adds a directory and those above it. -/
def addDirectory (t : FileTree) (l : Location) : FileTree :=
  let chain := (List.range (l.length + 1)).map l.take
  { t with directories := t.directories ++ chain.filter fun d => !d.isEmpty && !t.directories.contains d }

/-- Adds a file and the directories above it. -/
def addFile (t : FileTree) (l : Location) (bytes : List UInt8) : FileTree :=
  (t.addDirectory l.dropLast).write l bytes

/-- The tree with a device that can be opened for writing, like a file, but cannot hold a byte. What it would give a
    reader, null characters without end, is left out. -/
def withFullDevice (t : FileTree) : FileTree :=
  let place := ["dev", "full"]
  { t.addFile place [] with limits := t.limits ++ [(place, 0)] }

/-- The bytes of a file just written are those written. -/
theorem contents?_write (t : FileTree) (l : Location) (bytes : List UInt8) :
    (t.write l bytes).contents? l = some bytes := by
  unfold write contents?
  split
  · rename_i present
    simp only
    generalize t.files = files at present
    induction files with
    | nil => simp at present
    | cons f fs ih =>
      obtain ⟨k, old⟩ := f
      by_cases same : l = k
      · subst same; simp
      · have other : ¬ k = l := fun h => same h.symm
        simp only [List.lookup_cons, beq_eq_false_iff_ne.2 same] at present
        simp [other, List.lookup_cons, beq_eq_false_iff_ne.2 same, ih present]
  · rename_i absent
    simp only
    generalize t.files = files at absent
    induction files with
    | nil => simp
    | cons f fs ih =>
      obtain ⟨k, old⟩ := f
      by_cases same : l = k
      · subst same; simp at absent
      · simp only [List.lookup_cons, beq_eq_false_iff_ne.2 same] at absent
        simp [List.lookup_cons, beq_eq_false_iff_ne.2 same, ih absent]

end FileTree

end SmallScheme
