import SmallScheme.CommandLine

/-
Module: SmallScheme.Main
Purpose: The command as a program. It takes in the arguments, the settings, standard input and the files within reach, lets
  the library act on them, and puts out what that gives: the two output streams, the files that changed, and the
  exit status. Within reach are the files below the working directory and the absolute paths that the arguments and
  settings name.
Main exports: main
-/

namespace SmallScheme.Shell

/-- The text of a location as an absolute path. -/
def pathText (l : Location) : String :=
  "/" ++ "/".intercalate l

/-- The location of an absolute path. -/
def locationOf (path : String) : Location :=
  (Path.ofString path).parts

/-- How many directories deep the files below a directory are taken in. -/
def reach : Nat :=
  12

/-- A tree with a place that is barred. -/
def bar (t : FileTree) (l : Location) : FileTree :=
  { t with barred := l :: t.barred }

/-- Takes in a file, or a directory with the files below it. What cannot be read is barred. -/
def takeIn : Nat → FileTree → Location → IO FileTree
  | 0, t, _ => pure t
  | depth + 1, t, l => do
    let path := (← IO.currentDir) / pathText l
    if ← path.isDir then
      try
        let entries ← path.readDir
        entries.foldlM (fun t e => takeIn depth t (l ++ [e.fileName])) (t.addDirectory l)
      catch _ => return bar (t.addDirectory l) l
    else if ← path.pathExists then
      try
        let bytes ← IO.FS.readBinFile path
        return t.addFile l bytes.toList
      catch _ => return bar (t.addFile l []) l
    else return t

/-- The settings of the process. -/
def settings : IO Settings := do
  return {
    loadPath? := ← IO.getEnv "KAPPA_LOAD_PATH"
    prelude? := ← IO.getEnv "KAPPA_PRELUDE"
    prompt? := ← IO.getEnv "KAPPA_PROMPT"
    recursionLimit? := ← IO.getEnv "KAPPA_RECURSION_LIMIT" }

/-- The absolute paths that arguments and settings name. -/
def namedPaths (args : List String) (s : Settings) : List String :=
  let lists := [s.loadPath?, s.prelude?].flatMap fun list => (Settings.entries (list.getD "")).map Path.toString
  (args ++ lists).filter (·.startsWith "/")

/-- Standard input. At a terminal only a conversation reads it, so that a program does not wait for its end. -/
def standardInput (args : List String) : IO String := do
  let stdin ← IO.getStdin
  let converses := match CommandLine.parseArguments args with
    | .run invocation => invocation.file?.isNone
    | _ => false
  if converses || !(← stdin.isTty) then stdin.readToEnd else return ""

/-- Writes the files that differ from what was taken in. -/
def putOut (before after : FileTree) : IO Unit :=
  after.files.forM fun (l, bytes) => do
    if before.contents? l != some bytes then
      IO.FS.writeBinFile (pathText l) (ByteArray.mk bytes.toArray)

end SmallScheme.Shell

open SmallScheme in
/-- Runs the command. A fault that is no error of the language is reported and gives exit status 1. -/
def main (args : List String) : IO UInt32 := do
  let s ← Shell.settings
  let here := Shell.locationOf (← IO.currentDir).toString
  let places := here :: (Shell.namedPaths args s).map Shell.locationOf
  let files ← places.foldlM (Shell.takeIn Shell.reach) (FileTree.withFullDevice { here })
  let input ← Shell.standardInput args
  let start := Interpreter.initial files s input.toList
  let (status, failure, after) := match CommandLine.execute args start with
    | .ok status after => (status, "", after)
    | .error fault after => (1, fault.message ++ "\n", after)
  Shell.putOut files after.files
  IO.print after.console.output
  IO.eprint (after.console.diagnostics ++ failure)
  return UInt32.ofNat status
