import SmallScheme.Interpreter
import SmallScheme.Reader

/-
Module: SmallScheme.Interpreter.Source
Purpose: Finding and reading source files. A relative name is taken in the working directory if there is such a file, then
  in each directory of the load path in turn, and otherwise it stays as it is, so that the fault names the file
  as the program did. Looking for a file can fail in itself, which is a failure of the host; that a file is found and
  cannot be read is an error of the language.
Main exports: resolve, readFile, loadForms
-/

namespace SmallScheme

/-- Whether a path leads to a file, if the file system says so. -/
def Interpreter.isFile (i : Interpreter) (path : Path) : Except Fault Bool :=
  (i.files.isFile path).mapError (.outOfReach path)

/-- Where a file name leads under the load path. -/
def Interpreter.resolve (i : Interpreter) (name : String) : Except Fault Path := do
  let path := Path.ofString name
  if path.isAbsolute then return path
  let candidates := path :: i.settings.loadPath.map (Path.under · path)
  return (← candidates.findM? i.isFile).getD path

/-- The text of a file, with line breaks unified. -/
def Interpreter.readFile (i : Interpreter) (name : String) : Except Fault (List Char) := do
  match i.files.openRead (← i.resolve name).toString with
  | .error refusal => throw (.ofRefusal (.cannotRead name) refusal)
  | .ok place =>
    match Text.Utf8.decode ((i.files.contents? place).getD []) with
    | .error e => throw (.notText name e.defect)
    | .ok cs => return Text.unifyBreaks cs

/-- The text of a file. -/
def readFile (name : String) : Action (List Char) := do
  Action.ofExcept ((← get).readFile name)

/-- All forms of a file. -/
def loadForms (name : String) : Action (List Value) := do
  note .loading ("loading " ++ name)
  let source ← readFile name
  let forms ← Action.ofExcept (readAll source)
  note .loading ("read " ++ toString forms.length ++ " forms from " ++ name)
  return forms

end SmallScheme
