import SmallScheme.Fault
import SmallScheme.Text.Blank
import SmallScheme.Text.DecimalDigit

/-
Module: SmallScheme.Settings
Purpose: What the environment of a run may set: directories searched for files, the file of the prelude, the prompt and
  the recursion limit. Each setting has its own rule for what counts as unset. Path lists are separated by colons,
  their entries stripped of white space and empty ones ignored.
Main exports: Settings, Settings.loadPath, PreludeChoice, Settings.prelude, Settings.promptText,
  Settings.recursionLimit
-/

namespace SmallScheme

/-- The settings as they were given, each possibly missing. -/
structure Settings where
  loadPath? : Option String := none
  prelude? : Option String := none
  prompt? : Option String := none
  recursionLimit? : Option String := none
deriving DecidableEq, Repr, Inhabited

/-- The prompt if none is set. -/
def defaultPrompt : String :=
  "Lisp>>> "

/-- The recursion limit if none is set. -/
def defaultRecursionLimit : Nat :=
  5000

/-- Where the prelude comes from. -/
inductive PreludeChoice where
  /-- The library's own. -/
  | bundled
  /-- A file. -/
  | file (path : Path)
deriving DecidableEq, Repr, Inhabited

namespace Settings

/-- The entries of a path list. -/
def entries (list : String) : List Path :=
  let fields := (list.toList.splitOn ':').map Text.trim
  (fields.filter (!·.isEmpty)).map fun field => Path.ofString (String.ofList field)

/-- The directories searched for relative file names after the working directory. -/
def loadPath (s : Settings) : List Path :=
  match s.loadPath? with
  | none => []
  | some list => entries list

/-- The choice of prelude: the first entry of the list, or the library's own if the list is unset or empty. A list of
    nothing but separators and white space names no file. -/
def prelude (s : Settings) : Except Fault PreludeChoice :=
  match s.prelude? with
  | none => .ok .bundled
  | some list =>
    if list = "" then .ok .bundled
    else match entries list with
      | [] => .error .noPreludeFile
      | path :: _ => .ok (.file path)

/-- The prompt, taken as it is even if it is empty. -/
def promptText (s : Settings) : String :=
  s.prompt?.getD defaultPrompt

/-- The number that decimal digits of any system denote, if all are decimal. -/
def decimalNumber? (cs : List Char) : Option Nat :=
  cs.foldlM (fun n c => (Text.decimalValue? c).map (10 * n + ·)) 0

/-- How many decimal digits a text starts with. -/
def leadingDecimals (cs : List Char) : Nat :=
  (cs.takeWhile fun c => (Text.decimalValue? c).isSome).length

/-- The recursion limit. A text that is not all digits counts as unset. Digits that are not decimal are a fault, but
    before them too many decimal ones are. -/
def recursionLimit (s : Settings) : Except Fault Nat :=
  let text := Text.trim (s.recursionLimit?.getD "").toList
  if text.isEmpty || !text.all Text.isDigit then .ok defaultRecursionLimit
  else if Number.maxDigits < leadingDecimals text then .error (.numeralTooLong (leadingDecimals text))
  else match decimalNumber? text with
    | none => .error (.badRecursionLimit text)
    | some n => .ok n

end Settings

end SmallScheme
