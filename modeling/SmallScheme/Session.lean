import SmallScheme.Eval
import SmallScheme.Prelude

/-
Module: SmallScheme.Session
Purpose: Running programs. A session starts from an interpreter whose root scope binds the built-in procedures, perhaps
  with a prelude. A program text is read as a whole before any of it is evaluated, so a text that cannot be read
  changes nothing; its forms are then evaluated in order in the root scope, and the first fault ends it.
Main exports: Interpreter.initial, evalProgram, evalText, Outcome, report, evalToText, runFile, Prelude, start
-/

namespace SmallScheme

/-- An interpreter in which nothing has run: the root scope binds all built-in procedures. -/
def Interpreter.initial (files : FileTree) (settings : Settings) (input : List Char) : Interpreter :=
  { heap := Heap.ofPrimitives primitives
    files, settings
    console := { input := Text.unifyBreaks input } }

/-- Evaluates forms in order in the root scope, and gives the last value, or the value given if there is no
    form. -/
def evalProgram (last : Value) : List Value → Action Value
  | [] => pure last
  | form :: forms => do
    note .evaluation ("eval " ++ form.text)
    let v ← evaluate root form
    evalProgram v forms

/-- Reads and evaluates a program text. The empty program gives the empty list. -/
def evalText (source : List Char) : Action Value := do
  let forms ← Action.ofExcept (readAll source)
  evalProgram (.list []) forms

/-- The text that shows how an evaluation ended: the value, or the wording of an error of the language. Any other
    fault stands. -/
def report (a : Action Value) : Action String := fun i =>
  match a i with
  | .ok v after => .ok v.text after
  | .error fault after =>
    if fault.isLanguageError then .ok fault.message after else .error fault after

/-- Evaluates a program text, and shows how that ended. -/
def evalToText (source : List Char) : Action String :=
  report (evalText source)

/-- Runs a file with arguments, which the program finds as a list of strings under the name `args`. -/
def runFile (file : String) (args : List String) : Action Value := do
  let _ ← define root "args" (.list (args.map .str))
  evaluate root (.list [.sym Keyword.loading.name, .str file])

/-- The prelude a session starts with. -/
inductive Prelude where
  /-- None. -/
  | none
  /-- The one that the settings choose. -/
  | configured
  /-- A program text. -/
  | text (source : List Char)
deriving DecidableEq, Repr, Inhabited

/-- The text of the prelude that the settings choose, after recording which it is. A file that does not exist counts
    as no prelude. -/
def configuredPrelude : Action (List Char) := do
  let i ← get
  match ← Action.ofExcept i.settings.prelude with
  | .bundled =>
    note .evaluation "loading prelude from <default>"
    return preludeSource.toList
  | .file path =>
    if !(← Action.ofExcept (i.isFile path)) then return []
    note .evaluation ("loading prelude from " ++ path.toString)
    match i.files.openRead path.toString with
    | .error refusal => throw (.ofRefusal (.outOfReach path) refusal)
    | .ok place =>
      match Text.Utf8.decode ((i.files.contents? place).getD []) with
      | .error e => throw (.undecodablePrelude e)
      | .ok cs => return Text.unifyBreaks cs

/-- Starts a session: evaluates its prelude. -/
def start : Prelude → Action Unit
  | .none => pure ()
  | .configured => do
    let _ ← evalText (← configuredPrelude)
  | .text source => do
    let _ ← evalText source

end SmallScheme
