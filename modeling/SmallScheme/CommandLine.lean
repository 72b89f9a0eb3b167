import SmallScheme.CommandLine.Arguments
import SmallScheme.Prompt

/-
Module: SmallScheme.CommandLine
Purpose: The command as an action on an interpreter: run a program file, or hold a conversation on the standard streams. The
  result is an exit status; all text goes to the console of the interpreter. Ports that a program leaves open are
  closed at the end.
Main exports: usageText, helpText, CommandLine.execute
-/

namespace SmallScheme.CommandLine

/-- The form of a call of the command. -/
def usageText : String :=
  "usage: kappa [-h] [--no-prelude] [-v] [file] ...\n"

/-- The help text. -/
def helpText : String :=
  usageText ++ "
A small Scheme interpreter

positional arguments:
  file           program to run; starts the REPL if omitted
  args           bound to `args` as strings

options:
  -h, --help     show this help message and exit
  --no-prelude   skip the standard library
  -v, --verbose  debug logging
"

/-- Runs a program file. An error of the language is written as a line of diagnostics. -/
def runProgram (file : String) (args : List String) : Action Nat := fun i =>
  match runFile file args i with
  | .ok _ after => .ok 0 after
  | .error fault after =>
    if fault.isLanguageError then (do printDiagnostic fault.message; return 1 : Action Nat) after
    else .error fault after

/-- The largest recursion limit with which a program can be run. -/
def maxRecursionLimit : Nat :=
  0x7FFFFFFF

/-- Runs the program file of an invocation, or without one holds a conversation, and gives the exit status. -/
def runOrConverse (invocation : Invocation) : Action Nat :=
  match invocation.file? with
  | some file => runProgram file invocation.args
  | none => do
    converseOnInput
    return 0

/-- Does what an invocation asks for, and gives the exit status. However the program or the conversation ends, its
    ports are closed. -/
def invoke (invocation : Invocation) : Action Nat := do
  modify fun i => { i with console := { i.console with verbose := invocation.verbose } }
  let i ← get
  let limit ← Action.ofExcept i.settings.recursionLimit
  if maxRecursionLimit < limit then throw .recursionLimitTooLarge
  start (if invocation.prelude then .configured else .none)
  try runOrConverse invocation
  finally closeAll

/-- Runs the command with arguments, and gives the exit status. -/
def execute (args : List String) : Action Nat :=
  match parseArguments args with
  | .run invocation => invoke invocation
  | .help => do
    printOut helpText
    return 0
  | .wrong message => do
    modify fun i =>
      { i with console := { i.console with diagnostics := i.console.diagnostics ++ usageText } }
    printDiagnostic ("kappa: error: " ++ message)
    return 2

end SmallScheme.CommandLine
