import SmallScheme.Session

/-
Module: SmallScheme.Prompt
Purpose: The interactive loop. Each line is answered on its own: a line that says `quit` ends the conversation, a blank one
  is passed over, any other is evaluated and answered by one line, the value or the wording of the error. Errors of
  the language never end the loop.
Main exports: Reply, respond, Transcript, converse, converseOnInput
-/

namespace SmallScheme

/-- What a line leads to. -/
inductive Reply where
  /-- The end of the conversation. -/
  | farewell
  /-- Nothing, for a blank line. -/
  | silence
  /-- A line of output. -/
  | answer (text : String)
deriving DecidableEq, Repr, Inhabited

/-- Answers a line. -/
def respond (line : List Char) : Action Reply :=
  let words := Text.trim line
  if words = "quit".toList then pure .farewell
  else if words = [] then pure .silence
  else do return .answer (← evalToText line)

/-- What a conversation leaves: the answers, and how often the prompt was shown. -/
structure Transcript where
  answers : List String := []
  prompts : Nat := 0
deriving DecidableEq, Repr, Inhabited

/-- Answers lines up to one that ends the conversation, or all of them; at their end the prompt is shown once
    more. -/
def answerLines : List (List Char) → Action Transcript
  | [] => pure { prompts := 1 }
  | line :: lines => do
    match ← respond line with
    | .farewell => return { prompts := 1 }
    | .silence =>
      let later ← answerLines lines
      return { later with prompts := later.prompts + 1 }
    | .answer text =>
      let later ← answerLines lines
      return { answers := text :: later.answers, prompts := later.prompts + 1 }

/-- A conversation over given lines. -/
def converse (lines : List (List Char)) : Action Transcript := do
  let transcript ← answerLines lines
  note .prompting "repl finished"
  return transcript

/-- A line without the line feed at its end. -/
def dropLineFeed (line : List Char) : List Char :=
  if line.getLast? = some '\n' then line.dropLast else line

/-- Prompts, reads and answers on the standard streams, at most the given number of times. The program under
    evaluation may read from the same input. -/
def answerInput (prompt : String) : Nat → Action Unit
  | 0 => pure ()
  | rounds + 1 => do
    printOut prompt
    let line ← readLineIn
    if line = [] then return ()
    match ← respond (dropLineFeed line) with
    | .farewell => return ()
    | .silence => answerInput prompt rounds
    | .answer text =>
      printOut (text ++ "\n")
      answerInput prompt rounds

/-- A conversation on the standard streams. Every round takes at least one character of the input. -/
def converseOnInput : Action Unit := do
  let i ← get
  answerInput i.settings.promptText (i.console.input.length + 1)
  note .prompting "repl finished"

end SmallScheme
