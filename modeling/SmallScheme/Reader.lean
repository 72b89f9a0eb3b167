import SmallScheme.Fault
import SmallScheme.Reader.Machine
import SmallScheme.Token.Lexer

/-
Module: SmallScheme.Reader
Purpose: Program texts as values. A text is cut into tokens first, so a string that is never closed is reported before
  anything is read.
Main exports: tokenize, read, readAll
-/

namespace SmallScheme

/-- The tokens of a text, or the fault at the string that is never closed. -/
def tokenize (source : List Char) : Except Fault (List Token) :=
  let lexing := lex source
  match lexing.unclosed? with
  | none => .ok lexing.tokens
  | some offset => .error (.unreadable .unterminatedString (Text.Place.ofOffset source offset))

/-- Reads exactly one value. -/
def read (source : List Char) : Except Fault Value := do
  let tokens ← tokenize source
  match Reader.parse tokens with
  | (.error failure, _) => throw (Fault.ofReader source failure)
  | (.ok v, []) => return v
  | (.ok _, t :: _) => throw (Fault.ofReader source (.unreadable .expectedEnd (some t)))

/-- Reads all values of a text; there may be none. -/
def readAll (source : List Char) : Except Fault (List Value) := do
  let tokens ← tokenize source
  match Reader.parseAll tokens with
  | .error failure => throw (Fault.ofReader source failure)
  | .ok vs => return vs

end SmallScheme
