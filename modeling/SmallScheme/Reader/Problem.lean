import SmallScheme.Token
import SmallScheme.Text.Place
import SmallScheme.Text.Quoted

/-
Module: SmallScheme.Reader.Problem
Purpose: What can be wrong with a program text, and where. A failure of the reader is either a problem at a token (or
  at the end of the text), or a numeral too long to be converted at all; the latter is no parse error of the
  language, and the place of it is not reported.
Main exports: Problem, Problem.reason, Failure, Failure.offset
-/

namespace SmallScheme.Reader

/-- A reason why a text cannot be read. -/
inductive Problem where
  | unterminatedString
  | unexpectedEnd
  | unexpectedClose
  | unexpectedDot
  | unmatchedOpen
  | dotWithoutHead
  | expectedClose
  | expectedEnd
  | integerOutOfRange (chars : List Char)
  | invalidToken (chars : List Char)
  | unknownEscape (c : Char)
deriving DecidableEq, Repr, Inhabited

/-- The wording of a problem. -/
def Problem.reason : Problem → String
  | .unterminatedString => "unterminated string literal"
  | .unexpectedEnd => "unexpected end of input"
  | .unexpectedClose => "unexpected ')'"
  | .unexpectedDot => "unexpected '.'"
  | .unmatchedOpen => "unmatched '('"
  | .dotWithoutHead => "expected an expression before '.'"
  | .expectedClose => "expected ')' after dotted tail"
  | .expectedEnd => "expected end of input"
  | .integerOutOfRange cs => "integer literal out of range: " ++ String.ofList cs
  | .invalidToken cs => "invalid token " ++ String.ofList (Text.quoted cs)
  | .unknownEscape c => "unknown string escape '\\" ++ String.ofList [c] ++ "'"

/-- Why reading stopped. -/
inductive Failure where
  /-- A problem at a token, or at the end of the text. -/
  | unreadable (problem : Problem) (token? : Option Token)
  /-- A numeral with more digits than are ever converted. -/
  | numeralTooLong (digits : Nat)
deriving DecidableEq, Repr, Inhabited

/-- The place of a token in a source, or of its end. -/
def placeOf (source : List Char) : Option Token → Text.Place
  | some t => Text.Place.ofOffset source t.offset
  | none => Text.Place.ofOffset source source.length

end SmallScheme.Reader
