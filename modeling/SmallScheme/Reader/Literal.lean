import SmallScheme.Reader.Problem
import SmallScheme.Number
import SmallScheme.Value

/-
Module: SmallScheme.Reader.Literal
Purpose: The meaning of single tokens. A word is a truth value, a number or a symbol, tried in this order, and
  otherwise invalid; what has the form of a number never becomes a symbol, even if it does not fit. The body of a
  string is taken character by character, an escape standing for one character.
Main exports: escapeValue?, unescape, isSymbolStart, isSymbolPart, isSymbolName, wordValue, stringValue
-/

namespace SmallScheme.Reader

/-- The character that an escape stands for. -/
def escapeValue? : Char → Option Char
  | '"' => some '"'
  | '\\' => some '\\'
  | 'n' => some '\n'
  | 't' => some '\t'
  | 'r' => some '\r'
  | _ => none

/-- The text that the body of a string denotes, or the first character that no escape allows behind a
    backslash. -/
def unescape : List Char → Except Char (List Char)
  | [] => .ok []
  | ['\\'] => .error '\\'
  | '\\' :: c :: cs =>
    match escapeValue? c with
    | none => .error c
    | some d => (unescape cs).map (d :: ·)
  | c :: cs => (unescape cs).map (c :: ·)

/-- The characters besides ASCII letters with which a symbol may start. -/
def symbolMarks : List Char :=
  "!#$%&|*+-/:<=>?@^_~".toList

/-- A character with which a symbol may start. -/
def isSymbolStart (c : Char) : Bool :=
  c.isAlpha || symbolMarks.contains c

/-- A character that may follow in a symbol. -/
def isSymbolPart (c : Char) : Bool :=
  isSymbolStart c || c.isDigit

/-- Whether a word has the form of a symbol. -/
def isSymbolName : List Char → Bool
  | [] => false
  | c :: cs => isSymbolStart c && cs.all isSymbolPart

/-- The value of a word; the token is where a failure is reported. -/
def wordValue (token : Token) (chars : List Char) : Except Failure Value :=
  if chars = ['#', 't'] then .ok (.bool true)
  else if chars = ['#', 'f'] then .ok (.bool false)
  else match Number.Numeral.ofChars? chars with
    | some numeral =>
      match numeral.toNumber with
      | .ok n => .ok (.num n)
      | .error .outOfRange => .error (.unreadable (.integerOutOfRange chars) (some token))
      | .error (.tooLong digits) => .error (.numeralTooLong digits)
    | none =>
      if isSymbolName chars then .ok (.sym (String.ofList chars))
      else .error (.unreadable (.invalidToken chars) (some token))

/-- The value of a string literal with the given body; the token is where a failure is reported. -/
def stringValue (token : Token) (body : List Char) : Except Failure Value :=
  match unescape body with
  | .ok cs => .ok (.str (String.ofList cs))
  | .error c => .error (.unreadable (.unknownEscape c) (some token))

end SmallScheme.Reader
