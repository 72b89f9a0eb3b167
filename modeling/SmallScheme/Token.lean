/-
Module: SmallScheme.Token
Purpose: The words of a program text. A token is a lexeme and the offset of its first character. Strings are kept as
  they stand between their quotes, escapes included; what a string or a word means is for the reader.
Main exports: Lexeme, Lexeme.chars, Token
-/

namespace SmallScheme

/-- A lexeme: punctuation, the raw body of a string literal, or a word. -/
inductive Lexeme where
  | openParen
  | closeParen
  | quote
  | dot
  | string (body : List Char)
  | word (chars : List Char)
deriving DecidableEq, Repr, Inhabited

/-- The characters that a lexeme takes up in the source. -/
def Lexeme.chars : Lexeme → List Char
  | .openParen => ['(']
  | .closeParen => [')']
  | .quote => ['\'']
  | .dot => ['.']
  | .string body => '"' :: body ++ ['"']
  | .word cs => cs

/-- A lexeme and where it starts, counted in characters from zero. -/
structure Token where
  lexeme : Lexeme
  offset : Nat
deriving DecidableEq, Repr, Inhabited

/-- The offset just behind a token. -/
def Token.stop (t : Token) : Nat :=
  t.offset + t.lexeme.chars.length

end SmallScheme
