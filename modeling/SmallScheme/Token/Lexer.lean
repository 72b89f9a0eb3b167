import SmallScheme.Token
import SmallScheme.Text.Blank

/-
Module: SmallScheme.Token.Lexer
Purpose: Program text into tokens. The scanner takes one character at a time and is always in one of six modes; white
  space and comments (from a semicolon to the end of the line) separate tokens and vanish. A word goes on to
  the next blank, parenthesis, quote, double quote or semicolon. In a string a backslash takes the next
  character with it, which must not be a line feed. The only failure is a string that is never closed: nothing
  behind its opening quote becomes a token.
Main exports: Mode, Scanner, Scanner.push, Lexing, lex
-/

namespace SmallScheme

/-- What the scanner is in the middle of. Characters read so far are held newest first. -/
inductive Mode where
  /-- Between tokens. -/
  | between
  /-- In a comment. -/
  | comment
  /-- In a word that began at an offset. -/
  | word (start : Nat) (read : List Char)
  /-- In a string whose opening quote stands at an offset. -/
  | string (start : Nat) (read : List Char)
  /-- In a string, behind a backslash. -/
  | escape (start : Nat) (read : List Char)
  /-- The string that began at an offset cannot be closed any more. -/
  | broken (start : Nat)
deriving DecidableEq, Repr, Inhabited

/-- The scanner: its mode, the offset of the next character, and the tokens found, newest first. -/
structure Scanner where
  mode : Mode := .between
  offset : Nat := 0
  found : List Token := []
deriving DecidableEq, Repr, Inhabited

/-- A character that ends a word. -/
def endsWord (c : Char) : Bool :=
  Text.isBlank c || c == '(' || c == ')' || c == '\'' || c == '"' || c == ';'

/-- The token that a finished word is; a lone full stop is the dot. -/
def wordToken (start : Nat) (read : List Char) : Token :=
  { lexeme := if read = ['.'] then .dot else .word read.reverse, offset := start }

/-- What a character does between tokens: it may be a token, and it says how to go on. -/
def meet (offset : Nat) (c : Char) : List Token × Mode :=
  if Text.isBlank c then ([], .between)
  else if c = ';' then ([], .comment)
  else if c = '(' then ([⟨.openParen, offset⟩], .between)
  else if c = ')' then ([⟨.closeParen, offset⟩], .between)
  else if c = '\'' then ([⟨.quote, offset⟩], .between)
  else if c = '"' then ([], .string offset [])
  else ([], .word offset [c])

/-- What a character does in any mode: the tokens it completes, newest first, and the mode after it. -/
def Mode.step (mode : Mode) (offset : Nat) (c : Char) : List Token × Mode :=
  match mode with
  | .between => meet offset c
  | .comment => ([], if c = '\n' then .between else .comment)
  | .word start read =>
    if endsWord c then
      let (tokens, next) := meet offset c
      (tokens ++ [wordToken start read], next)
    else ([], .word start (c :: read))
  | .string start read =>
    if c = '"' then ([⟨.string read.reverse, start⟩], .between)
    else if c = '\\' then ([], .escape start read)
    else ([], .string start (c :: read))
  | .escape start read =>
    if c = '\n' then ([], .broken start) else ([], .string start (c :: '\\' :: read))
  | .broken start => ([], .broken start)

/-- Takes one more character. -/
def Scanner.push (s : Scanner) (c : Char) : Scanner :=
  let (tokens, mode) := s.mode.step s.offset c
  { mode, offset := s.offset + 1, found := tokens ++ s.found }

/-- The result of scanning: the tokens in order, and where the string begins that is never closed, if there is
    one. -/
structure Lexing where
  tokens : List Token
  unclosed? : Option Nat
deriving DecidableEq, Repr, Inhabited

/-- The end of the text: a word ends here, an open string fails. -/
def Scanner.finish (s : Scanner) : Lexing :=
  match s.mode with
  | .between | .comment => { tokens := s.found.reverse, unclosed? := none }
  | .word start read => { tokens := (wordToken start read :: s.found).reverse, unclosed? := none }
  | .string start _ | .escape start _ | .broken start =>
    { tokens := s.found.reverse, unclosed? := some start }

/-- The tokens of a text. -/
def lex (source : List Char) : Lexing :=
  (source.foldl Scanner.push {}).finish

end SmallScheme
