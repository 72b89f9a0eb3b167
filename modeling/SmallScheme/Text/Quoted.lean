import SmallScheme.Text.Printable

/-
Module: SmallScheme.Text.Quoted
Purpose: Text quoted for a diagnostic. The quote is the apostrophe, except that text which holds an apostrophe
  and no double quote is put between double quotes. The chosen quote and the backslash are written behind a
  backslash, line feed, carriage return and tab as `\n`, `\r`, `\t`, and any other character that is not
  printable by its code point: two hexadecimal digits after `\x`, four after `\u`, eight after `\U`.
Main exports: quoteFor, escape, quoted
-/

namespace SmallScheme.Text

/-- A number in lower-case hexadecimal, on at least the given count of digits. -/
def hexadecimal (width n : Nat) : List Char :=
  let digits := Nat.toDigits 16 n
  List.replicate (width - digits.length) '0' ++ digits

/-- The quote that surrounds a text: `"` if the text holds `'` and no `"`, and `'` otherwise. -/
def quoteFor (cs : List Char) : Char :=
  if cs.contains '\'' && !cs.contains '"' then '"' else '\''

/-- One character inside the given quote. -/
def escape (quote c : Char) : List Char :=
  if c = quote ∨ c = '\\' then ['\\', c]
  else if c = '\n' then ['\\', 'n']
  else if c = '\r' then ['\\', 'r']
  else if c = '\t' then ['\\', 't']
  else if isPrintable c then [c]
  else if c.toNat < 0x100 then '\\' :: 'x' :: hexadecimal 2 c.toNat
  else if c.toNat < 0x10000 then '\\' :: 'u' :: hexadecimal 4 c.toNat
  else '\\' :: 'U' :: hexadecimal 8 c.toNat

/-- The text between quotes, with its characters escaped. -/
def quoted (cs : List Char) : List Char :=
  let quote := quoteFor cs
  quote :: cs.flatMap (escape quote) ++ [quote]

end SmallScheme.Text
