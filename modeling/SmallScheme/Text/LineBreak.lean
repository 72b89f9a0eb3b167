/-
Module: SmallScheme.Text.LineBreak
Purpose: Line breaks of text that comes from outside. Files and standard input may end a line by line feed,
  by carriage return, or by the two together; inside the program each of them is one line feed.
Main exports: unifyBreaks, holdReturn, takeLine
-/

namespace SmallScheme.Text

/-- The text with every carriage return, and every carriage return together with the line feed after it,
    turned into one line feed. -/
def unifyBreaks : List Char → List Char
  | [] => []
  | '\r' :: '\n' :: cs => '\n' :: unifyBreaks cs
  | c :: cs => (if c = '\r' then '\n' else c) :: unifyBreaks cs

/-- Text without carriage returns is kept as it is. -/
theorem unifyBreaks_eq_self {cs : List Char} (h : '\r' ∉ cs) : unifyBreaks cs = cs := by
  fun_induction unifyBreaks cs with
  | case1 => rfl
  | case2 cs ih => simp at h
  | case3 c cs _ ih =>
    simp only [List.mem_cons, not_or] at h
    simp [Ne.symm h.1, ih h.2]

/-- Splits off a carriage return at the very end of a piece of text: whether it is a line break of its own is
    known only when the next piece arrives. -/
def holdReturn (cs : List Char) : List Char × Bool :=
  if cs.getLast? = some '\r' then (cs.dropLast, true) else (cs, false)

/-- Splits a text after its first line feed; the line is everything if there is none. -/
def takeLine (cs : List Char) : List Char × List Char :=
  match cs.dropWhile (· != '\n') with
  | [] => (cs, [])
  | _ :: rest => (cs.takeWhile (· != '\n') ++ ['\n'], rest)

end SmallScheme.Text
