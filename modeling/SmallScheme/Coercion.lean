import SmallScheme.Fault
import SmallScheme.Text.Blank

/-
Module: SmallScheme.Coercion
Purpose: Weak typing. A numeric procedure takes numbers, strings that hold a numeral between white space, and lists
  whose only element it can take; a string procedure takes strings, truth values and numbers; a truth-value
  procedure takes truth values alone. What cannot be taken is named in the fault, for a list of one element the
  element inside.
Main exports: toNumber, toText, toTruth
-/

namespace SmallScheme

/-- The number that a string holds, if it holds one. -/
def numberIn (s : String) : Except Fault Int :=
  match Number.Numeral.ofChars? (Text.trim s.toList) with
  | none => .error (.wrongKind .number (.str s))
  | some numeral =>
    match numeral.toNumber with
    | .ok n => .ok n
    | .error .outOfRange => .error (.wrongKind .number (.str s))
    | .error (.tooLong digits) => .error (.numeralTooLong digits)

/-- A value as a number. -/
def toNumber : Value → Except Fault Int
  | .num n => .ok n
  | .str s => numberIn s
  | .list [v] => toNumber v
  | v => .error (.wrongKind .number v)
termination_by structural v => v

/-- A value as a text. -/
def toText : Value → Except Fault String
  | .str s => .ok s
  | .bool true => .ok "true"
  | .bool false => .ok "false"
  | .num n => .ok (String.ofList (Number.decimal n))
  | v => .error (.wrongKind .string v)

/-- A value as a truth value. -/
def toTruth : Value → Except Fault Bool
  | .bool b => .ok b
  | v => .error (.wrongKind .boolean v)

end SmallScheme
