/-
Module: SmallScheme.Number
Purpose: The numbers of the language and how they are written. A number is a signed 64-bit integer: results of
  arithmetic wrap around, written numbers must fit. A numeral is an optional sign before at least one ASCII digit;
  the reader and the coercion of strings use the same numerals.
Main exports: InRange, wrap, Numeral, Numeral.ofChars?, Numeral.toNumber, decimal
-/

namespace SmallScheme.Number

/-- The least number, -2^63. -/
def least : Int := -0x8000000000000000

/-- The greatest number, 2^63 - 1. -/
def greatest : Int := 0x7FFFFFFFFFFFFFFF

/-- A number that 64 signed bits hold. -/
def InRange (n : Int) : Prop :=
  least ≤ n ∧ n ≤ greatest

instance (n : Int) : Decidable (InRange n) :=
  inferInstanceAs (Decidable (_ ∧ _))

/-- The number in range that differs from `n` by a multiple of 2^64. -/
def wrap (n : Int) : Int :=
  n.bmod 0x10000000000000000

/-- Wrapping leads into the range. -/
theorem inRange_wrap (n : Int) : InRange (wrap n) := by
  have low := Int.le_bmod (x := n) (m := 0x10000000000000000) (by decide)
  have high := Int.bmod_lt (x := n) (m := 0x10000000000000000) (by decide)
  simp only [InRange, least, greatest, wrap]
  omega

/-- Wrapping keeps what is in range. -/
theorem wrap_eq_self {n : Int} (h : InRange n) : wrap n = n := by
  simp only [InRange, least, greatest] at h
  exact Int.bmod_eq_of_le (by omega) (by omega)

/-- A written number: whether a minus sign stands before it, and its digits. -/
structure Numeral where
  negative : Bool
  digits : List Char
deriving DecidableEq, Repr, Inhabited

/-- Digits alone, if there is one and nothing else. -/
def digits? (cs : List Char) : Option (List Char) :=
  if !cs.isEmpty && cs.all Char.isDigit then some cs else none

/-- Recognises a numeral: an optional sign, then at least one ASCII digit, and nothing else. -/
def Numeral.ofChars? : List Char → Option Numeral
  | '-' :: cs => (digits? cs).map (⟨true, ·⟩)
  | '+' :: cs => (digits? cs).map (⟨false, ·⟩)
  | cs => (digits? cs).map (⟨false, ·⟩)

/-- The number that ASCII digits denote, the most significant first. -/
def valueOfDigits (digits : List Char) : Nat :=
  digits.foldl (fun n c => 10 * n + (c.toNat - '0'.toNat)) 0

/-- The integer that a numeral denotes. -/
def Numeral.value (n : Numeral) : Int :=
  if n.negative then -(valueOfDigits n.digits : Int) else valueOfDigits n.digits

/-- The greatest count of digits, leading zeros included, that is converted to an integer at all. -/
def maxDigits : Nat := 4300

/-- Why a numeral is not a number of the language. -/
inductive NumeralFault where
  /-- It does not fit 64 signed bits. -/
  | outOfRange
  /-- It has more than `maxDigits` digits, namely this many. -/
  | tooLong (digits : Nat)
deriving DecidableEq, Repr, Inhabited

/-- The number that a numeral stands for. -/
def Numeral.toNumber (n : Numeral) : Except NumeralFault Int :=
  if maxDigits < n.digits.length then .error (.tooLong n.digits.length)
  else if InRange n.value then .ok n.value
  else .error .outOfRange

/-- The decimal form of an integer: the digits, after a minus sign if it is negative. -/
def decimal : Int → List Char
  | .ofNat n => Nat.toDigits 10 n
  | .negSucc n => '-' :: Nat.toDigits 10 (n + 1)

end SmallScheme.Number
