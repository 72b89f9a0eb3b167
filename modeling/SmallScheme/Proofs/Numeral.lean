import SmallScheme.Number

/-
Module: SmallScheme.Proofs.Numeral
Purpose: The written forms of numbers as a relation, and the decimal form among them. A numeral is recognised exactly if
  it is written as the relation says, and the decimal form of a number in range is a numeral that stands for that
  very number.
Main exports: DigitRun, Numeral.Written, Numeral.ofChars?_eq_some_iff, Numeral.ofChars?_eq_none_iff,
  Numeral.toNumber_eq_ok_iff, Numeral.written_decimal
-/

namespace SmallScheme.Number

/-- ASCII digits, at least one. -/
def DigitRun (digits : List Char) : Prop :=
  digits ≠ [] ∧ ∀ c ∈ digits, c.isDigit = true

/-- How numerals are written: digits alone or behind a plus sign, and digits behind a minus sign if negative. -/
inductive Numeral.Written : List Char → Numeral → Prop where
  | bare {digits : List Char} (run : DigitRun digits) : Written digits ⟨false, digits⟩
  | plus {digits : List Char} (run : DigitRun digits) : Written ('+' :: digits) ⟨false, digits⟩
  | minus {digits : List Char} (run : DigitRun digits) : Written ('-' :: digits) ⟨true, digits⟩

theorem digits?_eq_some_iff {cs digits : List Char} :
    digits? cs = some digits ↔ DigitRun cs ∧ cs = digits := by
  simp only [digits?, DigitRun, Bool.and_eq_true, Bool.not_eq_true', List.isEmpty_eq_false_iff,
    List.all_eq_true, Option.ite_none_right_eq_some, Option.some.injEq]

/-- Digits neither start with a plus sign nor with a minus sign. -/
theorem DigitRun.ne_cons_sign {digits : List Char} (run : DigitRun digits) (cs : List Char) :
    digits ≠ '-' :: cs ∧ digits ≠ '+' :: cs := by
  constructor
  · rintro rfl
    exact absurd (run.2 '-' List.mem_cons_self) (by decide)
  · rintro rfl
    exact absurd (run.2 '+' List.mem_cons_self) (by decide)

namespace Numeral

/-- A text is recognised as a numeral exactly if it is written as one. -/
theorem ofChars?_eq_some_iff {cs : List Char} {n : Numeral} : ofChars? cs = some n ↔ Written cs n := by
  constructor
  · intro recognised
    unfold ofChars? at recognised
    split at recognised <;>
      obtain ⟨digits, found, rfl⟩ := Option.map_eq_some_iff.1 recognised <;>
      obtain ⟨run, rfl⟩ := digits?_eq_some_iff.1 found
    · exact .minus run
    · exact .plus run
    · exact .bare run
  · intro written
    cases written with
    | bare run =>
        have noSign := run.ne_cons_sign
        unfold ofChars?
        split
        · exact absurd rfl (noSign _).1
        · exact absurd rfl (noSign _).2
        · simp [digits?_eq_some_iff.2 ⟨run, rfl⟩]
    | plus run => simp [ofChars?, digits?_eq_some_iff.2 ⟨run, rfl⟩]
    | minus run => simp [ofChars?, digits?_eq_some_iff.2 ⟨run, rfl⟩]

theorem ofChars?_eq_none_iff {cs : List Char} : ofChars? cs = none ↔ ∀ n, ¬ Written cs n := by
  rw [Option.eq_none_iff_forall_ne_some]
  exact forall_congr' fun n => not_congr ofChars?_eq_some_iff

/-- A numeral stands for its value if it is short enough to be converted and the value fits 64 bits, and else for none. -/
theorem toNumber_eq_ok_iff {numeral : Numeral} {n : Int} :
    numeral.toNumber = .ok n ↔ numeral.digits.length ≤ maxDigits ∧ InRange numeral.value ∧ numeral.value = n := by
  unfold toNumber
  split
  · simp; omega
  · split <;> simp_all

theorem digitRun_toDigits (n : Nat) : DigitRun (Nat.toDigits 10 n) :=
  ⟨Nat.toDigits_ne_nil, fun _ member => Nat.isDigit_of_mem_toDigits (by decide) (by decide) member⟩

theorem valueOfDigits_toDigits (n : Nat) : valueOfDigits (Nat.toDigits 10 n) = n :=
  Nat.ofDigitChars_ten_toDigits

/-- A number that fits 64 bits has few enough digits to be converted. -/
theorem length_toDigits_le {n : Nat} (small : n ≤ 0x8000000000000000) : (Nat.toDigits 10 n).length ≤ maxDigits := by
  have short : (Nat.toDigits 10 n).length ≤ 19 :=
    (Nat.length_toDigits_le_iff (by decide) (by decide)).2 (Nat.lt_of_le_of_lt small (by decide))
  exact Nat.le_trans short (by decide)

/-- The decimal form of a number in range is a numeral that stands for this number. -/
theorem written_decimal {n : Int} (fits : InRange n) :
    ∃ numeral, Written (decimal n) numeral ∧ numeral.toNumber = .ok n := by
  have bounds : -0x8000000000000000 ≤ n ∧ n ≤ 0x7FFFFFFFFFFFFFFF := fits
  cases n with
  | ofNat m =>
      refine ⟨⟨false, Nat.toDigits 10 m⟩, .bare (digitRun_toDigits m), ?_⟩
      simp only [Int.ofNat_eq_natCast] at fits bounds ⊢
      have short := length_toDigits_le (n := m) (by omega)
      simp [toNumber, value, valueOfDigits_toDigits, Nat.not_lt.2 short, fits]
  | negSucc m =>
      refine ⟨⟨true, Nat.toDigits 10 (m + 1)⟩, .minus (digitRun_toDigits (m + 1)), ?_⟩
      have short := length_toDigits_le (n := m + 1) (by omega)
      have same : -((m + 1 : Nat) : Int) = Int.negSucc m := rfl
      simp only [toNumber, value, valueOfDigits_toDigits, Nat.not_lt.2 short, if_true, if_false, same, fits]

end Numeral

end SmallScheme.Number
