import Mathlib.Data.Rat.Floor
import SmallScheme.Proofs.Wrapping

/-
Module: SmallScheme.Proofs.Division
Purpose: The two division pairs over all numbers of 64 bits. A pair rounds its quotients down or toward zero, and its remainder
  is what the rounded quotient leaves of the dividend: less than the divisor in size, and with the sign of the divisor if
  quotients are rounded down, of the dividend if toward zero. Only the quotient of the least number by -1 does not fit, and
  wraps back to the least number; quotient and remainder give the dividend again even then, since sums and products of
  wrapped numbers wrap the same.
Main exports: Rounding, Rounding.round, Rounding.rest, Rounding.exact_quotient, Rounding.rest_bounds,
  Number.inRange_quotient_iff, Rounding.call_quotient, Rounding.call_remainder, Rounding.recombined, division_pairs
-/

namespace SmallScheme

open Number (InRange wrap least)

/-- How the quotients of a division pair are rounded. -/
inductive Rounding where
  | down
  | towardZero
deriving DecidableEq, Repr, Inhabited

namespace Rounding

/-- The integer to which a fraction is rounded. -/
def round : Rounding → ℚ → Int
  | .down, x => ⌊x⌋
  | .towardZero, x => if 0 ≤ x then ⌊x⌋ else ⌈x⌉

/-- What the rounded quotient leaves of the dividend. -/
def rest (rounding : Rounding) (a b : Int) : Int :=
  a - b * rounding.round (a / b)

/-- The operation that gives the quotients. -/
def quotient : Rounding → Arithmetic
  | .down => .divide
  | .towardZero => .quotient

/-- The operation that gives the remainders. -/
def remainder : Rounding → Arithmetic
  | .down => .modulo
  | .towardZero => .remainder

/-- The operand of which a remainder has the sign. -/
def signed : Rounding → Int → Int → Int
  | .down, _, b => b
  | .towardZero, a, _ => a

/-!
### Exact division
-/

theorem floor_div (a b : Int) : ⌊(a : ℚ) / b⌋ = a.fdiv b := by
  have natural : ∀ (a : Int) (n : Nat), ⌊(a : ℚ) / (n : Int)⌋ = a.fdiv n := by
    intro a n
    rw [Int.fdiv_eq_ediv_of_nonneg a (Int.natCast_nonneg n)]
    exact Rat.floor_intCast_div_natCast a n
  obtain ⟨n, rfl | rfl⟩ := b.eq_nat_or_neg
  · exact natural a n
  · have same := natural (-a) n
    rw [← Int.neg_fdiv_neg, Int.neg_neg, ← same, Int.cast_neg, Int.cast_neg, neg_div, div_neg]

/-- Rounding down and toward zero are the same for fractions that are not negative. -/
theorem fdiv_eq_tdiv_of_div_nonneg {a b : Int} (nonneg : 0 ≤ (a : ℚ) / b) : a.fdiv b = a.tdiv b := by
  rcases div_nonneg_iff.1 nonneg with ⟨first, second⟩ | ⟨first, second⟩ <;> norm_cast at first second
  · exact Int.fdiv_eq_tdiv_of_nonneg first second
  · rw [← Int.neg_fdiv_neg, ← Int.neg_tdiv_neg]
    exact Int.fdiv_eq_tdiv_of_nonneg (by omega) (by omega)

theorem exact_quotient (rounding : Rounding) (a b : Int) :
    rounding.quotient.exact a b = rounding.round ((a : ℚ) / b) := by
  cases rounding with
  | down => exact (floor_div a b).symm
  | towardZero =>
      rw [round]
      split
      · rename_i nonneg
        rw [floor_div, fdiv_eq_tdiv_of_div_nonneg nonneg]
        rfl
      · rename_i negative
        -- A negative fraction is rounded up, so its negative is rounded down.
        have nonneg : 0 ≤ ((-a : Int) : ℚ) / b := by
          rw [Int.cast_neg, neg_div]
          exact (neg_nonneg.2 (not_le.1 negative).le)
        have opposite : ⌊((-a : Int) : ℚ) / b⌋ = -⌈(a : ℚ) / b⌉ := by rw [Int.cast_neg, neg_div, Int.floor_neg]
        rw [floor_div, fdiv_eq_tdiv_of_div_nonneg nonneg, Int.neg_tdiv] at opposite
        exact Int.neg_inj.1 opposite

theorem exact_remainder (rounding : Rounding) (a b : Int) : rounding.remainder.exact a b = rounding.rest a b := by
  rw [rest, ← exact_quotient]
  cases rounding with
  | down => exact Int.fmod_def a b
  | towardZero => exact Int.tmod_def a b

/-- A remainder is less than the divisor in size, and zero or of the sign that the rounding gives it. -/
theorem rest_bounds (rounding : Rounding) (a : Int) {b : Int} (nonzero : b ≠ 0) :
    |rounding.rest a b| < |b| ∧ (rounding.rest a b = 0 ∨ (rounding.rest a b).sign = (rounding.signed a b).sign) := by
  rw [← exact_remainder]
  cases rounding with
  | down =>
      change |a.fmod b| < |b| ∧ (a.fmod b = 0 ∨ (a.fmod b).sign = b.sign)
      rcases lt_or_gt_of_ne nonzero with negative | positive
      · have low := Int.fmod_nonneg_of_pos (-a) (Int.neg_pos.2 negative)
        have high := Int.fmod_lt_of_pos (-a) (Int.neg_pos.2 negative)
        rw [Int.neg_fmod_neg] at low high
        rw [abs_of_nonpos (by omega), abs_of_neg negative, Int.sign_eq_neg_one_of_neg negative, Int.sign_eq_neg_one_iff_neg]
        omega
      · have low := Int.fmod_nonneg_of_pos a positive
        have high := Int.fmod_lt_of_pos a positive
        rw [abs_of_nonneg low, abs_of_pos positive, Int.sign_eq_one_of_pos positive, Int.sign_eq_one_iff_pos]
        omega
  | towardZero =>
      change |a.tmod b| < |b| ∧ (a.tmod b = 0 ∨ (a.tmod b).sign = a.sign)
      constructor
      · rw [Int.abs_eq_natAbs, Int.abs_eq_natAbs, Int.natAbs_tmod, Int.ofNat_lt]
        exact Nat.mod_lt _ (Int.natAbs_pos.2 nonzero)
      · rw [Int.sign_tmod]
        split
        · rename_i divides
          exact .inl (Int.tmod_eq_zero_of_dvd divides)
        · exact .inr rfl

end Rounding

/-!
### Numbers of 64 bits
-/

/-- A quotient fits 64 bits unless it is that of the least number by -1. -/
theorem Number.inRange_quotient_iff {a b q r : Int} (dividend : InRange a) (nonzero : b ≠ 0) (whole : b * q + r = a)
    (small : |r| < |b|) : InRange q ↔ ¬ (a = least ∧ b = -1) := by
  simp only [InRange, least, greatest] at dividend ⊢
  by_cases unit : |b| = 1
  · -- Nothing is left of the dividend, and the quotient is the dividend or its negative.
    have noRest : r = 0 := by
      rw [unit] at small
      exact Int.abs_lt_one_iff.1 small
    rcases (abs_eq Int.one_nonneg).1 unit with rfl | rfl <;> omega
  · have large : 2 ≤ |b| := by
      have := abs_pos.2 nonzero
      omega
    have product : |b| * |q| < 0x8000000000000000 + |b| := by
      rw [← abs_mul]
      rcases abs_cases (b * q) with ⟨same, _⟩ | ⟨same, _⟩ <;> rcases abs_lt.1 small with ⟨_, _⟩ <;> omega
    have fits : |q| < 0x8000000000000000 := by
      by_contra tooLarge
      have := Int.mul_le_mul_of_nonneg_left (Int.not_lt.1 tooLarge) (abs_nonneg b)
      omega
    have otherDivisor : b ≠ -1 := by
      rintro rfl
      exact unit rfl
    rcases abs_lt.1 fits with ⟨low, high⟩
    exact iff_of_true (by omega) fun exceptional => otherDivisor exceptional.2

namespace Rounding

variable (rounding : Rounding) {a b : Int}

theorem whole (a b : Int) : b * rounding.round (a / b) + rounding.rest a b = a := by
  rw [rest, add_sub_cancel]

/-- The quotient of the least number by -1 does not fit. -/
theorem round_least : rounding.round ((least : Int) / (-1 : Int)) = 2 ^ 63 := by
  rw [← exact_quotient]
  cases rounding <;> rfl

/-- A quotient of numbers is the rounded one, but for the least number by -1, where 2^63 wraps to the least number. -/
theorem call_quotient (dividend : InRange a) (nonzero : b ≠ 0) :
    rounding.quotient.call [.num a, .num b] =
      .ok (.num (if a = least ∧ b = -1 then least else rounding.round (a / b))) := by
  rw [Arithmetic.call_numbers fun zero => nonzero zero.2, exact_quotient]
  have fits := Number.inRange_quotient_iff dividend nonzero (rounding.whole a b) (rounding.rest_bounds a nonzero).1
  split
  · rename_i exceptional
    rw [exceptional.1, exceptional.2, round_least]
    rfl
  · rename_i ordinary
    rw [Number.wrap_eq_self (fits.2 ordinary)]

/-- A remainder of numbers is what the rounded quotient leaves. -/
theorem call_remainder (divisor : InRange b) (nonzero : b ≠ 0) :
    rounding.remainder.call [.num a, .num b] = .ok (.num (rounding.rest a b)) := by
  have fits : InRange (rounding.rest a b) := by
    obtain ⟨low, high⟩ := abs_lt.1 (rounding.rest_bounds a nonzero).1
    simp only [InRange, least, Number.greatest] at divisor ⊢
    rcases abs_cases b with ⟨same, _⟩ | ⟨same, _⟩ <;> omega
  rw [Arithmetic.call_numbers fun zero => nonzero zero.2, exact_remainder, Number.wrap_eq_self fits]

/-- The divisor times the quotient, and the remainder added, all by operations that wrap. -/
def recombined (a b : Value) : Except Fault Value := do
  let q ← rounding.quotient.call [a, b]
  let p ← Arithmetic.multiply.call [b, q]
  let r ← rounding.remainder.call [a, b]
  Arithmetic.add.call [p, r]

/-- Quotient and remainder give the dividend again. -/
theorem recombined_numbers (dividend : InRange a) (divisor : InRange b) (nonzero : b ≠ 0) :
    rounding.recombined (.num a) (.num b) = .ok (.num a) := by
  obtain ⟨q, divided, congruent⟩ : ∃ q, rounding.quotient.call [.num a, .num b] = .ok (.num q) ∧
      q ≡ rounding.round (a / b) [ZMOD 2 ^ 64] := by
    refine ⟨_, Arithmetic.call_numbers fun zero => nonzero zero.2, ?_⟩
    rw [exact_quotient]
    exact Number.wrap_modEq _
  have same : wrap (b * q) + rounding.rest a b ≡ a [ZMOD 2 ^ 64] :=
    calc
      wrap (b * q) + rounding.rest a b
      _ ≡ b * q + rounding.rest a b [ZMOD 2 ^ 64] := (Number.wrap_modEq _).add_right _
      _ ≡ b * rounding.round (a / b) + rounding.rest a b [ZMOD 2 ^ 64] := (congruent.mul_left b).add_right _
      _ = a := rounding.whole a b
  have product : Arithmetic.multiply.call [.num b, .num q] = .ok (.num (wrap (b * q))) :=
    Arithmetic.call_numbers fun zero => absurd zero.1 (by decide)
  have sum : Arithmetic.add.call [.num (wrap (b * q)), .num (rounding.rest a b)] =
      .ok (.num (wrap (wrap (b * q) + rounding.rest a b))) :=
    Arithmetic.call_numbers fun zero => absurd zero.1 (by decide)
  simp only [recombined, divided, product, rounding.call_remainder divisor nonzero, sum, bind, Except.bind]
  rw [Number.wrap_eq_wrap_iff.2 same, Number.wrap_eq_self dividend]

end Rounding

/-- The division pairs on numbers of 64 bits. Quotients are rounded down or toward zero; only the least number divided by -1
    has one that does not fit, 2^63, and wraps to the least number. Remainders never wrap: they are what the rounded
    quotient leaves of the dividend, less than the divisor in size, and zero or of the sign of the divisor if quotients are
    rounded down, of the dividend if toward zero. The divisor times the quotient, and the remainder added, give the
    dividend, also where the quotient wraps. -/
theorem division_pairs (rounding : Rounding) (a b : Int) (dividend : InRange a) (divisor : InRange b) (nonzero : b ≠ 0) :
    rounding.quotient.call [.num a, .num b] =
      .ok (.num (if a = least ∧ b = -1 then least else rounding.round ((a : ℚ) / (b : ℚ)))) ∧
    (InRange (rounding.round ((a : ℚ) / (b : ℚ))) ↔ ¬ (a = least ∧ b = -1)) ∧
    rounding.remainder.call [.num a, .num b] = .ok (.num (rounding.rest a b)) ∧
    |rounding.rest a b| < |b| ∧
    (rounding.rest a b = 0 ∨ (rounding.rest a b).sign = (rounding.signed a b).sign) ∧
    rounding.recombined (.num a) (.num b) = .ok (.num a) := by
  have bounds := rounding.rest_bounds a nonzero
  have fits := Number.inRange_quotient_iff dividend nonzero (rounding.whole a b) bounds.1
  exact ⟨rounding.call_quotient dividend nonzero, fits, rounding.call_remainder divisor nonzero, bounds.1, bounds.2,
    rounding.recombined_numbers dividend divisor nonzero⟩

theorem division_pairs_least :
    InRange least ∧ InRange (-1) ∧ (-1 : Int) ≠ 0 ∧
      Arithmetic.quotient.call [.num least, .num (-1)] = .ok (.num least) ∧
      Rounding.towardZero.recombined (.num least) (.num (-1)) = .ok (.num least) ∧
      Rounding.down.recombined (.num least) (.num (-1)) = .ok (.num least) := by
  have dividend : InRange least := by decide
  have divisor : InRange (-1) := by decide
  have nonzero : (-1 : Int) ≠ 0 := by decide
  obtain ⟨quotient, _, _, _, _, recombined⟩ := division_pairs .towardZero least (-1) dividend divisor nonzero
  obtain ⟨_, _, _, _, _, recombinedDown⟩ := division_pairs .down least (-1) dividend divisor nonzero
  exact ⟨dividend, divisor, nonzero, quotient, recombined, recombinedDown⟩

end SmallScheme
