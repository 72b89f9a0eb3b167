import SmallScheme.Proofs.Coercions
import SmallScheme.Proofs.Operations

/-
Module: SmallScheme.Proofs.Arithmetic
Purpose: What a call of arithmetic comes to. A step is exact arithmetic wrapped afterwards, and only division by zero makes it
  fail; a call fails for the count of its arguments first, then for the first that is taken as no number, and only then for
  a zero among the numbers by which it divides. All arguments are coerced before anything is computed, so a zero never hides
  an argument of the wrong kind behind it. What does not fail gives a number of 64 bits.
Main exports: Arithmetic.divisions, Arithmetic.exact, Arithmetic.combine_eq, Arithmetic.call_of_takenAs,
  Arithmetic.call_eq_error_iff, Arithmetic.outcome_of_call
-/

namespace SmallScheme

open Value (TakenAs IsNumeric FirstRefused)

namespace Arithmetic

/-- The operations that divide. -/
def divisions : List Arithmetic :=
  [.divide, .modulo, .quotient, .remainder]

/-- The result of one step among the integers, without a bound. -/
def exact : Arithmetic → Int → Int → Int
  | .add, a, b => a + b
  | .subtract, a, b => a - b
  | .multiply, a, b => a * b
  | .divide, a, b => a.fdiv b
  | .modulo, a, b => a.fmod b
  | .quotient, a, b => a.tdiv b
  | .remainder, a, b => a.tmod b

variable {op : Arithmetic}

/-- A step is the exact one, wrapped, unless it divides by zero. -/
theorem combine_eq (op : Arithmetic) (a b : Int) :
    op.combine a b =
      if op ∈ divisions ∧ b = 0 then .error .divisionByZero else .ok (Number.wrap (op.exact a b)) := by
  cases op <;> simp [combine, exact, divisions]

/-- A fold fails exactly at a zero by which it divides. -/
theorem foldlM_combine_eq_error_iff {ns : List Int} {n : Int} {fault : Fault} :
    ns.foldlM op.combine n = .error fault ↔ op ∈ divisions ∧ 0 ∈ ns ∧ fault = .divisionByZero := by
  induction ns generalizing n with
  | nil => simp [pure, Except.pure]
  | cons m ns ih =>
      rw [List.foldlM_cons, combine_eq]
      by_cases zero : op ∈ divisions ∧ m = 0
      · rw [if_pos zero]
        simp [bind, Except.bind, zero.1, zero.2, eq_comm]
      · rw [if_neg zero]
        refine ih.trans (and_congr_right fun divides => ?_)
        have nonzero : 0 ≠ m := fun isZero => zero ⟨divides, isZero.symm⟩
        simp [nonzero]

section Calls

variable {args : List Value} (several : 2 ≤ args.length)
include several

/-- A call on arguments that are numbers folds these numbers. -/
theorem call_of_takenAs {ns : List Int} (taken : List.Forall₂ TakenAs args ns) :
    op.call args = (op.fold ns).map .num := by
  rw [call, if_neg (Nat.not_lt.2 several), mapM_toNumber_eq_ok_iff.2 taken]
  rfl

theorem call_of_takenAs_eq_error_iff {ns : List Int} (taken : List.Forall₂ TakenAs args ns) {fault : Fault} :
    op.call args = .error fault ↔
      (op ∈ divisions ∧ ∃ arg ∈ args.tail, arg.TakenAs 0) ∧ fault = .divisionByZero := by
  rw [call_of_takenAs several taken, map_eq_error_iff]
  cases taken with
  | nil => simp at several
  | cons _ others => rw [fold, foldlM_combine_eq_error_iff, zero_mem_iff_takenAs others, List.tail_cons, and_assoc]

/-- Why a call with enough arguments fails: an argument is no number, or all are and one that divides is zero. -/
theorem call_eq_error_iff (fit : ∀ arg ∈ args, arg.stripped.NumeralFits) {fault : Fault} :
    op.call args = .error fault ↔
      (∃ v, FirstRefused args v ∧ fault = .wrongKind .number v.stripped) ∨
      ((∀ arg ∈ args, arg.IsNumeric) ∧ (op ∈ divisions ∧ ∃ arg ∈ args.tail, arg.TakenAs 0) ∧
        fault = .divisionByZero) := by
  by_cases numeric : ∀ arg ∈ args, arg.IsNumeric
  · obtain ⟨ns, taken⟩ := exists_takenAs_iff.2 numeric
    have noneRefused : ∀ v, ¬ FirstRefused args v := by
      intro v refused
      obtain ⟨arg, member, notNumeric⟩ := exists_firstRefused_iff.1 ⟨v, refused⟩
      exact notNumeric (numeric arg member)
    rw [call_of_takenAs_eq_error_iff several taken]
    simp only [noneRefused, false_and, exists_false, false_or, and_iff_right numeric]
  · have refused : ∀ ns, args.mapM toNumber ≠ .ok ns := fun ns coerced =>
      numeric (exists_takenAs_iff.1 ⟨ns, mapM_toNumber_eq_ok_iff.1 coerced⟩)
    rw [call, if_neg (Nat.not_lt.2 several), bind_eq_error_iff, mapM_toNumber_eq_error_iff fit]
    simp only [refused, false_and, exists_false, numeric]

end Calls

/-- A call on two numbers is one step. -/
theorem call_numbers {a b : Int} (divisible : ¬ (op ∈ divisions ∧ b = 0)) :
    op.call [.num a, .num b] = .ok (.num (Number.wrap (op.exact a b))) := by
  rw [call_of_takenAs Nat.le.refl (.cons (.number a) (.cons (.number b) .nil)), fold, List.foldlM_cons, combine_eq,
    if_neg divisible]
  rfl

/-- What a call of arithmetic comes to, if no argument is a string, bare or inside lists of one element, with a numeral too
    long to be converted. There is an error for fewer than two arguments; otherwise an error of kind for the first argument
    that is no number, which is named without the lists of one element around it, if there is one; otherwise, for a
    division, the error of division by zero if a number behind the first is zero; and otherwise a number of 64 bits. -/
theorem outcome_of_call (op : Arithmetic) (args : List Value) (fit : ∀ arg ∈ args, arg.stripped.NumeralFits) :
    (op.call args = .error (.argumentCount 2 args) ↔ args.length < 2) ∧
    (2 ≤ args.length →
      (∀ w, op.call args = .error (.wrongKind .number w) ↔ ∃ v, FirstRefused args v ∧ w = v.stripped) ∧
      ((∃ w, op.call args = .error (.wrongKind .number w)) ↔ ∃ arg ∈ args, ¬ arg.IsNumeric) ∧
      ((∀ arg ∈ args, arg.IsNumeric) →
        (op.call args = .error .divisionByZero ↔ op ∈ divisions ∧ ∃ arg ∈ args.tail, arg.TakenAs 0) ∧
        (¬ (op ∈ divisions ∧ ∃ arg ∈ args.tail, arg.TakenAs 0) →
          ∃ n, op.call args = .ok (.num n) ∧ Number.InRange n))) ∧
    Kind.number.name = "number" ∧ Fault.divisionByZero.message = "Division by zero" := by
  refine ⟨?_, fun several => ?_, rfl, rfl⟩
  · by_cases few : args.length < 2
    · simp [call, few]
    · simp [call_eq_error_iff (Nat.not_lt.1 few) fit, few]
  have refused : ∀ w, op.call args = .error (.wrongKind .number w) ↔ ∃ v, FirstRefused args v ∧ w = v.stripped := by
    simp [call_eq_error_iff several fit]
  refine ⟨refused, ?_, fun numeric => ?_⟩
  · rw [← exists_firstRefused_iff]
    simp only [refused]
    exact ⟨fun ⟨_, v, first, _⟩ => ⟨v, first⟩, fun ⟨v, first⟩ => ⟨_, v, first, rfl⟩⟩
  · obtain ⟨ns, taken⟩ := exists_takenAs_iff.2 numeric
    refine ⟨by simp [call_of_takenAs_eq_error_iff several taken], fun divides => ?_⟩
    cases called : op.call args with
    | error fault => exact absurd ((call_of_takenAs_eq_error_iff several taken).1 called).1 divides
    | ok v =>
        obtain ⟨n, rfl, inRange⟩ := inRange_of_call called
        exact ⟨n, rfl, inRange⟩

/-- A zero to divide by, and behind it a truth value inside two lists and a symbol. -/
def refusedSample : List Value :=
  [.str " +12 ", .list [.str "-0"], .list [.list [.bool true]], .sym "x"]

theorem outcome_of_call_refusedSample :
    (∀ arg ∈ refusedSample, arg.stripped.NumeralFits) ∧ 2 ≤ (refusedSample.take 2).length ∧
      (∀ arg ∈ refusedSample.take 2, arg.IsNumeric) ∧
      quotient.call refusedSample = .error (.wrongKind .number (.bool true)) ∧
      quotient.call (refusedSample.take 2) = .error .divisionByZero ∧
      ∃ n, multiply.call (refusedSample.take 2) = .ok (.num n) ∧ Number.InRange n := by
  have short : ∀ s ∈ [" +12 ", "-0"], ∀ numeral ∈ Number.Numeral.ofChars? (Text.trim s.toList),
      numeral.digits.length ≤ Number.maxDigits := by decide
  have fit : ∀ arg ∈ refusedSample, arg.stripped.NumeralFits := by
    simp only [refusedSample, List.forall_mem_cons]
    exact ⟨short _ (by simp), short _ (by simp), trivial, trivial, by simp⟩
  have zero : (Value.list [.str "-0"]).TakenAs 0 := toNumber_eq_ok_iff.1 rfl
  have numeric : ∀ arg ∈ refusedSample.take 2, arg.IsNumeric := by
    simp only [refusedSample, List.take, List.forall_mem_cons]
    exact ⟨⟨12, toNumber_eq_ok_iff.1 rfl⟩, ⟨0, zero⟩, by simp⟩
  have truth : ¬ (Value.list [.list [.bool true]]).IsNumeric := fun ⟨n, taken⟩ =>
    nomatch toNumber_eq_ok_iff.2 taken
  obtain ⟨_, several, _⟩ := outcome_of_call .quotient refusedSample fit
  have fitBoth : ∀ arg ∈ refusedSample.take 2, arg.stripped.NumeralFits :=
    fun arg member => fit arg (List.mem_of_mem_take member)
  obtain ⟨_, both, _⟩ := outcome_of_call .quotient (refusedSample.take 2) fitBoth
  obtain ⟨_, product, _⟩ := outcome_of_call .multiply (refusedSample.take 2) fitBoth
  refine ⟨fit, by decide, numeric, ((several (by decide)).1 _).2 ⟨_, ⟨_, _, rfl, numeric, truth⟩, rfl⟩, ?_, ?_⟩
  · exact (((both (by decide)).2.2 numeric).1).2 ⟨by decide, _, by simp [refusedSample], zero⟩
  · exact ((product (by decide)).2.2 numeric).2 fun divides => absurd divides.1 (by decide)

end Arithmetic

end SmallScheme
