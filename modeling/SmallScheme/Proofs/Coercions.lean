import SmallScheme.Coercion
import SmallScheme.Proofs.Except
import SmallScheme.Proofs.Numeral

/-
Module: SmallScheme.Proofs.Coercions
Purpose: The numbers that values are taken as, as a relation: a number as itself, a string as the number that stands between
  its white space, a list of one element as its element is taken. The coercion of numeric procedures gives exactly these
  numbers, and of any other value it names what is inside all lists of one element, unless that is a string with a
  numeral too long to be converted. Of several arguments it refuses the first that is taken as no number.
Main exports: Value.TakenAs, Value.IsNumeric, Value.FirstRefused, Value.stripped, Value.NumeralFits, toNumber_eq_ok_iff,
  toNumber_eq_error_iff, mapM_toNumber_eq_ok_iff, mapM_toNumber_eq_error_iff
-/

namespace SmallScheme

open Number (InRange Numeral maxDigits)

namespace Value

/-- The number as which numeric procedures take a value. -/
inductive TakenAs : Value → Int → Prop where
  | number (n : Int) : TakenAs (.num n) n
  | text {s : String} {numeral : Numeral} (written : numeral.Written (Text.trim s.toList))
      (short : numeral.digits.length ≤ maxDigits) (fits : InRange numeral.value) : TakenAs (.str s) numeral.value
  | only {v : Value} {n : Int} (taken : TakenAs v n) : TakenAs (.list [v]) n

/-- A value that numeric procedures take. -/
def IsNumeric (v : Value) : Prop :=
  ∃ n, v.TakenAs n

/-- The first of several arguments that numeric procedures do not take. -/
def FirstRefused (args : List Value) (v : Value) : Prop :=
  ∃ before after, args = before ++ v :: after ∧ (∀ u ∈ before, u.IsNumeric) ∧ ¬ v.IsNumeric

/-- What is inside all the lists of one element around a value. -/
def stripped : Value → Value
  | .list [v] => stripped v
  | v => v
termination_by structural v => v

/-- A string in which there is no numeral too long to be converted, or any other value. -/
def NumeralFits : Value → Prop
  | .str s => ∀ numeral ∈ Number.Numeral.ofChars? (Text.trim s.toList), numeral.digits.length ≤ Number.maxDigits
  | _ => True

end Value

/-!
### One value
-/

theorem numberIn_eq_ok_iff {s : String} {n : Int} : numberIn s = .ok n ↔ (Value.str s).TakenAs n := by
  constructor
  · intro taken
    unfold numberIn at taken
    split at taken
    · cases taken
    · rename_i numeral recognised
      split at taken <;> cases taken
      rename_i converted
      obtain ⟨short, fits, rfl⟩ := Numeral.toNumber_eq_ok_iff.1 converted
      exact .text (Numeral.ofChars?_eq_some_iff.1 recognised) short fits
  · intro taken
    cases taken with
    | text written short fits =>
        rw [numberIn, Numeral.ofChars?_eq_some_iff.2 written]
        simp only [Numeral.toNumber_eq_ok_iff.2 ⟨short, fits, rfl⟩]

/-- A string without a numeral too long to be converted holds a number, or it is refused as a value of the wrong kind. -/
theorem numberIn_eq_error {s : String} {fault : Fault} (fits : Value.NumeralFits (.str s))
    (refused : numberIn s = .error fault) : fault = .wrongKind .number (.str s) := by
  unfold numberIn at refused
  split at refused
  · cases refused
    rfl
  · rename_i numeral recognised
    rw [Numeral.toNumber, if_neg (Nat.not_lt.2 (fits numeral recognised))] at refused
    by_cases inRange : InRange numeral.value
    · rw [if_pos inRange] at refused
      cases refused
    · rw [if_neg inRange] at refused
      cases refused
      rfl

/-- The coercion takes a value as a number exactly if the relation does. -/
theorem toNumber_eq_ok_iff {v : Value} {n : Int} : toNumber v = .ok n ↔ v.TakenAs n := by
  fun_induction toNumber v with
  | case1 =>
      constructor
      · rintro ⟨⟩
        exact .number _
      · rintro ⟨⟩
        rfl
  | case2 s => exact numberIn_eq_ok_iff
  | case3 v ih =>
      rw [ih]
      constructor
      · exact .only
      · rintro ⟨⟩
        assumption
  | case4 v notNumber notText notOnly =>
      constructor
      · rintro ⟨⟩
      · intro taken
        cases taken with
        | number => exact absurd rfl (notNumber _)
        | text => exact absurd rfl (notText _)
        | only => exact absurd rfl (notOnly _)

/-- A value that is not taken is named without the lists of one element around it. -/
theorem toNumber_eq_error {v : Value} {fault : Fault} (fits : v.stripped.NumeralFits)
    (refused : toNumber v = .error fault) : fault = .wrongKind .number v.stripped := by
  fun_induction toNumber v with
  | case1 n => cases refused
  | case2 s => exact numberIn_eq_error fits refused
  | case3 v ih => exact ih fits refused
  | case4 v notNumber notText notOnly =>
      have bare : v.stripped = v := by
        unfold Value.stripped
        split
        · exact absurd rfl (notOnly _)
        · rfl
      cases refused
      rw [bare]

/-- A value is refused exactly if it is taken as no number. -/
theorem toNumber_eq_error_iff {v : Value} (fits : v.stripped.NumeralFits) {fault : Fault} :
    toNumber v = .error fault ↔ ¬ v.IsNumeric ∧ fault = .wrongKind .number v.stripped := by
  constructor
  · intro refused
    refine ⟨?_, toNumber_eq_error fits refused⟩
    rintro ⟨n, taken⟩
    rw [toNumber_eq_ok_iff.2 taken] at refused
    cases refused
  · rintro ⟨notNumeric, rfl⟩
    cases outcome : toNumber v with
    | ok n => exact absurd ⟨n, toNumber_eq_ok_iff.1 outcome⟩ notNumeric
    | error fault => rw [toNumber_eq_error fits outcome]

/-!
### Several arguments
-/

section Arguments

open Value (FirstRefused)

variable {args : List Value}

theorem mapM_toNumber_eq_ok_iff {ns : List Int} :
    args.mapM toNumber = .ok ns ↔ List.Forall₂ Value.TakenAs args ns := by
  simp only [mapM_eq_ok_iff, toNumber_eq_ok_iff]

/-- If each argument is taken as a number, together they are taken as numbers. -/
theorem exists_takenAs_iff : (∃ ns, List.Forall₂ Value.TakenAs args ns) ↔ ∀ arg ∈ args, arg.IsNumeric := by
  induction args with
  | nil => simp
  | cons v args ih =>
      rw [List.forall_mem_cons, ← ih]
      constructor
      · rintro ⟨_, _ | ⟨first, others⟩⟩
        exact ⟨⟨_, first⟩, _, others⟩
      · rintro ⟨⟨n, first⟩, ns, others⟩
        exact ⟨n :: ns, .cons first others⟩

/-- Zero is among the numbers exactly if it is the number of an argument. -/
theorem zero_mem_iff_takenAs {ns : List Int} (taken : List.Forall₂ Value.TakenAs args ns) :
    0 ∈ ns ↔ ∃ arg ∈ args, arg.TakenAs 0 := by
  induction taken with
  | nil => simp
  | @cons arg n args ns first _ ih =>
      have isZero : 0 = n ↔ arg.TakenAs 0 := by
        rw [← toNumber_eq_ok_iff, toNumber_eq_ok_iff.2 first, Except.ok.injEq, eq_comm]
      simp [isZero, ih]

/-- The first argument that is taken as no number is refused, whatever stands behind it. -/
theorem mapM_toNumber_eq_error_iff (fit : ∀ arg ∈ args, arg.stripped.NumeralFits) {fault : Fault} :
    args.mapM toNumber = .error fault ↔ ∃ v, FirstRefused args v ∧ fault = .wrongKind .number v.stripped := by
  have refused : ∀ {before v after}, args = before ++ v :: after →
      (toNumber v = .error fault ↔ ¬ v.IsNumeric ∧ fault = .wrongKind .number v.stripped) := by
    rintro before v after rfl
    exact toNumber_eq_error_iff (fit v (by simp))
  rw [mapM_eq_error_iff]
  constructor
  · rintro ⟨before, v, after, split, taken, failed⟩
    obtain ⟨notNumeric, rfl⟩ := (refused split).1 failed
    simp only [toNumber_eq_ok_iff] at taken
    exact ⟨v, ⟨before, after, split, taken, notNumeric⟩, rfl⟩
  · rintro ⟨v, ⟨before, after, split, numeric, notNumeric⟩, rfl⟩
    simp only [toNumber_eq_ok_iff]
    exact ⟨before, v, after, split, numeric, (refused split).2 ⟨notNumeric, rfl⟩⟩

theorem exists_firstRefused_iff : (∃ v, FirstRefused args v) ↔ ∃ arg ∈ args, ¬ arg.IsNumeric := by
  constructor
  · rintro ⟨v, before, after, rfl, _, notNumeric⟩
    exact ⟨v, by simp, notNumeric⟩
  · rintro ⟨arg, member, notNumeric⟩
    obtain ⟨before, v, after, split, refused, numeric⟩ :=
      exists_first_of_not_forall fun allNumeric => notNumeric (allNumeric arg member)
    exact ⟨v, before, after, split, numeric, refused⟩

end Arguments

end SmallScheme
