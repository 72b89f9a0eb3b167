import Mathlib.Algebra.BigOperators.Group.List.Basic
import Mathlib.Data.Int.ModEq
import Mathlib.Data.List.Perm.Basic
import SmallScheme.Proofs.Arithmetic

/-
Module: SmallScheme.Proofs.Wrapping
Purpose: Arithmetic that wraps after every step gives the exact result wrapped once. Wrapping chooses the number of 64 bits in
  a class of residues, and sums, differences and products respect these classes, so an overflow on the way leaves no trace.
  A sum or a product therefore depends neither on the order of its arguments nor on how they are grouped into calls inside
  calls, although each of these calls wraps.
Main exports: Number.wrap_eq_iff, Number.wrap_eq_wrap_iff, Arithmetic.fold_of_smooth, Arithmetic.Gathers, Grouping,
  Grouping.result, Arithmetic.wraps_once
-/

namespace SmallScheme

open Value (TakenAs)

/-!
### Residues
-/

namespace Number

theorem wrap_modEq (n : Int) : wrap n ≡ n [ZMOD 2 ^ 64] :=
  Int.bmod_emod

/-- Wrapping gives the only number of 64 bits that differs by a multiple of 2^64. -/
theorem wrap_eq_iff {n w : Int} : wrap n = w ↔ (-2 ^ 63 ≤ w ∧ w ≤ 2 ^ 63 - 1) ∧ w ≡ n [ZMOD 2 ^ 64] := by
  constructor
  · rintro rfl
    exact ⟨inRange_wrap n, wrap_modEq n⟩
  · rintro ⟨inRange, same⟩
    have residues : wrap n % 2 ^ 64 = w % 2 ^ 64 := (wrap_modEq n).trans same.symm
    have bounds : -2 ^ 63 ≤ wrap n ∧ wrap n ≤ 2 ^ 63 - 1 := inRange_wrap n
    omega

theorem wrap_eq_wrap_iff {a b : Int} : wrap a = wrap b ↔ a ≡ b [ZMOD 2 ^ 64] := by
  rw [wrap_eq_iff]
  constructor
  · rintro ⟨_, same⟩
    exact same.symm.trans (wrap_modEq b)
  · intro same
    exact ⟨inRange_wrap b, (wrap_modEq b).trans same.symm⟩

end Number

open Number (wrap wrap_modEq wrap_eq_wrap_iff)

/-!
### Folds
-/

namespace Arithmetic

variable {op : Arithmetic}

/-- Sums, differences and products do not see a multiple of 2^64 in what they start with. -/
theorem exact_modEq (smooth : op ∉ divisions) {a b : Int} (same : a ≡ b [ZMOD 2 ^ 64]) (c : Int) :
    op.exact a c ≡ op.exact b c [ZMOD 2 ^ 64] := by
  cases op with
  | add => exact same.add_right c
  | subtract => exact same.sub_right c
  | multiply => exact same.mul_right c
  | _ => exact absurd (by decide) smooth

/-- From a wrapped number on, wrapping after every step is wrapping at the end. -/
theorem foldlM_combine_wrap (smooth : op ∉ divisions) (ns : List Int) (n : Int) :
    ns.foldlM op.combine (wrap n) = .ok (wrap (ns.foldl op.exact n)) := by
  induction ns generalizing n with
  | nil => rfl
  | cons m ns ih =>
      have step : op.combine (wrap n) m = .ok (wrap (op.exact n m)) := by
        rw [combine_eq, if_neg fun divides => smooth divides.1,
          wrap_eq_wrap_iff.2 (exact_modEq smooth (wrap_modEq n) m)]
      rw [List.foldlM_cons, step, List.foldl_cons]
      exact ih (op.exact n m)

/-- A fold that does not divide is the exact fold, wrapped once. The first number alone is not wrapped, but the first step
    is. -/
theorem fold_of_smooth (smooth : op ∉ divisions) (n : Int) {ns : List Int} (several : ns ≠ []) :
    op.fold (n :: ns) = .ok (wrap (ns.foldl op.exact n)) := by
  obtain ⟨m, ns, rfl⟩ := List.exists_cons_of_ne_nil several
  rw [fold, List.foldlM_cons, combine_eq, if_neg fun divides => smooth divides.1, List.foldl_cons]
  exact foldlM_combine_wrap smooth ns (op.exact n m)

theorem foldl_exact_add (ns : List Int) (n : Int) : ns.foldl add.exact n = n + ns.sum := by
  induction ns generalizing n with
  | nil => simp
  | cons m ns ih => rw [List.foldl_cons, ih, List.sum_cons, exact, Int.add_assoc]

theorem foldl_exact_subtract (ns : List Int) (n : Int) : ns.foldl subtract.exact n = n - ns.sum := by
  induction ns generalizing n with
  | nil => simp
  | cons m ns ih => rw [List.foldl_cons, ih, List.sum_cons, exact, Int.sub_sub]

theorem foldl_exact_multiply (ns : List Int) (n : Int) : ns.foldl multiply.exact n = n * ns.prod := by
  induction ns generalizing n with
  | nil => simp
  | cons m ns ih => rw [List.foldl_cons, ih, List.prod_cons, exact, Int.mul_assoc]

/-!
### Order and grouping
-/

/-- An operation gathers two or more numbers into their total, wrapped, and up to multiples of 2^64 the total depends neither
    on their order nor on how they are grouped. -/
structure Gathers (op : Arithmetic) (total : List Int → Int) : Prop where
  fold {ns : List Int} (several : 2 ≤ ns.length) : op.fold ns = .ok (wrap (total ns))
  alone (n : Int) : total [n] = n
  append {ms ms' ns ns' : List Int} (first : total ms ≡ total ms' [ZMOD 2 ^ 64])
    (second : total ns ≡ total ns' [ZMOD 2 ^ 64]) : total (ms ++ ns) ≡ total (ms' ++ ns') [ZMOD 2 ^ 64]
  perm {ms ns : List Int} (reordered : ms.Perm ns) : total ms = total ns

theorem gathers_add : Gathers .add List.sum where
  fold {ns} several := by
    obtain _ | ⟨n, ns⟩ := ns
    · simp at several
    · rw [fold_of_smooth (by decide) n (by rintro rfl; simp at several), foldl_exact_add, List.sum_cons]
  alone n := by simp
  append first second := by
    rw [List.sum_append, List.sum_append]
    exact first.add second
  perm reordered := reordered.sum_eq

theorem gathers_multiply : Gathers .multiply List.prod where
  fold {ns} several := by
    obtain _ | ⟨n, ns⟩ := ns
    · simp at several
    · rw [fold_of_smooth (by decide) n (by rintro rfl; simp at several), foldl_exact_multiply, List.prod_cons]
  alone n := by simp
  append first second := by
    rw [List.prod_append, List.prod_append]
    exact first.mul second
  perm reordered := reordered.prod_eq

end Arithmetic

mutual

/-- Arguments in groups: one argument, or a call of two or more groups. -/
inductive Grouping where
  | argument (v : Value)
  | call (first : Grouping) (others : Groupings)

/-- The groups of a call behind the first. -/
inductive Groupings where
  | last (g : Grouping)
  | more (g : Grouping) (others : Groupings)

end

mutual

/-- All arguments of the groups, from left to right. -/
def Grouping.arguments : Grouping → List Value
  | .argument v => [v]
  | .call first others => first.arguments ++ others.arguments

/-- All arguments of further groups, from left to right. -/
def Groupings.arguments : Groupings → List Value
  | .last g => g.arguments
  | .more g others => g.arguments ++ others.arguments

end

mutual

/-- The result of calls inside calls, all of one operation. -/
def Grouping.result (op : Arithmetic) : Grouping → Except Fault Value
  | .argument v => .ok v
  | .call first others => do
    let v ← first.result op
    let vs ← others.results op
    op.call (v :: vs)

/-- The results of further groups. -/
def Groupings.results (op : Arithmetic) : Groupings → Except Fault (List Value)
  | .last g => do
    let v ← g.result op
    return [v]
  | .more g others => do
    let v ← g.result op
    let vs ← others.results op
    return v :: vs

end

/-- The numbers of arguments before and behind a cut. -/
theorem exists_append_of_takenAs {args others : List Value} {ns : List Int}
    (taken : List.Forall₂ TakenAs (args ++ others) ns) :
    ∃ ms ks, ns = ms ++ ks ∧ List.Forall₂ TakenAs args ms ∧ List.Forall₂ TakenAs others ks := by
  refine ⟨ns.take args.length, ns.drop args.length, (List.take_append_drop _ _).symm, ?_, ?_⟩
  · simpa using List.forall₂_take args.length taken
  · simpa using List.forall₂_drop args.length taken

section Gathering

variable {op : Arithmetic} {total : List Int → Int} (gathers : op.Gathers total)
include gathers

theorem Arithmetic.Gathers.call {args : List Value} {ns : List Int} (taken : List.Forall₂ TakenAs args ns)
    (several : 2 ≤ args.length) : op.call args = .ok (.num (wrap (total ns))) := by
  rw [call_of_takenAs several taken, gathers.fold (taken.length_eq ▸ several)]
  rfl

/-- A call of groups gives the total of all their numbers, wrapped, if each group gives its own up to multiples of 2^64. -/
theorem Arithmetic.Gathers.result_call {first : Grouping} {others : Groupings} {ms ns : List Int}
    (firstGives : ∃ v m, first.result op = .ok v ∧ v.TakenAs m ∧ m ≡ total ms [ZMOD 2 ^ 64])
    (othersGive : ∃ vs ks, others.results op = .ok vs ∧ vs ≠ [] ∧ List.Forall₂ TakenAs vs ks ∧
      total ks ≡ total ns [ZMOD 2 ^ 64]) :
    (Grouping.call first others).result op = .ok (.num (wrap (total (ms ++ ns)))) := by
  obtain ⟨v, m, firstResult, firstTaken, sameFirst⟩ := firstGives
  obtain ⟨vs, ks, othersResults, nonempty, othersTaken, sameOthers⟩ := othersGive
  have several : 2 ≤ (v :: vs).length := by
    have := List.length_pos_iff.2 nonempty
    rw [List.length_cons]
    omega
  have sameTotal : total ([m] ++ ks) ≡ total (ms ++ ns) [ZMOD 2 ^ 64] :=
    gathers.append ((gathers.alone m).symm ▸ sameFirst) sameOthers
  rw [Grouping.result, firstResult, othersResults]
  exact (gathers.call (.cons firstTaken othersTaken) several).trans (by rw [← wrap_eq_wrap_iff.2 sameTotal]; rfl)

mutual

/-- A group of arguments that are numbers gives their total, up to multiples of 2^64. -/
theorem Grouping.exists_result : ∀ (g : Grouping) {ns : List Int}, List.Forall₂ TakenAs g.arguments ns →
    ∃ v n, g.result op = .ok v ∧ v.TakenAs n ∧ n ≡ total ns [ZMOD 2 ^ 64]
  | .argument v, _, .cons first .nil => ⟨v, _, rfl, first, by rw [gathers.alone]⟩
  | .call first others, _, taken => by
      obtain ⟨ms, ks, rfl, firstTaken, othersTaken⟩ := exists_append_of_takenAs taken
      have result := gathers.result_call (first.exists_result firstTaken) (others.exists_results othersTaken)
      exact ⟨_, _, result, .number _, wrap_modEq _⟩

/-- Further groups give as many numbers as they are, whose total is that of their arguments. -/
theorem Groupings.exists_results : ∀ (gs : Groupings) {ns : List Int}, List.Forall₂ TakenAs gs.arguments ns →
    ∃ vs ks, gs.results op = .ok vs ∧ vs ≠ [] ∧ List.Forall₂ TakenAs vs ks ∧ total ks ≡ total ns [ZMOD 2 ^ 64]
  | .last g, _, taken => by
      obtain ⟨v, n, result, isNumber, same⟩ := g.exists_result taken
      refine ⟨[v], [n], ?_, List.cons_ne_nil _ _, .cons isNumber .nil, by rwa [gathers.alone]⟩
      rw [Groupings.results, result]
      rfl
  | .more g others, _, taken => by
      obtain ⟨ms, ns, rfl, firstTaken, othersTaken⟩ := exists_append_of_takenAs taken
      obtain ⟨v, n, result, isNumber, same⟩ := g.exists_result firstTaken
      obtain ⟨vs, ks, results, _, areNumbers, sameOthers⟩ := others.exists_results othersTaken
      refine ⟨v :: vs, n :: ks, ?_, List.cons_ne_nil _ _, .cons isNumber areNumbers, ?_⟩
      · rw [Groupings.results, result, results]
        rfl
      · change total ([n] ++ ks) ≡ total (ms ++ ns) [ZMOD 2 ^ 64]
        exact gathers.append (by rwa [gathers.alone]) sameOthers

end

/-- Neither the order of the arguments nor how they are grouped changes the result. -/
theorem Arithmetic.Gathers.result_eq_call {g : Grouping} {args : List Value} {ns : List Int}
    (taken : List.Forall₂ TakenAs args ns) (several : 2 ≤ args.length) (reordered : g.arguments.Perm args) :
    g.result op = op.call args := by
  obtain ⟨ms, takenReordered, sameNumbers⟩ := List.perm_comp_forall₂ reordered taken
  cases g with
  | argument v =>
      rw [← reordered.length_eq] at several
      simp [Grouping.arguments] at several
  | call first others =>
      obtain ⟨ks, ls, rfl, firstTaken, othersTaken⟩ := exists_append_of_takenAs takenReordered
      rw [gathers.result_call (first.exists_result gathers firstTaken) (others.exists_results gathers othersTaken),
        gathers.call taken several, gathers.perm sameNumbers]

end Gathering

/-- Arithmetic that wraps at every step gives the exact result wrapped once, which is the only number of 64 bits that differs
    from the exact one by a multiple of 2^64: for two or more arguments that are numbers, strings of numbers or lists of one
    such element, sums and products wrap the sum and the product, and differences the first number less the sum of the
    others. So sums and products are the same for every order of the arguments, and for every way to group them, in this or
    another order, into calls inside calls. -/
theorem Arithmetic.wraps_once :
    (∀ n w : Int, wrap n = w ↔ (-2 ^ 63 ≤ w ∧ w ≤ 2 ^ 63 - 1) ∧ w ≡ n [ZMOD 2 ^ 64]) ∧
    ∀ (args : List Value) (n : Int) (ns : List Int), List.Forall₂ TakenAs args (n :: ns) → ns ≠ [] →
      add.call args = .ok (.num (wrap (n :: ns).sum)) ∧
      multiply.call args = .ok (.num (wrap (n :: ns).prod)) ∧
      subtract.call args = .ok (.num (wrap (n - ns.sum))) ∧
      ∀ op ∈ [add, multiply],
        (∀ others : List Value, others.Perm args → op.call others = op.call args) ∧
        ∀ g : Grouping, g.arguments.Perm args → g.result op = op.call args := by
  refine ⟨fun n w => Number.wrap_eq_iff, fun args n ns taken nonempty => ?_⟩
  have several : 2 ≤ args.length := by
    have := List.length_pos_iff.2 nonempty
    rw [taken.length_eq, List.length_cons]
    omega
  have free : ∀ op ∈ [add, multiply], ∃ total, Gathers op total := by
    simp only [List.forall_mem_cons]
    exact ⟨⟨_, gathers_add⟩, ⟨_, gathers_multiply⟩, by simp⟩
  refine ⟨gathers_add.call taken several, gathers_multiply.call taken several, ?_, fun op member => ?_⟩
  · rw [call_of_takenAs several taken, fold_of_smooth (by decide) n nonempty, foldl_exact_subtract]
    rfl
  · obtain ⟨total, gathers⟩ := free op member
    refine ⟨fun others reordered => ?_, fun g => gathers.result_eq_call taken several⟩
    obtain ⟨ms, takenReordered, sameNumbers⟩ := List.perm_comp_forall₂ reordered taken
    rw [gathers.call takenReordered (reordered.length_eq ▸ several), gathers.call taken several,
      gathers.perm sameNumbers]

/-- Numbers whose sum leaves the range upwards and comes back downwards. -/
def overflowSample : List Value :=
  [.num Number.greatest, .str " +1 ", .list [.num 5], .list [.list [.str "-7"]]]

/-- The same numbers, in another order and in two calls inside a third. -/
def overflowSampleGrouped : Grouping :=
  .call (.call (.argument (.list [.list [.str "-7"]])) (.last (.argument (.list [.num 5]))))
    (.last (.call (.argument (.str " +1 ")) (.last (.argument (.num Number.greatest)))))

theorem Arithmetic.wraps_once_overflowSample :
    List.Forall₂ TakenAs overflowSample [Number.greatest, 1, 5, -7] ∧
      overflowSampleGrouped.arguments.Perm overflowSample ∧
      add.call overflowSample = .ok (.num (Number.greatest - 1)) ∧
      multiply.call overflowSample = .ok (.num (Number.least + 35)) ∧
      subtract.call overflowSample = .ok (.num (Number.least)) ∧
      overflowSampleGrouped.result .add = add.call overflowSample ∧
      overflowSampleGrouped.result .multiply = multiply.call overflowSample := by
  have taken : List.Forall₂ TakenAs overflowSample [Number.greatest, 1, 5, -7] :=
    .cons (toNumber_eq_ok_iff.1 rfl) (.cons (toNumber_eq_ok_iff.1 rfl) (.cons (toNumber_eq_ok_iff.1 rfl)
      (.cons (toNumber_eq_ok_iff.1 rfl) .nil)))
  have reordered : overflowSampleGrouped.arguments.Perm overflowSample := List.reverse_perm overflowSample
  obtain ⟨sums, products, differences, free⟩ := wraps_once.2 _ _ _ taken (by decide)
  exact ⟨taken, reordered, sums, products, differences, (free .add (by decide)).2 _ reordered,
    (free .multiply (by decide)).2 _ reordered⟩

end SmallScheme
