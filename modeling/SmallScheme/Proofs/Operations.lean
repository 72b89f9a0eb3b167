import SmallScheme.Library.Operations
import SmallScheme.Proofs.Data
import SmallScheme.Proofs.Except

/-
Module: SmallScheme.Proofs.Operations
Purpose: The built-in procedures that only compute. From well-formed arguments they give well-formed values: arithmetic
  wraps after its last step whatever the arguments are, tests give truth values, and the pair operations keep the
  normal form of dotted lists. Of the memory they see which scopes are the same, never the contents of a cell.
Main exports: Arithmetic.inRange_of_fold, callFirst_eq_ok_iff, callRest_eq_ok_iff, Operation.wellFormedOver_of_call,
  Operation.call_congr
-/

namespace SmallScheme

open Value (WellFormedOver)

/-!
### Values
-/

theorem Arithmetic.inRange_of_combine {op : Arithmetic} {a b n : Int} (combined : op.combine a b = .ok n) :
    Number.InRange n := by
  cases op with
  | add | subtract | multiply =>
      cases combined
      exact Number.inRange_wrap _
  | divide | modulo | quotient | remainder =>
      simp only [combine] at combined
      split at combined <;> cases combined
      exact Number.inRange_wrap _

/-- The fold of two or more numbers is in range, since its last step is. -/
theorem Arithmetic.inRange_of_fold {op : Arithmetic} {ns : List Int} {n : Int} (several : 2 ≤ ns.length)
    (folded : op.fold ns = .ok n) : Number.InRange n := by
  rcases ns with _ | ⟨a, _ | ⟨b, ns⟩⟩
  · simp at several
  · simp at several
  · rw [fold, List.foldlM_cons] at folded
    rcases bind_eq_ok_iff.1 folded with ⟨c, first, rest⟩
    exact of_foldlM_eq_ok (fun _ _ _ _ => inRange_of_combine) (inRange_of_combine first) rest

theorem Arithmetic.inRange_of_call {op : Arithmetic} {args : List Value} {v : Value} (called : op.call args = .ok v) :
    ∃ n, v = .num n ∧ Number.InRange n := by
  unfold call at called
  split at called
  · cases called
  · rename_i enough
    rcases bind_eq_ok_iff.1 called with ⟨ns, coerced, rest⟩
    rcases bind_eq_ok_iff.1 rest with ⟨n, folded, gives⟩
    cases gives
    have sameLength := (forall₂_of_mapM_eq_ok coerced).length_eq
    exact ⟨n, rfl, inRange_of_fold (by omega) folded⟩

theorem bool_of_callTest {α : Type} {coerce : Value → Except Fault α} {test : α → α → Bool} {args : List Value}
    {v : Value} (called : callTest coerce test args = .ok v) : ∃ b, v = .bool b := by
  unfold callTest at called
  split at called
  · rcases bind_eq_ok_iff.1 called with ⟨a, _, rest⟩
    rcases bind_eq_ok_iff.1 rest with ⟨b, _, gives⟩
    cases gives
    exact ⟨_, rfl⟩
  · cases called

theorem callFirst_eq_ok_iff {args : List Value} {x : Value} :
    callFirst args = .ok x ↔ ∃ v, args = [v] ∧ v.first? = some x := by
  unfold callFirst
  split
  · rename_i v
    cases first : v.first? <;> simp [first]
  · rename_i notOne
    constructor
    · rintro ⟨⟩
    · rintro ⟨v, rfl, _⟩
      exact absurd rfl (notOne v)

theorem callRest_eq_ok_iff {args : List Value} {rest : Value} :
    callRest args = .ok rest ↔ ∃ v, args = [v] ∧ v.rest? = some rest := by
  unfold callRest
  split
  · rename_i v
    cases others : v.rest? <;> simp [others]
  · rename_i notOne
    constructor
    · rintro ⟨⟩
    · rintro ⟨v, rfl, _⟩
      exact absurd rfl (notOne v)

/-- A built-in procedure that only computes gives well-formed values from well-formed arguments, with closures over
    the same scopes. -/
theorem Operation.wellFormedOver_of_call {captured : ScopeId → Prop} {h : Heap} {op : Operation} {args : List Value}
    {v : Value} (wellFormed : ∀ arg ∈ args, WellFormedOver captured arg) (called : op.call h args = .ok v) :
    WellFormedOver captured v := by
  cases op with
  | arithmetic op =>
      rcases Arithmetic.inRange_of_call called with ⟨n, rfl, inRange⟩
      exact inRange
  | numberTest | connective | stringTest =>
      rcases bool_of_callTest called with ⟨b, rfl⟩
      trivial
  | car =>
      obtain ⟨v, rfl, found⟩ := callFirst_eq_ok_iff.1 called
      exact (wellFormed _ List.mem_cons_self).of_first? found
  | cdr =>
      obtain ⟨v, rfl, found⟩ := callRest_eq_ok_iff.1 called
      exact (wellFormed _ List.mem_cons_self).of_rest? found
  | cons =>
      simp only [call, callCons] at called
      split at called <;> cases called
      exact Value.Built.cons (wellFormed _ (by simp)) (wellFormed _ (by simp))
  | isEq | isEqv =>
      simp only [call, callEqv] at called
      split at called <;> cases called
      trivial
  | isEqual =>
      simp only [call, callEqual] at called
      split at called
      · rcases map_eq_ok_iff.1 called with ⟨b, _, rfl⟩
        trivial
      · cases called

/-!
### What they see of the memory
-/

variable {h k : Heap}

theorem sameScope_of_scopes_eq (same : k.scopes = h.scopes) (s t : ScopeId) : k.sameScope s t = h.sameScope s t := by
  simp only [Heap.sameScope, Heap.scope, same]

mutual

/-- Strict equality depends on the memory only by which scopes are the same. -/
theorem eqv_congr (same : ∀ s t, k.sameScope s t = h.sameScope s t) : ∀ a b : Value, eqv k a b = eqv h a b
  | .bool _, b | .num _, b | .str _, b | .sym _, b | .prim _, b | .port _, b => by cases b <;> simp [eqv]
  | .list xs, b => by
      cases b <;> simp [eqv, eqvAll_congr same xs]
  | .dotted xs x, b => by
      cases b <;> simp [eqv, eqvAll_congr same xs, eqv_congr same x]
  | .closure _ _ xs _, b => by
      cases b <;> simp [eqv, eqvAll_congr same xs, same]

theorem eqvAll_congr (same : ∀ s t, k.sameScope s t = h.sameScope s t) :
    ∀ xs ys : List Value, eqvAll k xs ys = eqvAll h xs ys
  | [], ys => by cases ys <;> simp [eqvAll]
  | x :: xs, ys => by
      cases ys <;> simp [eqvAll, eqv_congr same x, eqvAll_congr same xs]

end

theorem agree_congr (same : ∀ s t, k.sameScope s t = h.sameScope s t) (a b : Value) : agree k a b = agree h a b := by
  simp only [agree, isEqv_eq_eqv, eqv_congr same]

mutual

/-- Loose equality depends on the memory in the same way. -/
theorem isEqual_congr (same : ∀ s t, k.sameScope s t = h.sameScope s t) :
    ∀ a b : Value, isEqual k a b = isEqual h a b
  | .bool _, b | .num _, b | .str _, b | .sym _, b | .prim _, b | .port _, b | .closure .., b => by
      cases b <;> simp only [isEqual, agree_congr same]
  | .list xs, b => by
      cases b <;> simp only [isEqual, agree_congr same, eachEqual_congr same xs]
  | .dotted xs x, b => by
      cases b <;> simp only [isEqual, agree_congr same, eachEqual_congr same xs, isEqual_congr same x]

theorem eachEqual_congr (same : ∀ s t, k.sameScope s t = h.sameScope s t) :
    ∀ xs ys : List Value, eachEqual k xs ys = eachEqual h xs ys
  | [], ys => by cases ys <;> simp only [eachEqual]
  | x :: xs, ys => by
      cases ys <;> simp only [eachEqual, isEqual_congr same x, eachEqual_congr same xs]

end

/-- A built-in procedure that only computes gives the same in memories in which the same scopes are the same. -/
theorem Operation.call_congr (same : ∀ s t, k.sameScope s t = h.sameScope s t) (op : Operation)
    (args : List Value) :
    op.call k args = op.call h args := by
  cases op with
  | isEq | isEqv => simp only [call, callEqv, isEqv_eq_eqv, eqv_congr same]
  | isEqual => simp only [call, callEqual, isEqual_congr same]
  | _ => rfl

end SmallScheme
