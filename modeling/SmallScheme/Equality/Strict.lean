import SmallScheme.Heap

/-
Module: SmallScheme.Equality.Strict
Purpose: Strict equality. Data are compared by structure, closures by their parameters, body and scope, built-in
  procedures and ports by identity. A value that holds another one twice keeps it in memory once, so a few steps
  build a value whose written form is astronomically long; comparing such a value with itself part by part would
  not end in any time. The test that programs run therefore takes what is one and the same object in memory as equal
  without looking inside, which is right because every value equals itself.
Main exports: eqv, eqvAll, eqv_self, length_eq_of_eqvAll, isEqv, isEqv_eq_eqv
-/

namespace SmallScheme

mutual

/-- Strict equality. Scopes count as the same when they bind the same names to the same cells. -/
def eqv (h : Heap) : Value → Value → Bool
  | .bool a, .bool b => a == b
  | .num a, .num b => a == b
  | .str a, .str b => a == b
  | .sym a, .sym b => a == b
  | .list xs, .list ys => eqvAll h xs ys
  | .dotted xs x, .dotted ys y => eqvAll h xs ys && eqv h x y
  | .closure ps r xs s, .closure qs t ys u =>
    ps == qs && r == t && eqvAll h xs ys && h.sameScope s u
  | .prim p, .prim q => p == q
  | .port i, .port j => i == j
  | _, _ => false

/-- Strict equality of lists, element by element. -/
def eqvAll (h : Heap) : List Value → List Value → Bool
  | [], [] => true
  | x :: xs, y :: ys => eqv h x y && eqvAll h xs ys
  | _, _ => false

end

mutual

/-- A value is strictly equal to itself. -/
theorem eqv_self (h : Heap) : ∀ a : Value, eqv h a a = true
  | .bool _ | .num _ | .str _ | .sym _ | .prim _ | .port _ => by simp [eqv]
  | .list xs => by simp [eqv, eqvAll_self h xs]
  | .dotted xs x => by simp [eqv, eqvAll_self h xs, eqv_self h x]
  | .closure _ _ xs _ => by simp [eqv, eqvAll_self h xs, Heap.sameScope]

/-- A list is strictly equal to itself. -/
theorem eqvAll_self (h : Heap) : ∀ xs : List Value, eqvAll h xs xs = true
  | [] => by simp [eqvAll]
  | x :: xs => by simp [eqvAll, eqv_self h x, eqvAll_self h xs]

end

/-- Strictly equal lists have the same length. -/
theorem length_eq_of_eqvAll {h : Heap} :
    ∀ {xs ys : List Value}, eqvAll h xs ys = true → xs.length = ys.length
  | [], [], _ => rfl
  | [], _ :: _, equal => by simp [eqvAll] at equal
  | _ :: _, [], equal => by simp [eqvAll] at equal
  | _ :: _, _ :: _, equal => by
    simp only [eqvAll, Bool.and_eq_true] at equal
    simp [length_eq_of_eqvAll equal.2]

/-- A test of the lengths first changes nothing about the equality of lists. -/
theorem length_beq_and_eqvAll (h : Heap) (xs ys : List Value) :
    (xs.length == ys.length && eqvAll h xs ys) = eqvAll h xs ys := by
  cases equal : eqvAll h xs ys with
  | false => simp
  | true => simp [length_eq_of_eqvAll equal]

mutual

/-- Strict equality, with the lengths of lists compared first and elements that are one object passed over. -/
def compareShared (h : Heap) : (a b : Value) → { equal : Bool // equal = eqv h a b }
  | .list xs, .list ys =>
    ⟨xs.length == ys.length && (compareEach h xs ys).1, by
      rw [(compareEach h xs ys).2, length_beq_and_eqvAll, eqv]⟩
  | .dotted xs x, .dotted ys y =>
    ⟨(xs.length == ys.length && (compareEach h xs ys).1)
        && withPtrEq x y (fun _ => (compareShared h x y).1) fun one => by
          rw [(compareShared h x y).2, one, eqv_self], by
      rw [withPtrEq, (compareEach h xs ys).2, (compareShared h x y).2, length_beq_and_eqvAll, eqv]⟩
  | .closure ps r xs s, .closure qs t ys u =>
    ⟨ps == qs && r == t && (xs.length == ys.length && (compareEach h xs ys).1) && h.sameScope s u, by
      rw [(compareEach h xs ys).2, length_beq_and_eqvAll, eqv]⟩
  | a, b => ⟨eqv h a b, rfl⟩

/-- Strict equality of lists, with elements that are one object passed over. -/
def compareEach (h : Heap) : (xs ys : List Value) → { equal : Bool // equal = eqvAll h xs ys }
  | x :: xs, y :: ys =>
    ⟨withPtrEq x y (fun _ => (compareShared h x y).1) (fun one => by
        rw [(compareShared h x y).2, one, eqv_self])
        && (compareEach h xs ys).1, by
      rw [withPtrEq, (compareShared h x y).2, (compareEach h xs ys).2, eqvAll]⟩
  | xs, ys => ⟨eqvAll h xs ys, rfl⟩

end

/-- Strict equality as programs test it. It takes no longer for parts that both values share in memory. -/
def isEqv (h : Heap) (a b : Value) : Bool :=
  withPtrEq a b (fun _ => (compareShared h a b).1) fun one => by
    rw [(compareShared h a b).2, one, eqv_self]

/-- The test decides strict equality. -/
@[simp] theorem isEqv_eq_eqv (h : Heap) (a b : Value) : isEqv h a b = eqv h a b :=
  (compareShared h a b).2

end SmallScheme
