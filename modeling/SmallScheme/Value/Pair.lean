import SmallScheme.Value

/-
Module: SmallScheme.Value.Pair
Purpose: Lists as pairs. A non-empty list of either kind has a first element and a rest; putting an element
  before a value gives the list that has them. A tail after a dot is merged into the heads whenever it is
  itself a list of either kind, so `(a . (b c))` is `(a b c)` and `(a . (b . c))` is `(a b . c)`.
Main exports: Value.joinTail, Value.cons, Value.first?, Value.rest?
-/

namespace SmallScheme.Value

/-- The list with these heads before this tail, in its one normal form. -/
def joinTail (heads : List Value) : Value → Value
  | .list items => .list (heads ++ items)
  | .dotted more tail => .dotted (heads ++ more) tail
  | tail => .dotted heads tail

/-- The list with one more element in front; before a value that is no list it makes a dotted list. -/
def cons (x : Value) : Value → Value
  | .list items => .list (x :: items)
  | .dotted heads tail => .dotted (x :: heads) tail
  | y => .dotted [x] y

/-- The first element of a non-empty list of either kind. -/
def first? : Value → Option Value
  | .list (x :: _) => some x
  | .dotted (x :: _) _ => some x
  | _ => none

/-- All after the first element: what follows it in a list, and the tail itself after the only head of a
    dotted list. -/
def rest? : Value → Option Value
  | .list (_ :: items) => some (.list items)
  | .dotted [_] tail => some tail
  | .dotted (_ :: heads) tail => some (.dotted heads tail)
  | _ => none

/-- Putting one element in front is joining it as the only head. -/
theorem cons_eq_joinTail (x y : Value) : cons x y = joinTail [x] y := by
  cases y <;> rfl

/-- Heads may be joined one after the other. -/
theorem joinTail_cons (x y : Value) (heads : List Value) (tail : Value) :
    joinTail (x :: y :: heads) tail = cons x (joinTail (y :: heads) tail) := by
  cases tail <;> rfl

/-- A value has a first element exactly when it has a rest. -/
theorem first?_isSome_iff (v : Value) : v.first?.isSome = v.rest?.isSome := by
  unfold first? rest?
  split <;> split <;> simp_all

end SmallScheme.Value
