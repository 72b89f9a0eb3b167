import SmallScheme.Coercion
import SmallScheme.Equality.Strict

/-
Module: SmallScheme.Equality
Purpose: Loose equality. It compares lists of the same kind element by element and takes two other values as equal if they
  are equal after some coercion, or strictly.
Main exports: equalAfter, agree, isEqual
-/

namespace SmallScheme

/-- Whether two values are equal after a coercion that takes both. A value it does not take is equal to nothing
    that way; any other fault of the coercion stands. -/
def equalAfter {α : Type} [BEq α] (coerce : Value → Except Fault α) (a b : Value) : Except Fault Bool :=
  match coerce a with
  | .error (.wrongKind _ _) => .ok false
  | .error fault => .error fault
  | .ok x =>
    match coerce b with
    | .error (.wrongKind _ _) => .ok false
    | .error fault => .error fault
    | .ok y => .ok (x == y)

/-- Whether the first test holds or else the second; the second is not made if the first holds or fails. -/
def orElseTest (first : Except Fault Bool) (second : Unit → Except Fault Bool) : Except Fault Bool :=
  match first with
  | .ok false => second ()
  | other => other

/-- Whether the first test holds and then the second; the second is not made unless the first holds. -/
def andThenTest (first : Except Fault Bool) (second : Unit → Except Fault Bool) : Except Fault Bool :=
  match first with
  | .ok true => second ()
  | other => other

/-- Whether two values that are not lists of the same kind are loosely equal: as numbers, as texts, as truth
    values, or strictly. -/
def agree (h : Heap) (a b : Value) : Except Fault Bool :=
  orElseTest (equalAfter toNumber a b) fun _ =>
    orElseTest (equalAfter toText a b) fun _ =>
      orElseTest (equalAfter toTruth a b) fun _ => .ok (isEqv h a b)

mutual

/-- Loose equality. -/
def isEqual (h : Heap) : Value → Value → Except Fault Bool
  | .list xs, .list ys =>
    if xs.length = ys.length then eachEqual h xs ys else .ok false
  | .dotted xs x, .dotted ys y =>
    if xs.length = ys.length then andThenTest (eachEqual h xs ys) fun _ => isEqual h x y
    else .ok false
  | a, b => agree h a b

/-- Loose equality of lists of one length, up to the first difference. -/
def eachEqual (h : Heap) : List Value → List Value → Except Fault Bool
  | x :: xs, y :: ys => andThenTest (isEqual h x y) fun _ => eachEqual h xs ys
  | _, _ => .ok true

end

end SmallScheme
