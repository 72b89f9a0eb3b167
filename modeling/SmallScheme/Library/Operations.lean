import SmallScheme.Library.Numbers
import SmallScheme.Equality
import SmallScheme.Value.Pair

/-
Module: SmallScheme.Library.Operations
Purpose: Calls of the built-in procedures that only compute. They look at the memory, which strict equality of closures
  needs, and never change it.
Main exports: callFirst, callRest, callCons, Operation.call
-/

namespace SmallScheme

/-- A call of `car`: the first element of a non-empty list of either kind. -/
def callFirst : List Value → Except Fault Value
  | [v] =>
    match v.first? with
    | some x => .ok x
    | none => .error (.wrongKind .pair v)
  | args => .error (.argumentCount 1 args)

/-- A call of `cdr`: what follows the first element. -/
def callRest : List Value → Except Fault Value
  | [v] =>
    match v.rest? with
    | some rest => .ok rest
    | none => .error (.wrongKind .pair v)
  | args => .error (.argumentCount 1 args)

/-- A call of `cons`. -/
def callCons : List Value → Except Fault Value
  | [x, y] => .ok (Value.cons x y)
  | args => .error (.argumentCount 2 args)

/-- A call of strict equality. -/
def callEqv (h : Heap) : List Value → Except Fault Value
  | [x, y] => .ok (.bool (isEqv h x y))
  | args => .error (.argumentCount 2 args)

/-- A call of loose equality. -/
def callEqual (h : Heap) : List Value → Except Fault Value
  | [x, y] => (isEqual h x y).map .bool
  | args => .error (.argumentCount 2 args)

/-- A call of a procedure that only computes. -/
def Operation.call (h : Heap) (op : Operation) (args : List Value) : Except Fault Value :=
  match op with
  | .arithmetic op => op.call args
  | .numberTest test => test.call args
  | .connective op => op.call args
  | .stringTest test => test.call args
  | .car => callFirst args
  | .cdr => callRest args
  | .cons => callCons args
  | .isEq | .isEqv => callEqv h args
  | .isEqual => callEqual h args

end SmallScheme
