import SmallScheme.Coercion
import SmallScheme.Primitive

/-
Module: SmallScheme.Library.Numbers
Purpose: Arithmetic and the tests of numbers, strings and truth values. Arithmetic takes two or more numbers and folds
  them from the left, wrapping after every step. Of the division pairs one rounds to the floor (`/`, `mod`) and one
  toward zero (`quotient`, `remainder`). All arguments are coerced, in order, before anything is computed.
Main exports: Arithmetic.combine, Arithmetic.call, NumberTest.call, StringTest.call, Connective.call
-/

namespace SmallScheme

/-- One step of arithmetic on two numbers. -/
def Arithmetic.combine (op : Arithmetic) (a b : Int) : Except Fault Int :=
  match op with
  | .add => .ok (Number.wrap (a + b))
  | .subtract => .ok (Number.wrap (a - b))
  | .multiply => .ok (Number.wrap (a * b))
  | .divide => if b = 0 then .error .divisionByZero else .ok (Number.wrap (a.fdiv b))
  | .modulo => if b = 0 then .error .divisionByZero else .ok (Number.wrap (a.fmod b))
  | .quotient => if b = 0 then .error .divisionByZero else .ok (Number.wrap (a.tdiv b))
  | .remainder => if b = 0 then .error .divisionByZero else .ok (Number.wrap (a.tmod b))

/-- The left fold of numbers, the first of which starts it. -/
def Arithmetic.fold (op : Arithmetic) : List Int → Except Fault Int
  | [] => .ok 0
  | n :: ns => ns.foldlM op.combine n

/-- A call of an arithmetic operation. -/
def Arithmetic.call (op : Arithmetic) (args : List Value) : Except Fault Value :=
  if args.length < 2 then .error (.argumentCount 2 args)
  else do
    let ns ← args.mapM toNumber
    let n ← op.fold ns
    return .num n

/-- A call of a test on exactly two arguments, both coerced, the left one first. -/
def callTest {α : Type} (coerce : Value → Except Fault α) (test : α → α → Bool) :
    List Value → Except Fault Value
  | [x, y] => do
    let a ← coerce x
    let b ← coerce y
    return .bool (test a b)
  | args => .error (.argumentCount 2 args)

/-- What a comparison of numbers says. -/
def NumberTest.holds (test : NumberTest) (a b : Int) : Bool :=
  match test with
  | .equal => a = b
  | .less => a < b
  | .greater => b < a
  | .notEqual => a ≠ b
  | .atLeast => b ≤ a
  | .atMost => a ≤ b

/-- A call of a comparison of numbers. -/
def NumberTest.call (test : NumberTest) : List Value → Except Fault Value :=
  callTest toNumber test.holds

/-- What a comparison of strings says; strings are ordered by their code points. -/
def StringTest.holds (test : StringTest) (a b : String) : Bool :=
  match test with
  | .equal => a = b
  | .less => a < b
  | .greater => b < a
  | .atMost => ¬ b < a
  | .atLeast => ¬ a < b

/-- A call of a comparison of strings. -/
def StringTest.call (test : StringTest) : List Value → Except Fault Value :=
  callTest toText test.holds

/-- What an operation on truth values gives. -/
def Connective.holds (op : Connective) (a b : Bool) : Bool :=
  match op with
  | .both => a && b
  | .either => a || b

/-- A call of an operation on truth values. -/
def Connective.call (op : Connective) : List Value → Except Fault Value :=
  callTest toTruth op.holds

end SmallScheme
