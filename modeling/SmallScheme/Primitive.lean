/-
Module: SmallScheme.Primitive
Purpose: The built-in procedures, as data: which there are, what each is called, and in which order a root
  scope binds them. What they do is defined elsewhere. Two built-in procedures are the same exactly when
  they are the same constructor, so `eq?` and `eqv?`, or the two that close ports, are different procedures
  although they act alike.
Main exports: Arithmetic, NumberTest, StringTest, Connective, Operation, Effect, Primitive, Primitive.name,
  Primitive.ofName?, operations, effects, primitives
-/

namespace SmallScheme

/-- The operations that fold two or more numbers. -/
inductive Arithmetic where
  | add | subtract | multiply | divide | modulo | quotient | remainder
deriving DecidableEq, Repr, Inhabited

/-- The comparisons of two numbers. -/
inductive NumberTest where
  | equal | less | greater | notEqual | atLeast | atMost
deriving DecidableEq, Repr, Inhabited

/-- The comparisons of two strings. -/
inductive StringTest where
  | equal | less | greater | atMost | atLeast
deriving DecidableEq, Repr, Inhabited

/-- The operations on two truth values. -/
inductive Connective where
  | both | either
deriving DecidableEq, Repr, Inhabited

/-- A procedure that only computes. -/
inductive Operation where
  | arithmetic (op : Arithmetic)
  | numberTest (test : NumberTest)
  | connective (op : Connective)
  | stringTest (test : StringTest)
  | car
  | cdr
  | cons
  | isEq
  | isEqv
  | isEqual
deriving DecidableEq, Repr, Inhabited

/-- A procedure that calls back, or that uses ports and files. -/
inductive Effect where
  | apply
  | openInput
  | openOutput
  | closeInput
  | closeOutput
  | read
  | write
  | readContents
  | readAll
deriving DecidableEq, Repr, Inhabited

/-- A built-in procedure. -/
inductive Primitive where
  | operation (op : Operation)
  | effect (e : Effect)
deriving DecidableEq, Repr, Inhabited

/-- The name of an arithmetic operation. -/
def Arithmetic.name : Arithmetic → String
  | .add => "+"
  | .subtract => "-"
  | .multiply => "*"
  | .divide => "/"
  | .modulo => "mod"
  | .quotient => "quotient"
  | .remainder => "remainder"

/-- The name of a comparison of numbers. -/
def NumberTest.name : NumberTest → String
  | .equal => "="
  | .less => "<"
  | .greater => ">"
  | .notEqual => "/="
  | .atLeast => ">="
  | .atMost => "<="

/-- The name of a comparison of strings. -/
def StringTest.name : StringTest → String
  | .equal => "string=?"
  | .less => "string<?"
  | .greater => "string>?"
  | .atMost => "string<=?"
  | .atLeast => "string>=?"

/-- The name of an operation on truth values. -/
def Connective.name : Connective → String
  | .both => "&&"
  | .either => "||"

/-- The name of a procedure that only computes. -/
def Operation.name : Operation → String
  | .arithmetic op => op.name
  | .numberTest test => test.name
  | .connective op => op.name
  | .stringTest test => test.name
  | .car => "car"
  | .cdr => "cdr"
  | .cons => "cons"
  | .isEq => "eq?"
  | .isEqv => "eqv?"
  | .isEqual => "equal?"

/-- The name of a procedure with effects. -/
def Effect.name : Effect → String
  | .apply => "apply"
  | .openInput => "open-input-file"
  | .openOutput => "open-output-file"
  | .closeInput => "close-input-port"
  | .closeOutput => "close-output-port"
  | .read => "read"
  | .write => "write"
  | .readContents => "read-contents"
  | .readAll => "read-all"

/-- The name under which a root scope binds a built-in procedure. -/
def Primitive.name : Primitive → String
  | .operation op => op.name
  | .effect e => e.name

/-- The procedures that only compute, in the order in which a root scope binds them. -/
def operations : List Operation :=
  [.arithmetic .add, .arithmetic .subtract, .arithmetic .multiply, .arithmetic .divide,
    .arithmetic .modulo, .arithmetic .quotient, .arithmetic .remainder,
    .numberTest .equal, .numberTest .less, .numberTest .greater, .numberTest .notEqual,
    .numberTest .atLeast, .numberTest .atMost,
    .connective .both, .connective .either,
    .stringTest .equal, .stringTest .less, .stringTest .greater, .stringTest .atMost,
    .stringTest .atLeast,
    .car, .cdr, .cons, .isEq, .isEqv, .isEqual]

/-- The procedures with effects, in the order in which a root scope binds them after the others. -/
def effects : List Effect :=
  [.apply, .openInput, .openOutput, .closeInput, .closeOutput, .read, .write, .readContents, .readAll]

/-- All built-in procedures, in the order in which a root scope binds them. -/
def primitives : List Primitive :=
  operations.map .operation ++ effects.map .effect

/-- The procedure of a name. -/
def Primitive.ofName? (name : String) : Option Primitive :=
  primitives.find? (·.name == name)

/-- Every operation is listed. -/
theorem mem_operations (op : Operation) : op ∈ operations := by
  cases op with
  | arithmetic op => cases op <;> decide
  | numberTest test => cases test <;> decide
  | connective op => cases op <;> decide
  | stringTest test => cases test <;> decide
  | _ => decide

/-- Every effect is listed. -/
theorem mem_effects (e : Effect) : e ∈ effects := by
  cases e <;> decide

/-- Every built-in procedure is listed. -/
theorem mem_primitives (p : Primitive) : p ∈ primitives := by
  cases p with
  | operation op => exact List.mem_append_left _ (List.mem_map_of_mem (mem_operations op))
  | effect e => exact List.mem_append_right _ (List.mem_map_of_mem (mem_effects e))

end SmallScheme
