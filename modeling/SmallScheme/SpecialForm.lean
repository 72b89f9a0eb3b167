import SmallScheme.Value

/-
Module: SmallScheme.SpecialForm
Purpose: The shapes of the six special forms. A list that starts with one of six keywords is a special form wherever it
  stands, and its elements are taken apart by shape alone, before anything is evaluated: a list that has none of the
  shapes of its keyword is no form. Parameters are names in a list, names before a dot and a last name for the rest
  of the arguments, or that last name alone.
Main exports: Keyword, Keyword.ofName?, Parameters, Parameters.ofValue?, SpecialForm, SpecialForm.ofElements?
-/

namespace SmallScheme

/-- The keywords of the special forms. -/
inductive Keyword where
  | quote | choice | assignment | definition | abstraction | loading
deriving DecidableEq, Repr, Inhabited

/-- The written name of a keyword. -/
def Keyword.name : Keyword → String
  | .quote => "quote"
  | .choice => "if"
  | .assignment => "set!"
  | .definition => "define"
  | .abstraction => "lambda"
  | .loading => "load"

/-- The keyword of a name. -/
def Keyword.ofName? (name : String) : Option Keyword :=
  [Keyword.quote, .choice, .assignment, .definition, .abstraction, .loading].find? (·.name == name)

/-- A keyword is found under its name. -/
theorem Keyword.ofName?_name (k : Keyword) : Keyword.ofName? k.name = some k := by
  cases k <;> decide

/-- The parameters of a closure: names for the first arguments, and perhaps one for the list of the rest. -/
structure Parameters where
  fixed : List String
  rest? : Option String
deriving DecidableEq, Repr, Inhabited

/-- The name of a symbol. -/
def symbolName? : Value → Option String
  | .sym name => some name
  | _ => none

/-- Parameters that a value describes, if it is a symbol, a list of symbols or a dotted list of symbols. -/
def Parameters.ofValue? : Value → Option Parameters
  | .sym rest => some { fixed := [], rest? := some rest }
  | .list names => (names.mapM symbolName?).map fun fixed => { fixed, rest? := none }
  | .dotted names (.sym rest) => (names.mapM symbolName?).map fun fixed => { fixed, rest? := some rest }
  | _ => none

/-- A special form in its parts. -/
inductive SpecialForm where
  /-- A datum as it is. -/
  | quote (datum : Value)
  /-- One of two expressions, as a test decides. -/
  | choice (test yes no : Value)
  /-- An assignment to a bound name. -/
  | assignment (name : String) (value : Value)
  /-- A definition of a name. -/
  | definition (name : String) (value : Value)
  /-- A definition of a name as a closure. -/
  | procedure (name : String) (params : Parameters) (body : List Value)
  /-- A closure. -/
  | abstraction (params : Parameters) (body : List Value)
  /-- The forms of a file. -/
  | loading (file : String)
deriving DecidableEq, Repr, Inhabited

/-- What stands behind the name in the head of a procedure definition: of a dotted head with nothing between the name
    and the dot, that is the tail alone. -/
def headParameters (names : List Value) (tail : Value) : Value :=
  if names = [] then tail else .dotted names tail

/-- The special form that a keyword makes with the elements behind it. -/
def SpecialForm.ofElements? : Keyword → List Value → Option SpecialForm
  | .quote, [datum] => some (.quote datum)
  | .choice, [test, yes, no] => some (.choice test yes no)
  | .assignment, [.sym name, value] => some (.assignment name value)
  | .definition, [.sym name, value] => some (.definition name value)
  | .definition, .list (.sym name :: names) :: body =>
    (Parameters.ofValue? (.list names)).map (.procedure name · body)
  | .definition, .dotted (.sym name :: names) tail :: body =>
    (Parameters.ofValue? (headParameters names tail)).map (.procedure name · body)
  | .abstraction, params :: body => (Parameters.ofValue? params).map (.abstraction · body)
  | .loading, [.str file] => some (.loading file)
  | _, _ => none

end SmallScheme
