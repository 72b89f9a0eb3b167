import SmallScheme.Value
import SmallScheme.Number

/-
Module: SmallScheme.Value.Printer
Purpose: The written form of a value, as the prompt and `write` show it. Data are written so that the reader reads
  them back: truth values as `#t` and `#f`, strings between double quotes with a backslash before `"` and
  before `\`, and everything else in a string as it is. Closures show their parameters only, built-in
  procedures and ports only their kind.
Main exports: Value.render, Value.renderAll, Value.text, spaced
-/

namespace SmallScheme.Value

/-- The characters of a string literal that stand for one character. -/
def renderChar (c : Char) : List Char :=
  if c = '"' ∨ c = '\\' then ['\\', c] else [c]

/-- A string literal. -/
def renderString (s : String) : List Char :=
  '"' :: s.toList.flatMap renderChar ++ ['"']

/-- Words with a blank between neighbours. -/
def spaced : List (List Char) → List Char
  | [] => []
  | [w] => w
  | w :: ws => w ++ ' ' :: spaced ws

/-- The parameter list of a closure and a sign that something was left out. -/
def renderLambda (params : List String) (rest? : Option String) : List Char :=
  let fixed := params.map String.toList
  let words := match rest? with
    | none => fixed
    | some r => fixed ++ [['.'], r.toList]
  "(lambda (".toList ++ spaced words ++ ") ...)".toList

mutual

/-- The written form of a value. -/
def render : Value → List Char
  | .bool true => "#t".toList
  | .bool false => "#f".toList
  | .num n => Number.decimal n
  | .str s => renderString s
  | .sym name => name.toList
  | .list items => '(' :: renderAll items ++ [')']
  | .dotted heads tail => '(' :: renderAll heads ++ (" . ".toList ++ render tail ++ [')'])
  | .closure params rest? _ _ => renderLambda params rest?
  | .prim (.operation _) => "<primitive>".toList
  | .prim (.effect _) => "<IO primitive>".toList
  | .port _ => "<IO port>".toList

/-- The written forms of several values, with a blank between neighbours. -/
def renderAll : List Value → List Char
  | [] => []
  | v :: vs => render v ++ renderMore vs

/-- The written forms of several values, with a blank before each. -/
def renderMore : List Value → List Char
  | [] => []
  | v :: vs => ' ' :: render v ++ renderMore vs

end

@[simp] theorem render_list (items : List Value) : (Value.list items).render = '(' :: renderAll items ++ [')'] :=
  rfl

@[simp] theorem render_dotted (heads : List Value) (tail : Value) :
    (Value.dotted heads tail).render = '(' :: renderAll heads ++ (" . ".toList ++ render tail ++ [')']) :=
  rfl

@[simp] theorem render_closure (params : List String) (rest? : Option String) (body : List Value) (s : ScopeId) :
    (Value.closure params rest? body s).render = renderLambda params rest? :=
  rfl

@[simp] theorem renderAll_cons (v : Value) (vs : List Value) : renderAll (v :: vs) = render v ++ renderMore vs :=
  rfl

@[simp] theorem renderMore_cons (v : Value) (vs : List Value) : renderMore (v :: vs) = ' ' :: render v ++ renderMore vs :=
  rfl

/-- The written form of a value as a string. -/
def text (v : Value) : String :=
  String.ofList v.render

end SmallScheme.Value
