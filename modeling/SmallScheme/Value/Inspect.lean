import SmallScheme.Value.Printer
import SmallScheme.Text.Quoted

/-
Module: SmallScheme.Value.Inspect
Purpose: The form of a value that is meant for whoever embeds the interpreter. Other than the written form it tells
  the kinds apart: strings are quoted as diagnostics quote them, symbols are marked, a dotted list
  shows its two parts, and built-in procedures and ports show their names.
Main exports: Value.inspect
-/

namespace SmallScheme.Value

/-- The marked form of a symbol. -/
def inspectSymbol (name : String) : List Char :=
  "Symbol(".toList ++ Text.quoted name.toList ++ [')']

/-- The form of a built-in procedure: its kind and its name. -/
def inspectPrimitive : Primitive → List Char
  | .operation op => "<Primitive ".toList ++ op.name.toList ++ ['>']
  | .effect e => "<IOPrimitive ".toList ++ e.name.toList ++ ['>']

mutual

/-- The form of a value for embedders; `portForm` says how a port is shown. -/
def inspect (portForm : PortId → List Char) : Value → List Char
  | .bool true => "True".toList
  | .bool false => "False".toList
  | .num n => Number.decimal n
  | .str s => Text.quoted s.toList
  | .sym name => inspectSymbol name
  | .list items => '[' :: inspectAll portForm items ++ [']']
  | .dotted heads tail =>
    "DottedList(heads=[".toList ++ inspectAll portForm heads ++ "], tail=".toList
      ++ inspect portForm tail ++ [')']
  | .closure params rest? _ _ => renderLambda params rest?
  | .prim p => inspectPrimitive p
  | .port id => portForm id

/-- Several values, with a comma and a blank between neighbours. -/
def inspectAll (portForm : PortId → List Char) : List Value → List Char
  | [] => []
  | v :: vs => inspect portForm v ++ inspectMore portForm vs

/-- Several values, with a comma and a blank before each. -/
def inspectMore (portForm : PortId → List Char) : List Value → List Char
  | [] => []
  | v :: vs => ", ".toList ++ inspect portForm v ++ inspectMore portForm vs

end

end SmallScheme.Value
