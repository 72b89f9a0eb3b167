import SmallScheme.Heap
import SmallScheme.Value.Inspect

/-
Module: SmallScheme.Heap.Inspect
Purpose: How scopes and cells are shown to whoever embeds the interpreter: a scope by its names in braces or by their
  count, a cell by the value it holds.
Main exports: Scope.listing, Scope.summary, cellForm
-/

namespace SmallScheme

/-- The names of a scope between braces. -/
def Scope.listing (s : Scope) : String :=
  "\x7b" ++ ", ".intercalate s.names ++ "\x7d"

/-- A scope by the count of its names. -/
def Scope.summary (s : Scope) : String :=
  "<Environment " ++ toString s.bindings.length ++ " bindings>"

/-- A cell by its value. -/
def cellForm (portForm : PortId → List Char) (v : Value) : String :=
  String.ofList ("Cell(".toList ++ v.inspect portForm ++ [')'])

end SmallScheme
