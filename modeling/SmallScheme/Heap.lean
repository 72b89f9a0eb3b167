import SmallScheme.Value

/-
Module: SmallScheme.Heap
Purpose: Names, scopes and memory. A scope maps names to cells and remembers which of its names it owns, that is, whose
  cells it made itself. There is no link to an outer scope: extending a scope copies its associations, so that the two
  share the cells, and owns nothing at first. Assignment writes into a cell and is seen wherever the cell is shared;
  definition writes into a cell that the scope owns and otherwise makes a new one, which only this scope has. Names
  keep the order in which they were first bound.
Main exports: Scope, Heap, Heap.cell?, Heap.lookup?, Heap.write, Heap.define, Heap.extend, Heap.share, Heap.sameScope
-/

namespace SmallScheme

/-- The associations of a scope, in the order in which the names were first bound, and the names it owns. -/
structure Scope where
  bindings : List (String × CellId) := []
  owned : List String := []
deriving DecidableEq, Repr, Inhabited

namespace Scope

/-- The cell of a name. -/
def cell? (s : Scope) (name : String) : Option CellId :=
  s.bindings.lookup name

/-- The names that are bound. -/
def names (s : Scope) : List String :=
  s.bindings.map (·.1)

/-- Whether a name is bound. -/
def binds (s : Scope) (name : String) : Bool :=
  (s.cell? name).isSome

/-- The associations with a name at a cell: a bound name keeps its position, a new one comes last. -/
def associate (name : String) (cell : CellId) : List (String × CellId) → List (String × CellId)
  | [] => [(name, cell)]
  | (other, old) :: rest =>
    if name = other then (name, cell) :: rest else (other, old) :: associate name cell rest

/-- The scope that also owns a name, at the given cell. -/
def own (s : Scope) (name : String) (cell : CellId) : Scope :=
  { bindings := associate name cell s.bindings
    owned := if s.owned.contains name then s.owned else s.owned ++ [name] }

/-- A name just associated has that cell. -/
theorem lookup_associate_self (name : String) (cell : CellId) (bindings : List (String × CellId)) :
    (associate name cell bindings).lookup name = some cell := by
  induction bindings with
  | nil => simp [associate]
  | cons b rest ih =>
    obtain ⟨other, old⟩ := b
    by_cases same : name = other
    · simp [associate, same]
    · simp [associate, same, List.lookup_cons, beq_eq_false_iff_ne.2 same, ih]

/-- Other names keep their cells. -/
theorem lookup_associate_of_ne {name other : String} (different : other ≠ name) (cell : CellId)
    (bindings : List (String × CellId)) :
    (associate name cell bindings).lookup other = bindings.lookup other := by
  induction bindings with
  | nil => simp [associate, different]
  | cons b rest ih =>
    obtain ⟨third, old⟩ := b
    by_cases same : name = third
    · subst same
      simp [associate, List.lookup_cons, beq_eq_false_iff_ne.2 different]
    · simp only [associate, same, if_false, List.lookup_cons, ih]

end Scope

/-- The memory of the interpreter: the contents of the cells and the scopes. -/
structure Heap where
  cells : Array Value := #[]
  scopes : Array Scope := #[]
deriving DecidableEq, Repr, Inhabited

namespace Heap

/-- A scope; a number that names none stands for an empty one. -/
def scope (h : Heap) (s : ScopeId) : Scope :=
  h.scopes[s]?.getD {}

/-- The cell of a name in a scope. -/
def cell? (h : Heap) (s : ScopeId) (name : String) : Option CellId :=
  (h.scope s).cell? name

/-- The value of a name in a scope. -/
def lookup? (h : Heap) (s : ScopeId) (name : String) : Option Value :=
  (h.cell? s name).bind (h.cells[·]?)

/-- Writes a value into a cell. -/
def write (h : Heap) (c : CellId) (v : Value) : Heap :=
  { h with cells := h.cells.setIfInBounds c v }

/-- The cell of a name that a scope owns. -/
def ownedCell? (h : Heap) (s : ScopeId) (name : String) : Option CellId :=
  if (h.scope s).owned.contains name then h.cell? s name else none

/-- Binds a name in one scope: in the cell it owns for that name, or in a new cell. -/
def define (h : Heap) (s : ScopeId) (name : String) (v : Value) : Heap :=
  match h.ownedCell? s name with
  | some c => h.write c v
  | none =>
    let fresh := h.cells.size
    { cells := h.cells.push v
      scopes := h.scopes.modify s (·.own name fresh) }

/-- Binds several names, one after the other. -/
def defineAll (h : Heap) (s : ScopeId) (bindings : List (String × Value)) : Heap :=
  bindings.foldl (fun h b => h.define s b.1 b.2) h

/-- Adds a scope and gives its number. -/
def addScope (h : Heap) (s : Scope) : Heap × ScopeId :=
  let new := h.scopes.size
  ({ h with scopes := h.scopes.push s }, new)

/-- A new scope with the associations of another, owning nothing, and with further names defined in it. -/
def extend (h : Heap) (s : ScopeId) (bindings : List (String × Value)) : Heap × ScopeId :=
  let (h, new) := h.addScope { bindings := (h.scope s).bindings, owned := [] }
  (h.defineAll new bindings, new)

/-- A new scope that owns, for some names of another, the very cells that the other has for them. -/
def share (h : Heap) (s : ScopeId) (names : List String) : Heap × ScopeId :=
  let source := h.scope s
  h.addScope (names.foldl (fun new name =>
    match source.cell? name with
    | some c => new.own name c
    | none => new) {})

/-- Whether two scopes bind the same names to the very same cells. -/
def sameScope (h : Heap) (s t : ScopeId) : Bool :=
  s == t || ((h.scope s).bindings.length == (h.scope t).bindings.length
    && (h.scope s).bindings.all fun b => (h.scope t).cell? b.1 == some b.2)

end Heap

end SmallScheme
