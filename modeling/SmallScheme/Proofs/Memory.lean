import SmallScheme.Heap

/-
Module: SmallScheme.Proofs.Memory
Purpose: What each operation on the memory does, told once. Writing changes one cell; defining either writes into the cell
  that the scope owns or adds one cell and associates the name with it in that scope alone; extending adds a scope with
  the associations of another and defines in it. What each definition of a new scope keeps, an extension keeps.
Main exports: Scope.cell?_own, Heap.define_of_owned, Heap.define_of_not_owned, Heap.cell?_define_of_not_owned,
  Heap.ownedCell?_define_of_not_owned, Heap.extend_induct
-/

namespace SmallScheme

theorem Scope.cell?_own (s : Scope) (name other : String) (c : CellId) :
    (s.own name c).cell? other = if other = name then some c else s.cell? other := by
  split
  · rename_i same
    subst same
    exact lookup_associate_self other c s.bindings
  · rename_i different
    exact lookup_associate_of_ne different c s.bindings

theorem Scope.mem_owned_own (s : Scope) (name other : String) (c : CellId) :
    other ∈ (s.own name c).owned ↔ other ∈ s.owned ∨ other = name := by
  unfold own
  by_cases listed : name ∈ s.owned
  · have absorbed : other = name → other ∈ s.owned := fun same => same ▸ listed
    simpa [listed] using absorbed
  · simp [listed]

namespace Heap

variable {h : Heap} {s : ScopeId} {name : String} {v : Value} {c : CellId}

/-!
### Scopes there are

A number that names no scope stands for an empty one, so only a scope that is there binds or owns a name.
-/

theorem scope_of_size_le (outside : h.scopes.size ≤ s) : h.scope s = {} := by
  simp [scope, Array.getElem?_eq_none outside]

theorem lt_size_of_cell? (bound : h.cell? s name = some c) : s < h.scopes.size := by
  apply Nat.lt_of_not_le
  intro outside
  simp [cell?, scope_of_size_le outside, Scope.cell?] at bound

theorem lt_size_of_mem_owned (listed : name ∈ (h.scope s).owned) : s < h.scopes.size := by
  apply Nat.lt_of_not_le
  intro outside
  simp [scope_of_size_le outside] at listed

theorem cell?_congr {k : Heap} (same : k.scope s = h.scope s) (name : String) : k.cell? s name = h.cell? s name := by
  simp only [cell?, same]

/-!
### Writing
-/

@[simp] theorem scopes_write (h : Heap) (c : CellId) (v : Value) : (h.write c v).scopes = h.scopes :=
  rfl

@[simp] theorem scope_write (h : Heap) (c : CellId) (v : Value) (s : ScopeId) : (h.write c v).scope s = h.scope s :=
  rfl

@[simp] theorem size_cells_write (h : Heap) (c : CellId) (v : Value) : (h.write c v).cells.size = h.cells.size := by
  simp [write]

/-- After writing, a cell holds the value if it is the one written to, and what it held otherwise. -/
theorem cells_write (h : Heap) (c d : CellId) (v : Value) :
    (h.write c v).cells[d]? = if c = d ∧ c < h.cells.size then some v else h.cells[d]? := by
  simp only [write, Array.getElem?_setIfInBounds]
  by_cases same : c = d
  · subst same
    by_cases inside : c < h.cells.size
    · simp [inside]
    · simp [inside]
  · simp [same]

/-!
### Defining
-/

/-- A name that the scope owns is defined by writing. -/
theorem define_of_owned (owned : h.ownedCell? s name = some c) (v : Value) : h.define s name v = h.write c v := by
  simp [define, owned]

/-- Any other name is defined by a new cell, which the scope has and owns from then on. -/
theorem define_of_not_owned (inherited : h.ownedCell? s name = none) (v : Value) :
    h.define s name v =
      { cells := h.cells.push v, scopes := h.scopes.modify s (·.own name h.cells.size) } := by
  simp [define, inherited]

/-- An owned cell is the cell of its name. -/
theorem cell?_of_ownedCell? (owned : h.ownedCell? s name = some c) :
    name ∈ (h.scope s).owned ∧ h.cell? s name = some c := by
  unfold ownedCell? at owned
  split at owned
  · rename_i listed
    exact ⟨List.contains_iff_mem.1 listed, owned⟩
  · cases owned

/-- A name that is owned and bound has an owned cell. -/
theorem ownedCell?_of_mem (listed : name ∈ (h.scope s).owned) : h.ownedCell? s name = h.cell? s name := by
  simp [ownedCell?, listed]

theorem scope_modify (h : Heap) (s t : ScopeId) (f : Scope → Scope) (cells : Array Value) :
    (Heap.mk cells (h.scopes.modify s f)).scope t = if s = t ∧ s < h.scopes.size then f (h.scope t) else h.scope t := by
  simp only [scope, Array.getElem?_modify]
  by_cases same : s = t
  · subst same
    by_cases inside : s < h.scopes.size
    · simp [inside]
    · simp [inside]
  · simp [same]

@[simp] theorem size_scopes_define (h : Heap) (s : ScopeId) (name : String) (v : Value) :
    (h.define s name v).scopes.size = h.scopes.size := by
  unfold define
  split <;> simp

theorem size_cells_le_define (h : Heap) (s : ScopeId) (name : String) (v : Value) :
    h.cells.size ≤ (h.define s name v).cells.size := by
  unfold define
  split <;> simp

/-- A definition leaves all other scopes as they are. -/
theorem scope_define_of_ne {t : ScopeId} (other : t ≠ s) (name : String) (v : Value) :
    (h.define s name v).scope t = h.scope t := by
  cases owned : h.ownedCell? s name with
  | some c => rw [define_of_owned owned, scope_write]
  | none =>
      rw [define_of_not_owned owned, scope_modify]
      simp [Ne.symm other]

/-- The scope in which a name is defined owns it from then on, with a new cell if it did not before. -/
theorem scope_define_self (inherited : h.ownedCell? s name = none) (inside : s < h.scopes.size) (v : Value) :
    (h.define s name v).scope s = (h.scope s).own name h.cells.size := by
  rw [define_of_not_owned inherited, scope_modify]
  simp [inside]

/-- After the definition of a name that was not owned, the name has the new cell there, and all else is as before. -/
theorem cell?_define_of_not_owned (inherited : h.ownedCell? s name = none) (v : Value) (t : ScopeId)
    (other : String) :
    (h.define s name v).cell? t other =
      if (t = s ∧ s < h.scopes.size) ∧ other = name then some h.cells.size else h.cell? t other := by
  by_cases there : t = s ∧ s < h.scopes.size
  · obtain ⟨rfl, inside⟩ := there
    simp only [cell?, scope_define_self inherited inside, Scope.cell?_own, inside, true_and]
  · rw [if_neg fun both => there both.1, define_of_not_owned inherited]
    refine cell?_congr ?_ other
    rw [scope_modify, if_neg fun both => there ⟨both.1.symm, both.2⟩]

/-- After the definition of a name that was not owned, the scope owns the new cell under it, and all else is owned as
    before. -/
theorem ownedCell?_define_of_not_owned (inherited : h.ownedCell? s name = none) (v : Value) (t : ScopeId)
    (other : String) :
    (h.define s name v).ownedCell? t other =
      if (t = s ∧ s < h.scopes.size) ∧ other = name then some h.cells.size else h.ownedCell? t other := by
  by_cases there : t = s ∧ s < h.scopes.size
  · obtain ⟨rfl, inside⟩ := there
    simp only [ownedCell?, cell?_define_of_not_owned inherited, scope_define_self inherited inside,
      List.contains_iff_mem, Scope.mem_owned_own, inside, true_and]
    by_cases same : other = name
    · simp [same]
    · simp [same]
  · have unchanged : (h.define s name v).scope t = h.scope t := by
      rw [define_of_not_owned inherited, scope_modify, if_neg fun both => there ⟨both.1.symm, both.2⟩]
    rw [if_neg fun both => there both.1]
    simp only [ownedCell?, cell?, unchanged]

theorem size_cells_define_of_not_owned (inherited : h.ownedCell? s name = none) (v : Value) :
    (h.define s name v).cells.size = h.cells.size + 1 := by
  rw [define_of_not_owned inherited]
  simp

/-- A definition leaves each scope as it is or has it own one more name. -/
theorem scope_define (h : Heap) (s : ScopeId) (name : String) (v : Value) (t : ScopeId) :
    (h.define s name v).scope t = h.scope t ∨ (h.define s name v).scope t = (h.scope t).own name h.cells.size := by
  cases owned : h.ownedCell? s name with
  | some c =>
      rw [define_of_owned owned]
      exact .inl rfl
  | none =>
      rw [define_of_not_owned owned, scope_modify]
      split
      · exact .inr rfl
      · exact .inl rfl

theorem owned_subset_define (h : Heap) (s : ScopeId) (name : String) (v : Value) (t : ScopeId) :
    (h.scope t).owned ⊆ ((h.define s name v).scope t).owned := by
  intro other listed
  obtain same | owning := h.scope_define s name v t
  · rwa [same]
  · rw [owning, Scope.mem_owned_own]
    exact .inl listed

theorem mem_cells_define {w : Value} (member : w ∈ (h.define s name v).cells) : w ∈ h.cells ∨ w = v := by
  cases owned : h.ownedCell? s name with
  | some c =>
      rw [define_of_owned owned] at member
      exact Array.mem_or_eq_of_mem_setIfInBounds member
  | none =>
      rw [define_of_not_owned owned] at member
      exact Array.mem_push.1 member

/-!
### Extending
-/

theorem scope_addScope (h : Heap) (new : Scope) (t : ScopeId) :
    (h.addScope new).1.scope t = if t = h.scopes.size then new else h.scope t := by
  simp only [addScope, scope, Array.getElem?_push]
  split <;> rfl

theorem scope_addScope_of_lt {t : ScopeId} (old : t < h.scopes.size) (new : Scope) :
    (h.addScope new).1.scope t = h.scope t := by
  rw [scope_addScope, if_neg (Nat.ne_of_lt old)]

theorem scope_addScope_self (h : Heap) (new : Scope) : (h.addScope new).1.scope h.scopes.size = new := by
  rw [scope_addScope, if_pos rfl]

@[simp] theorem size_scopes_addScope (h : Heap) (new : Scope) :
    (h.addScope new).1.scopes.size = h.scopes.size + 1 := by
  simp [addScope]

theorem cell?_addScope (h : Heap) (new : Scope) (t : ScopeId) (name : String) :
    (h.addScope new).1.cell? t name = if t = h.scopes.size then new.cell? name else h.cell? t name := by
  simp only [cell?, scope_addScope]
  split <;> rfl

/-- A new scope that owns nothing changes nothing about what is owned. -/
theorem ownedCell?_addScope (h : Heap) {new : Scope} (disowning : new.owned = []) (t : ScopeId) (name : String) :
    (h.addScope new).1.ownedCell? t name = h.ownedCell? t name := by
  by_cases fresh : t = h.scopes.size
  · simp [ownedCell?, scope_addScope, fresh, disowning, scope_of_size_le (Nat.le_refl h.scopes.size)]
  · simp only [ownedCell?, cell?, scope_addScope, if_neg fresh]


/-- What several definitions in one scope keep if each of them does. -/
theorem defineAll_induct {kept : Heap → Prop} {bindings : List (String × Value)}
    (step : ∀ h, kept h → ∀ b ∈ bindings, kept (h.define s b.1 b.2)) (start : kept h) :
    kept (h.defineAll s bindings) :=
  List.foldlRecOn bindings _ start fun h held b member => step h held b member

/-- What an extension keeps if the copied scope and each definition in it do. -/
theorem extend_induct {kept : Heap → Prop} {bindings : List (String × Value)}
    (copied : kept (h.addScope { bindings := (h.scope s).bindings, owned := [] }).1)
    (step : ∀ k, kept k → ∀ b ∈ bindings, kept (k.define h.scopes.size b.1 b.2)) : kept (h.extend s bindings).1 :=
  defineAll_induct step copied

end Heap

end SmallScheme
