import SmallScheme.Proofs.Memory
import SmallScheme.Proofs.Sessions

/-
Module: SmallScheme.Proofs.Associations
Purpose: Whose names an evaluation changes. Definitions land in the scope of the evaluation or in a frame made meanwhile,
  so every other scope there was keeps its associations; the scope itself loses no name, keeps the cell of every name it
  owns, and gives any other name at most a new cell, which it then owns. This needs nothing of the expression, the scope
  or the memory, and holds however the evaluation ends.
Main exports: ChangesOnly, ChangesOnly.define_self, associationKeeping, eval_changesOnly, associations_of_eval
-/

namespace SmallScheme

/-- From one memory to a later one, only one scope of the first has changed its associations, and that only by new names
    and by new cells of its own for names it had not owned. -/
structure ChangesOnly (e : ScopeId) (before after : Heap) : Prop where
  scopes_le : before.scopes.size ≤ after.scopes.size
  cells_le : before.cells.size ≤ after.cells.size
  others : ∀ s, s < before.scopes.size → s ≠ e → after.scope s = before.scope s
  owned : ∀ name ∈ (before.scope e).owned, name ∈ (after.scope e).owned
  bound : ∀ name c, before.cell? e name = some c → after.cell? e name = some c ∨
    name ∉ (before.scope e).owned ∧ ∃ d, after.cell? e name = some d ∧
      before.cells.size ≤ d ∧ d < after.cells.size ∧ name ∈ (after.scope e).owned

namespace ChangesOnly

variable {e : ScopeId} {first h k : Heap}

theorem refl (e : ScopeId) (h : Heap) : ChangesOnly e h h where
  scopes_le := Nat.le_refl _
  cells_le := Nat.le_refl _
  others _ _ _ := rfl
  owned _ listed := listed
  bound _ _ found := .inl found

/-- A step that leaves the scopes of the first memory as they are changes none of them. -/
theorem step (kept : ChangesOnly e first h) (scopes_le : h.scopes.size ≤ k.scopes.size)
    (cells_le : h.cells.size ≤ k.cells.size) (same : ∀ s, s < first.scopes.size → k.scope s = h.scope s) :
    ChangesOnly e first k where
  scopes_le := Nat.le_trans kept.scopes_le scopes_le
  cells_le := Nat.le_trans kept.cells_le cells_le
  others s old other := (same s old).trans (kept.others s old other)
  owned name listed := by
    rw [same e (Heap.lt_size_of_mem_owned listed)]
    exact kept.owned name listed
  bound name c found := by
    have unchanged := same e (Heap.lt_size_of_cell? found)
    rw [Heap.cell?_congr unchanged, unchanged]
    rcases kept.bound name c found with keeps | ⟨inherited, d, fresh, low, high, owns⟩
    · exact .inl keeps
    · exact .inr ⟨inherited, d, fresh, low, Nat.lt_of_lt_of_le high cells_le, owns⟩

/-- A name that got a new cell owns it, so that later changes keep it. -/
theorem trans (kept : ChangesOnly e first h) (next : ChangesOnly e h k) : ChangesOnly e first k where
  scopes_le := Nat.le_trans kept.scopes_le next.scopes_le
  cells_le := Nat.le_trans kept.cells_le next.cells_le
  others s old other :=
    (next.others s (Nat.lt_of_lt_of_le old kept.scopes_le) other).trans (kept.others s old other)
  owned name listed := next.owned name (kept.owned name listed)
  bound name c found := by
    rcases kept.bound name c found with keeps | ⟨inherited, d, fresh, low, high, owns⟩
    · rcases next.bound name c keeps with keeps | ⟨inherited, d, fresh, low, high, owns⟩
      · exact .inl keeps
      · refine .inr ⟨fun listed => inherited (kept.owned name listed), d, fresh, ?_, high, owns⟩
        exact Nat.le_trans kept.cells_le low
    · rcases next.bound name d fresh with keeps | ⟨disowned, _⟩
      · exact .inr ⟨inherited, d, keeps, low, Nat.lt_of_lt_of_le high next.cells_le, next.owned name owns⟩
      · exact absurd owns disowned

/-- A definition keeps the cell of an owned name, and gives any other name a new one. -/
theorem define (e : ScopeId) (h : Heap) (name : String) (v : Value) : ChangesOnly e h (h.define e name v) where
  scopes_le := Nat.le_of_eq (h.size_scopes_define e name v).symm
  cells_le := h.size_cells_le_define e name v
  others s _ other := Heap.scope_define_of_ne other name v
  owned _ listed := h.owned_subset_define e name v e listed
  bound other c found := by
    cases owned : h.ownedCell? e name with
    | some d =>
        rw [Heap.define_of_owned owned]
        exact .inl found
    | none =>
        have inside := Heap.lt_size_of_cell? found
        rw [Heap.cell?_define_of_not_owned owned]
        by_cases same : other = name
        · subst same
          have inherited : other ∉ (h.scope e).owned := by
            intro listed
            rw [Heap.ownedCell?_of_mem listed, found] at owned
            cases owned
          refine .inr ⟨inherited, h.cells.size, if_pos ⟨⟨rfl, inside⟩, rfl⟩, Nat.le_refl _, ?_, ?_⟩
          · rw [Heap.size_cells_define_of_not_owned owned]
            exact Nat.lt_succ_self _
          · rw [Heap.scope_define_self owned inside, Scope.mem_owned_own]
            exact .inr rfl
        · rw [if_neg fun both => same both.2]
          exact .inl found

/-- A definition in the scope itself or in a scope made meanwhile. -/
theorem define_of_allowed (kept : ChangesOnly e first h) {s : ScopeId} (allowed : s = e ∨ first.scopes.size ≤ s)
    (name : String) (v : Value) : ChangesOnly e first (h.define s name v) := by
  rcases allowed with rfl | new
  · exact kept.trans (define s h name v)
  · refine kept.step (Nat.le_of_eq (h.size_scopes_define s name v).symm) (h.size_cells_le_define s name v) ?_
    intro t old
    exact Heap.scope_define_of_ne (Nat.ne_of_lt (Nat.lt_of_lt_of_le old new)) name v

/-- A new frame is no scope of the first memory, so nothing that is bound in it is a change there. -/
theorem extend (kept : ChangesOnly e first h) (s : ScopeId) (bindings : List (String × Value)) :
    ChangesOnly e first (h.extend s bindings).1 := by
  refine Heap.extend_induct ?_ fun k keeps b _ => keeps.define_of_allowed (.inr kept.scopes_le) b.1 b.2
  refine kept.step (by simp [Heap.addScope]) (Nat.le_refl _) ?_
  intro t old
  exact Heap.scope_addScope_of_lt (Nat.lt_of_lt_of_le old kept.scopes_le) _

end ChangesOnly

/-- Evaluation in one scope and in the frames made meanwhile changes the associations of no other scope. -/
def associationKeeping (e : ScopeId) (first : Heap) : MemoryInvariant where
  toKinds := .within fun s => s = e ∨ first.scopes.size ≤ s
  holds := ChangesOnly e first
  lookup? _ _ _ := trivial
  write kept _ _ _ := kept.step (Nat.le_refl _) (by simp) fun _ _ => rfl
  define kept allowed _ name := kept.define_of_allowed allowed name _
  extend kept _ _ := ⟨.inr kept.scopes_le, kept.extend _ _⟩
  operation _ _ _ := trivial

/-- However an evaluation ends, it has changed the associations of its own scope alone. -/
theorem eval_changesOnly (depth : Nat) (e : ScopeId) (expr : Value) (i : Interpreter) :
    ChangesOnly e i.heap (Ending.state (eval depth e expr i)).heap :=
  ((associationKeeping e i.heap).holds_of_eval depth (.inl rfl) trivial (.refl e i.heap)).1

/-- Evaluation changes the associations of no scope but its own: whatever is evaluated in a scope `e`, in whatever state
    and however it ends, every other scope there was binds the same names to the same cells and owns the same names;
    and every name bound in `e` still is, to the same cell if `e` owned it, and otherwise to the same cell or to one
    that was made meanwhile and that `e` now owns. -/
theorem associations_of_eval (depth : Nat) (e : ScopeId) (expr : Value) (i : Interpreter) :
    let before := i.heap
    let after := (Ending.state (eval depth e expr i)).heap
    (∀ s, s < before.scopes.size → s ≠ e → after.scope s = before.scope s) ∧
      ∀ name c, before.cell? e name = some c →
        (name ∈ (before.scope e).owned → after.cell? e name = some c) ∧
        (after.cell? e name = some c ∨ ∃ d, after.cell? e name = some d ∧
          before.cells.size ≤ d ∧ d < after.cells.size ∧ name ∈ (after.scope e).owned) := by
  intro before after
  have kept : ChangesOnly e before after := eval_changesOnly depth e expr i
  refine ⟨kept.others, fun name c found => ?_⟩
  rcases kept.bound name c found with keeps | ⟨inherited, d, fresh, low, high, owns⟩
  · exact ⟨fun _ => keeps, .inl keeps⟩
  · exact ⟨fun listed => absurd listed inherited, .inr ⟨d, fresh, low, high, owns⟩⟩

end SmallScheme
