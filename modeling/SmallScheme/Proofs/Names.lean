import SmallScheme.Proofs.Memory
import SmallScheme.Proofs.Sessions

/-
Module: SmallScheme.Proofs.Names
Purpose: The order of the names in a scope. To bind a name leaves the names as they are or adds it behind them, so a name
  stands in a scope once, and as long as a program runs the names of a scope only grow at the end.
Main exports: Scope.names_own, Scope.mem_names_iff, Heap.BindsOnce, Heap.NamesGrow, heap_bindsOnce_of_reachable
-/

namespace SmallScheme

namespace Scope

theorem names_associate (name : String) (c : CellId) (bindings : List (String × CellId)) :
    (associate name c bindings).map (·.1) =
      if name ∈ bindings.map (·.1) then bindings.map (·.1) else bindings.map (·.1) ++ [name] := by
  induction bindings with
  | nil => simp [associate]
  | cons b rest ih =>
      obtain ⟨other, old⟩ := b
      by_cases same : name = other
      · simp [associate, same]
      · simp only [associate, same, if_false, List.map_cons, ih, List.mem_cons, false_or, List.cons_append]
        split <;> rfl

/-- A name that is bound keeps its position, a new one comes last. -/
theorem names_own (s : Scope) (name : String) (c : CellId) :
    (s.own name c).names = if name ∈ s.names then s.names else s.names ++ [name] :=
  names_associate name c s.bindings

/-- The names of a scope are those that have a cell. -/
theorem mem_names_iff (s : Scope) (name : String) : name ∈ s.names ↔ ∃ c, s.cell? name = some c := by
  simp only [names, cell?]
  induction s.bindings with
  | nil => simp
  | cons b rest ih =>
      obtain ⟨other, old⟩ := b
      by_cases same : name = other
      · simp [same]
      · simp [List.lookup_cons, same, beq_eq_false_iff_ne.2 same, ih]

/-- If names stand in a scope once, the cell of a name is the one it stands with. -/
theorem cell?_eq_some_iff {s : Scope} (once : s.names.Nodup) {name : String} {c : CellId} :
    s.cell? name = some c ↔ (name, c) ∈ s.bindings := by
  simp only [names, cell?] at once ⊢
  generalize s.bindings = bindings at once
  induction bindings with
  | nil => simp
  | cons b rest ih =>
      obtain ⟨other, old⟩ := b
      obtain ⟨new, others⟩ := List.nodup_cons.1 once
      by_cases same : name = other
      · subst same
        have absent : (name, c) ∉ rest := fun member => new (List.mem_map.2 ⟨_, member, rfl⟩)
        simp [absent, eq_comm]
      · simp [List.lookup_cons, same, beq_eq_false_iff_ne.2 same, ih others]

theorem names_prefix_own (s : Scope) (name : String) (c : CellId) : s.names <+: (s.own name c).names := by
  rw [names_own]
  split
  · exact List.prefix_refl _
  · exact List.prefix_append _ _

theorem nodup_names_own {s : Scope} (once : s.names.Nodup) (name : String) (c : CellId) :
    (s.own name c).names.Nodup := by
  rw [names_own]
  split
  · exact once
  · rename_i new
    refine List.nodup_append.2 ⟨once, by simp, fun other member last singleton => ?_⟩
    rw [List.mem_singleton.1 singleton]
    exact fun same => new (same ▸ member)

end Scope

namespace Heap

variable {h k : Heap} {s : ScopeId}

/-- No scope binds a name twice. -/
def BindsOnce (h : Heap) : Prop :=
  ∀ s, (h.scope s).names.Nodup

/-- The names of every scope are where they were, perhaps with others behind them. -/
def NamesGrow (h k : Heap) : Prop :=
  ∀ s, (h.scope s).names <+: (k.scope s).names

theorem NamesGrow.refl (h : Heap) : NamesGrow h h :=
  fun _ => List.prefix_refl _

theorem NamesGrow.trans {l : Heap} (first : NamesGrow h k) (second : NamesGrow k l) : NamesGrow h l :=
  fun s => (first s).trans (second s)

theorem namesGrow_define (h : Heap) (s : ScopeId) (name : String) (v : Value) : NamesGrow h (h.define s name v) := by
  intro t
  obtain same | owning := h.scope_define s name v t
  · exact same ▸ List.prefix_refl _
  · rw [owning]
    exact Scope.names_prefix_own _ _ _

theorem namesGrow_addScope (h : Heap) (new : Scope) : NamesGrow h (h.addScope new).1 := by
  intro t
  rw [scope_addScope]
  split
  · rename_i fresh
    rw [scope_of_size_le (Nat.le_of_eq fresh.symm)]
    exact List.nil_prefix
  · exact List.prefix_refl _

namespace BindsOnce

theorem write (once : h.BindsOnce) (c : CellId) (v : Value) : (h.write c v).BindsOnce :=
  once

theorem define (once : h.BindsOnce) (s : ScopeId) (name : String) (v : Value) : (h.define s name v).BindsOnce := by
  intro t
  obtain same | owning := h.scope_define s name v t
  · rw [same]
    exact once t
  · rw [owning]
    exact Scope.nodup_names_own (once t) name _

theorem addScope (once : h.BindsOnce) {new : Scope} (newOnce : new.names.Nodup) : (h.addScope new).1.BindsOnce := by
  intro t
  rw [scope_addScope]
  split
  · exact newOnce
  · exact once t

theorem addScope_empty (once : h.BindsOnce) : (h.addScope {}).1.BindsOnce :=
  once.addScope (show ({} : Scope).names.Nodup from List.nodup_nil)

theorem defineAll (once : h.BindsOnce) (s : ScopeId) (bindings : List (String × Value)) :
    (h.defineAll s bindings).BindsOnce :=
  defineAll_induct (fun _ kept _ _ => kept.define _ _ _) once

theorem extend (once : h.BindsOnce) (s : ScopeId) (bindings : List (String × Value)) :
    (h.extend s bindings).1.BindsOnce :=
  extend_induct (once.addScope (once s)) fun _ kept b _ => kept.define _ b.1 b.2

theorem ofPrimitives (ps : List Primitive) : (Heap.ofPrimitives ps).BindsOnce := by
  have empty : ({} : Heap).BindsOnce := fun _ => List.nodup_nil
  exact empty.addScope_empty.defineAll _ _

end BindsOnce

end Heap

/-- Any program keeps every name bound once. -/
def bindingOnce : MemoryInvariant where
  toKinds := .within fun _ => True
  holds := Heap.BindsOnce
  lookup? _ _ _ := trivial
  write once _ _ _ := once.write _ _
  define once _ _ name := once.define _ name _
  extend once _ _ := ⟨trivial, once.extend _ _⟩
  operation _ _ _ := trivial

/-- In every reachable state each scope binds a name once. -/
theorem heap_bindsOnce_of_reachable {i : Interpreter} (reachable : Reachable i) : i.heap.BindsOnce :=
  bindingOnce.holds_of_reachable trivial (.ofPrimitives _) reachable

end SmallScheme
