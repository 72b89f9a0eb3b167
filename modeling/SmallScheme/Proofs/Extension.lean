import Mathlib.Data.List.Induction
import SmallScheme.Proofs.Memory

/-
Module: SmallScheme.Proofs.Extension
Purpose: What the extension of a scope makes. A memory has grown to a later one if all cells and scopes there were are still
  there and unchanged, so that every name keeps its value. To extend a scope by bindings lets the memory grow by one scope,
  a frame: in it a name that was bound has a cell of its own, which was not there before and holds the last of the values
  that the name was bound to, and every other name has the cell that it has in the scope. Each binding keeps this.
Main exports: Heap.GrowsTo, Heap.GrowsTo.lookup?, lastValue?, Heap.MakesFrame, Heap.MakesFrame.define,
  Heap.makesFrame_extend
-/

namespace SmallScheme

/-- All cells and scopes of the first memory are in the second, unchanged. -/
structure Heap.GrowsTo (h k : Heap) : Prop where
  scopes_le : h.scopes.size ≤ k.scopes.size
  cells : ∀ c, c < h.cells.size → k.cells[c]? = h.cells[c]?
  scopes : ∀ s, s < h.scopes.size → k.scope s = h.scope s

namespace Heap

variable {h k l : Heap} {s : ScopeId} {name : String} {v w : Value}

namespace GrowsTo

theorem refl (h : Heap) : h.GrowsTo h where
  scopes_le := Nat.le_refl _
  cells _ _ := rfl
  scopes _ _ := rfl

theorem cells_le (grows : h.GrowsTo k) : h.cells.size ≤ k.cells.size := by
  apply Nat.le_of_not_lt
  intro fewer
  have kept := grows.cells k.cells.size fewer
  rw [Array.getElem?_eq_none (Nat.le_refl _), Array.getElem?_eq_getElem fewer] at kept
  cases kept

theorem trans (first : h.GrowsTo k) (second : k.GrowsTo l) : h.GrowsTo l where
  scopes_le := Nat.le_trans first.scopes_le second.scopes_le
  cells c old := (second.cells c (Nat.lt_of_lt_of_le old first.cells_le)).trans (first.cells c old)
  scopes s old := (second.scopes s (Nat.lt_of_lt_of_le old first.scopes_le)).trans (first.scopes s old)

/-- A name that has a value keeps it. -/
theorem lookup? (grows : h.GrowsTo k) (found : h.lookup? s name = some v) : k.lookup? s name = some v := by
  obtain ⟨c, associated, holds⟩ := Option.bind_eq_some_iff.1 found
  have inside : c < h.cells.size := (Array.getElem?_eq_some_iff.1 holds).1
  have same := Heap.cell?_congr (grows.scopes s (lt_size_of_cell? associated)) name
  rw [Heap.lookup?, same, associated, Option.bind_some, grows.cells c inside, holds]

end GrowsTo

end Heap

/-!
### Bindings one after the other
-/

/-- The value that a name has after bindings made one after the other: that of the last one for the name. -/
def lastValue? (bindings : List (String × Value)) (name : String) : Option Value :=
  bindings.reverse.lookup name

theorem lastValue?_concat (bindings : List (String × Value)) (name : String) (v : Value) (other : String) :
    lastValue? (bindings ++ [(name, v)]) other = if other = name then some v else lastValue? bindings other := by
  by_cases same : other = name
  · simp [lastValue?, same]
  · simp [lastValue?, List.lookup_cons, same, beq_eq_false_iff_ne.2 same]

/-- Without a binding a name has no value. -/
theorem lastValue?_eq_none_iff {bindings : List (String × Value)} {name : String} :
    lastValue? bindings name = none ↔ name ∉ bindings.map (·.1) := by
  simp only [lastValue?, List.lookup_eq_none_iff, List.mem_reverse, bne_iff_ne, List.mem_map, not_exists, not_and]
  exact forall₂_congr fun b _ => ne_comm

/-- If names are bound once, each has the value that it is bound to. -/
theorem lastValue?_of_mem {bindings : List (String × Value)} (once : (bindings.map (·.1)).Nodup) {b : String × Value}
    (member : b ∈ bindings) : lastValue? bindings b.1 = some b.2 := by
  obtain ⟨earlier, later, rfl⟩ := List.append_of_mem member
  have new : b.1 ∉ later.map (·.1) := by
    simp only [List.map_append, List.map_cons] at once
    exact (List.nodup_cons.1 (List.nodup_append.1 once).2.1).1
  refine List.lookup_eq_some_iff.2 ⟨later.reverse, earlier.reverse, by simp, fun a behind => ?_⟩
  have elsewhere : b.1 ≠ a.1 := fun same => new (same ▸ List.mem_map_of_mem (List.mem_reverse.1 behind))
  simpa using elsewhere

/-!
### A new frame

A frame owns nothing at first, and what is bound in it gets new cells, so the cells there were are not written to.
-/

namespace Heap

variable {h k : Heap} {s frame : ScopeId} {name : String} {c : CellId} {bindings : List (String × Value)}

/-- The definition of a name that is not owned leaves the cells there are as they are. -/
theorem cells_define_of_lt (inherited : h.ownedCell? s name = none) (v : Value) {c : CellId}
    (old : c < h.cells.size) : (h.define s name v).cells[c]? = h.cells[c]? := by
  rw [define_of_not_owned inherited, Array.getElem?_push_lt old, Array.getElem?_eq_getElem old]

/-- From a memory to a later one a frame of a scope was made by bindings. All that was there is unchanged. A name for which
    there is a binding has a cell in the frame that was not there before, that no other name has, and that holds its last
    value; there are no other new cells. Any other name has in the frame the cell that it has in the scope. -/
structure MakesFrame (h : Heap) (s : ScopeId) (bindings : List (String × Value)) (k : Heap) (frame : ScopeId) : Prop where
  grows : h.GrowsTo k
  new : h.scopes.size ≤ frame
  there : frame < k.scopes.size
  bound : ∀ {name v}, lastValue? bindings name = some v →
    ∃ c, k.ownedCell? frame name = some c ∧ h.cells.size ≤ c ∧ k.cells[c]? = some v
  unbound : ∀ {name}, lastValue? bindings name = none →
    k.ownedCell? frame name = none ∧ k.cell? frame name = h.cell? s name
  apart : ∀ {name other c}, k.ownedCell? frame name = some c → k.ownedCell? frame other = some c → name = other
  only : ∀ {c}, h.cells.size ≤ c → c < k.cells.size → ∃ name, k.ownedCell? frame name = some c

namespace MakesFrame

/-- A scope that was only copied is a frame without bindings. -/
theorem copied (h : Heap) (s : ScopeId) :
    h.MakesFrame s [] (h.addScope { bindings := (h.scope s).bindings, owned := [] }).1 h.scopes.size where
  grows := ⟨by simp, fun _ _ => rfl, fun t old => scope_addScope_of_lt old _⟩
  new := Nat.le_refl _
  there := by simp
  bound given := by cases given
  unbound _ := by simp [ownedCell?, cell?, scope_addScope_self, Scope.cell?]
  apart owned := by simp [ownedCell?, scope_addScope_self] at owned
  only new old := absurd old (Nat.not_lt.2 new)

/-- What was bound in the frame has its last value in a new cell. -/
theorem of_mem (made : h.MakesFrame s bindings k frame) (member : name ∈ bindings.map (·.1)) :
    ∃ c v, k.ownedCell? frame name = some c ∧ h.cells.size ≤ c ∧ lastValue? bindings name = some v ∧
      k.cells[c]? = some v := by
  cases given : lastValue? bindings name with
  | none => exact absurd member (lastValue?_eq_none_iff.1 given)
  | some v =>
      obtain ⟨c, owned, new, holds⟩ := made.bound given
      exact ⟨c, v, owned, new, rfl, holds⟩

/-- What the frame owns was bound in it. -/
theorem mem_of_owned (made : h.MakesFrame s bindings k frame) (owned : k.ownedCell? frame name = some c) :
    name ∈ bindings.map (·.1) := by
  by_contra foreign
  rw [(made.unbound (lastValue?_eq_none_iff.2 foreign)).1] at owned
  cases owned

/-- The cells that the frame owns are new. -/
theorem of_owned (made : h.MakesFrame s bindings k frame) (owned : k.ownedCell? frame name = some c) :
    h.cells.size ≤ c ∧ c < k.cells.size := by
  obtain ⟨d, v, ownedToo, new, -, holds⟩ := made.of_mem (made.mem_of_owned owned)
  cases ownedToo.symm.trans owned
  exact ⟨new, (Array.getElem?_eq_some_iff.1 holds).1⟩

/-- A name that was bound before gets its new value in the cell that it has. -/
theorem rebind (made : h.MakesFrame s bindings k frame) (owned : k.ownedCell? frame name = some c) (v : Value) :
    h.MakesFrame s (bindings ++ [(name, v)]) (k.write c v) frame := by
  obtain ⟨new, inside⟩ := made.of_owned owned
  refine ⟨⟨made.grows.scopes_le, fun d old => ?_, made.grows.scopes⟩, made.new, made.there, ?_, ?_, made.apart, ?_⟩
  · have elsewhere : c ≠ d := Nat.ne_of_gt (Nat.lt_of_lt_of_le old new)
    rw [cells_write, if_neg fun both => elsewhere both.1, made.grows.cells d old]
  · intro other w given
    rw [lastValue?_concat] at given
    split at given
    · rename_i same
      cases given
      refine ⟨c, same ▸ owned, new, ?_⟩
      rw [cells_write, if_pos ⟨rfl, inside⟩]
    · rename_i different
      obtain ⟨d, ownedOther, newOther, holds⟩ := made.bound given
      refine ⟨d, ownedOther, newOther, ?_⟩
      have elsewhere : c ≠ d := fun same => different (made.apart ownedOther (same ▸ owned))
      rw [cells_write, if_neg fun both => elsewhere both.1, holds]
  · intro other given
    rw [lastValue?_concat] at given
    split at given
    · cases given
    · exact made.unbound given
  · intro d newOther insideOther
    exact made.only newOther (by rwa [size_cells_write] at insideOther)

/-- A name that was not bound before gets a new cell. -/
theorem bindNew (made : h.MakesFrame s bindings k frame) (inherited : k.ownedCell? frame name = none) (v : Value) :
    h.MakesFrame s (bindings ++ [(name, v)]) (k.define frame name v) frame := by
  have owned : ∀ other, (k.define frame name v).ownedCell? frame other =
      if other = name then some k.cells.size else k.ownedCell? frame other := by
    intro other
    simp only [ownedCell?_define_of_not_owned inherited, made.there, true_and]
  have kept : ∀ d, d < k.cells.size → (k.define frame name v).cells[d]? = k.cells[d]? := fun d old =>
    cells_define_of_lt inherited v old
  refine ⟨⟨?_, fun d old => ?_, fun t old => ?_⟩, made.new, ?_, ?_, ?_, ?_, ?_⟩
  · rw [size_scopes_define]
    exact made.grows.scopes_le
  · rw [kept d (Nat.lt_of_lt_of_le old made.grows.cells_le), made.grows.cells d old]
  · rw [scope_define_of_ne (Nat.ne_of_lt (Nat.lt_of_lt_of_le old made.new)), made.grows.scopes t old]
  · rw [size_scopes_define]
    exact made.there
  · intro other w given
    rw [lastValue?_concat] at given
    split at given
    · rename_i same
      cases given
      refine ⟨k.cells.size, by rw [owned, if_pos same], made.grows.cells_le, ?_⟩
      rw [define_of_not_owned inherited, Array.getElem?_push_size]
    · rename_i different
      obtain ⟨d, ownedOther, newOther, holds⟩ := made.bound given
      refine ⟨d, by rw [owned, if_neg different, ownedOther], newOther, ?_⟩
      rw [kept d (made.of_owned ownedOther).2, holds]
  · intro other given
    rw [lastValue?_concat] at given
    split at given
    · cases given
    · rename_i different
      rw [owned, if_neg different, cell?_define_of_not_owned inherited, if_neg fun both => different both.2]
      exact made.unbound given
  · intro one two d first second
    rw [owned] at first second
    -- the new cell is none that was owned before
    split at first <;> split at second
    · simp_all
    · cases first
      exact absurd (made.of_owned second).2 (Nat.lt_irrefl _)
    · cases second
      exact absurd (made.of_owned first).2 (Nat.lt_irrefl _)
    · exact made.apart first second
  · intro d newOther insideOther
    rw [size_cells_define_of_not_owned inherited] at insideOther
    obtain old | rfl := Nat.lt_succ_iff_lt_or_eq.1 insideOther
    · obtain ⟨other, ownedOther⟩ := made.only newOther old
      refine ⟨other, ?_⟩
      rw [owned, if_neg, ownedOther]
      rintro rfl
      rw [inherited] at ownedOther
      cases ownedOther
    · exact ⟨name, by rw [owned, if_pos rfl]⟩

theorem define (made : h.MakesFrame s bindings k frame) (name : String) (v : Value) :
    h.MakesFrame s (bindings ++ [(name, v)]) (k.define frame name v) frame := by
  cases owned : k.ownedCell? frame name with
  | some c =>
      rw [define_of_owned owned]
      exact made.rebind owned v
  | none => exact made.bindNew owned v

end MakesFrame

/-- To extend a scope by bindings makes a frame of it. -/
theorem makesFrame_extend (h : Heap) (s : ScopeId) (bindings : List (String × Value)) :
    h.MakesFrame s bindings (h.extend s bindings).1 h.scopes.size := by
  -- The bindings are made from left to right, so the last one is taken off.
  induction bindings using List.reverseRecOn with
  | nil => exact MakesFrame.copied h s
  | append_singleton bindings b ih =>
      have last : (h.extend s (bindings ++ [b])).1 = (h.extend s bindings).1.define h.scopes.size b.1 b.2 := by
        simp [extend, defineAll, addScope]
      rw [last]
      exact ih.define b.1 b.2

end Heap

end SmallScheme
