import Mathlib.Data.List.Nodup
import SmallScheme.Proofs.Operations
import SmallScheme.Proofs.StrictEquality

/-
Module: SmallScheme.Proofs.Interchange
Purpose: Strictly equal closures are interchangeable. Their scopes bind the same names to the same cells, so the frames of
  their calls do, and the bodies are the same. What is evaluated in such frames sees nothing of the order in which a scope
  has its names: lookups, assignments and definitions go by names, and strict equality compares scopes by their cells. So
  the two calls end alike, and leave states that differ at most in the order of names in scopes made meanwhile.
Main exports: Scope.SameButOrder, Heap.SameButOrder, orderBlindness, interchangeable_of_isEqv
-/

namespace SmallScheme

open Value (Canonical)

/-!
### Scopes up to the order of names
-/

/-- Two scopes that bind the same names, each once, to the same cells, and that own the same names. -/
structure Scope.SameButOrder (s t : Scope) : Prop where
  once : s.names.Nodup
  bindings : t.bindings.Perm s.bindings
  owned : t.owned = s.owned

namespace Scope

variable {s t : Scope}

theorem nodup_bindings (once : s.names.Nodup) : s.bindings.Nodup :=
  List.Nodup.of_map _ once

/-- Associations are the same up to their order if each name has the same cell. -/
theorem perm_bindings_iff (once : s.names.Nodup) (alsoOnce : t.names.Nodup) :
    t.bindings.Perm s.bindings ↔ ∀ name, t.cell? name = s.cell? name := by
  rw [List.perm_ext_iff_of_nodup (nodup_bindings alsoOnce) (nodup_bindings once)]
  constructor
  · intro same name
    ext c
    rw [cell?_eq_some_iff alsoOnce, cell?_eq_some_iff once, same]
  · rintro same ⟨name, c⟩
    rw [← cell?_eq_some_iff alsoOnce, ← cell?_eq_some_iff once, same]

namespace SameButOrder

theorem refl (once : s.names.Nodup) : SameButOrder s s :=
  ⟨once, List.Perm.refl _, rfl⟩

theorem alsoOnce (same : SameButOrder s t) : t.names.Nodup :=
  (same.bindings.map Prod.fst).nodup_iff.2 same.once

theorem cell? (same : SameButOrder s t) (name : String) : t.cell? name = s.cell? name :=
  (perm_bindings_iff same.once same.alsoOnce).1 same.bindings name

/-- Owning one more name, at one cell, keeps scopes the same. -/
theorem own (same : SameButOrder s t) (name : String) (c : CellId) : SameButOrder (s.own name c) (t.own name c) where
  once := nodup_names_own same.once name c
  bindings := by
    rw [perm_bindings_iff (nodup_names_own same.once name c) (nodup_names_own same.alsoOnce name c)]
    intro other
    rw [cell?_own, cell?_own, same.cell?]
  owned := by simp only [Scope.own, same.owned]

end SameButOrder

end Scope

/-!
### Memories up to the order of names
-/

/-- Two memories with the same contents of cells and the same scopes, up to the order of names in those scopes that are
    not among the first `old`. -/
structure Heap.SameButOrder (old : ScopeId) (h k : Heap) : Prop where
  cells : k.cells = h.cells
  size : k.scopes.size = h.scopes.size
  scopes : ∀ s, (h.scope s).SameButOrder (k.scope s)
  there : old ≤ h.scopes.size
  kept : ∀ s, s < old → k.scope s = h.scope s

namespace Heap.SameButOrder

variable {old : ScopeId} {h k : Heap}

theorem refl (once : h.BindsOnce) : SameButOrder h.scopes.size h h where
  cells := rfl
  size := rfl
  scopes s := .refl (once s)
  there := Nat.le_refl _
  kept _ _ := rfl

theorem cell? (same : SameButOrder old h k) (s : ScopeId) (name : String) : k.cell? s name = h.cell? s name :=
  (same.scopes s).cell? name

theorem lookup? (same : SameButOrder old h k) (s : ScopeId) (name : String) : k.lookup? s name = h.lookup? s name := by
  simp only [Heap.lookup?, same.cell?, same.cells]

theorem ownedCell? (same : SameButOrder old h k) (s : ScopeId) (name : String) :
    k.ownedCell? s name = h.ownedCell? s name := by
  simp only [Heap.ownedCell?, same.cell?, (same.scopes s).owned]

/-- Which scopes are the same is the same in both memories, as it goes by the cells of names. -/
theorem sameScope (same : SameButOrder old h k) (s t : ScopeId) : k.sameScope s t = h.sameScope s t := by
  rw [Bool.eq_iff_iff, sameScope_iff fun u => (same.scopes u).alsoOnce, sameScope_iff fun u => (same.scopes u).once]
  simp only [same.cell?]

theorem write (same : SameButOrder old h k) (c : CellId) (v : Value) :
    SameButOrder old (h.write c v) (k.write c v) where
  cells := by simp only [Heap.write, same.cells]
  size := same.size
  scopes := same.scopes
  there := same.there
  kept := same.kept

theorem define (same : SameButOrder old h k) (s : ScopeId) (name : String) (v : Value) :
    SameButOrder old (h.define s name v) (k.define s name v) := by
  -- Whether a name is owned does not depend on where it stands, so both memories write a cell or both get a new one.
  cases owned : h.ownedCell? s name with
  | some c =>
      rw [define_of_owned owned, define_of_owned ((same.ownedCell? s name).trans owned)]
      exact same.write c v
  | none =>
      rw [define_of_not_owned owned, define_of_not_owned ((same.ownedCell? s name).trans owned), same.cells]
      refine ⟨rfl, by simp [same.size], fun t => ?_, by simpa using same.there, fun t early => ?_⟩
      · rw [scope_modify, scope_modify, same.size]
        split
        · exact (same.scopes t).own name _
        · exact same.scopes t
      · rw [scope_modify, scope_modify, same.size, same.kept t early]

theorem defineAll (same : SameButOrder old h k) (s : ScopeId) (bindings : List (String × Value)) :
    SameButOrder old (h.defineAll s bindings) (k.defineAll s bindings) := by
  induction bindings generalizing h k with
  | nil => exact same
  | cons b bindings ih => exact ih (same.define s b.1 b.2)

/-- A new scope may have its names in another order. -/
theorem addScope (same : SameButOrder old h k) {new other : Scope} (alike : new.SameButOrder other) :
    SameButOrder old (h.addScope new).1 (k.addScope other).1 where
  cells := same.cells
  size := by simp [same.size]
  scopes s := by
    rw [scope_addScope, scope_addScope, same.size]
    split
    · exact alike
    · exact same.scopes s
  there := by
    rw [size_scopes_addScope]
    exact Nat.le_succ_of_le same.there
  kept s early := by
    have present : s < h.scopes.size := Nat.lt_of_lt_of_le early same.there
    rw [scope_addScope_of_lt present, scope_addScope_of_lt (by rwa [same.size]), same.kept s early]

/-- Frames over scopes that bind the same names to the same cells are the same but for the order of names. -/
theorem extend (same : SameButOrder old h k) {s t : ScopeId} (alike : ∀ name, k.cell? t name = h.cell? s name)
    (bindings : List (String × Value)) :
    (k.extend t bindings).2 = (h.extend s bindings).2 ∧
      SameButOrder old (h.extend s bindings).1 (k.extend t bindings).1 := by
  have copies : Scope.SameButOrder { bindings := (h.scope s).bindings, owned := [] }
      { bindings := (k.scope t).bindings, owned := [] } :=
    ⟨(same.scopes s).once, (Scope.perm_bindings_iff (same.scopes s).once (same.scopes t).alsoOnce).2 alike, rfl⟩
  have copied := (same.addScope copies).defineAll h.scopes.size bindings
  refine ⟨same.size, ?_⟩
  change SameButOrder old (Heap.defineAll _ h.scopes.size bindings) (Heap.defineAll _ k.scopes.size bindings)
  rwa [same.size]

end Heap.SameButOrder

/-- Programs do not see the order of the names in a scope. -/
def orderBlindness (old : ScopeId) : Discipline where
  toKinds := .within fun _ => True
  states := OnHeap (Heap.SameButOrder old)
  world := keepsWorld_onHeap _
  lookup? related _ name := ⟨related.1.lookup? _ name, fun _ _ => trivial⟩
  cell? related _ name := related.1.cell? _ name
  write related _ _ _ := related.update (related.1.write _ _)
  define related _ _ name := related.update (related.1.define _ name _)
  extend related _ _ := by
    obtain ⟨sameFrame, after⟩ := related.1.extend (related.1.cell? _) _
    exact ⟨sameFrame, trivial, related.update after⟩
  operation related _ op := ⟨op.call_congr related.1.sameScope _, fun _ _ => trivial⟩

/-!
### Strictly equal closures
-/

section Closures

variable {i : Interpreter} {params others : List String} {rest? otherRest? : Option String} {body otherBody : List Value}
  {s t : ScopeId}

/-- What strict equality says of closures whose bodies are data. -/
theorem parts_of_isEqv {h : Heap} (once : h.BindsOnce) (data : ∀ form ∈ body, Canonical form)
    (alsoData : ∀ form ∈ otherBody, Canonical form)
    (equal : isEqv h (.closure params rest? body s) (.closure others otherRest? otherBody t) = true) :
    others = params ∧ otherRest? = rest? ∧ otherBody = body ∧ ∀ name, h.cell? t name = h.cell? s name := by
  rw [isEqv_eq_eqv] at equal
  simp only [eqv, Bool.and_eq_true, beq_iff_eq] at equal
  obtain ⟨⟨⟨sameParams, sameRest⟩, bodies⟩, scopes⟩ := equal
  have sameBody := (eqvAll_iff_rescopeAll (Heap.sameScope_iff_oldest once) body otherBody).1 bodies
  rw [Value.rescopeAll_of_canonical _ (Value.builtAll_iff.2 data),
    Value.rescopeAll_of_canonical _ (Value.builtAll_iff.2 alsoData)] at sameBody
  exact ⟨sameParams.symm, sameRest.symm, sameBody.symm, fun name => ((Heap.sameScope_iff once s t).1 scopes name).symm⟩

/-- Frames of calls over scopes that bind the same names to the same cells. -/
theorem alike_newFrame (once : i.heap.BindsOnce) (alike : ∀ name, i.heap.cell? t name = i.heap.cell? s name)
    (bindings : List (String × Value)) :
    Alike (OnHeap (Heap.SameButOrder i.heap.scopes.size)) (fun _ => True) (newFrame s bindings i)
      (newFrame t bindings i) := by
  obtain ⟨sameFrame, after⟩ := (Heap.SameButOrder.refl once).extend alike bindings
  change Alike _ _ (.ok (i.heap.extend s bindings).2 _) (.ok (i.heap.extend t bindings).2 _)
  rw [sameFrame]
  exact .ok trivial ⟨after, rfl⟩

/-- Closures over such scopes with the same parameters and the same body do the same. -/
theorem alike_apply (once : i.heap.BindsOnce) (alike : ∀ name, i.heap.cell? t name = i.heap.cell? s name)
    (depth : Nat) (args : List Value) :
    Alike (OnHeap (Heap.SameButOrder i.heap.scopes.size)) (fun _ => True)
      (apply depth (.closure params rest? body s) args i) (apply depth (.closure params rest? body t) args i) := by
  have unchanged : OnHeap (Heap.SameButOrder i.heap.scopes.size) i i := ⟨.refl once, rfl⟩
  cases depth with
  | zero => exact .error unchanged
  | succ depth =>
      simp only [apply, applyStep]
      split
      · exact .error unchanged
      · split
        · exact .error unchanged
        · -- Only the frame depends on the scope; from there on the same body is evaluated in one frame.
          apply (alike_newFrame once alike _).bind
          intro frame _
          have evaluates := ((orderBlindness i.heap.scopes.size).eval_and_apply depth).1
          exact Discipline.evalSequence evaluates trivial trivial fun _ _ => trivial

end Closures

/-- Strictly equal closures are interchangeable: in all memories in which no scope binds a name twice, as in those of all
    reachable states, two strictly equal closures whose bodies are data give the same value or the same fault for any
    arguments, and leave the same state: the same ports, files and streams, the same contents of all cells, the same scopes
    of those there were before, and frames that differ in the order of their names at most. -/
theorem interchangeable_of_isEqv :
    (∀ i, Reachable i → i.heap.BindsOnce) ∧
    ∀ (i : Interpreter) (params others : List String) (rest? otherRest? : Option String) (body otherBody : List Value)
      (s t : ScopeId), i.heap.BindsOnce → (∀ form ∈ body, form.Canonical) → (∀ form ∈ otherBody, form.Canonical) →
      isEqv i.heap (.closure params rest? body s) (.closure others otherRest? otherBody t) = true →
      ∀ depth args, Alike (OnHeap (Heap.SameButOrder i.heap.scopes.size)) (fun _ => True)
        (apply depth (.closure params rest? body s) args i)
        (apply depth (.closure others otherRest? otherBody t) args i) := by
  refine ⟨fun _ => heap_bindsOnce_of_reachable, ?_⟩
  intro i params others rest? otherRest? body otherBody s t once data alsoData equal depth args
  obtain ⟨rfl, rfl, rfl, alike⟩ := parts_of_isEqv once data alsoData equal
  exact alike_apply once alike depth args

theorem interchangeable_of_isEqv_copiedSample :
    copiedSample.BindsOnce ∧
    isEqv copiedSample (.closure ["y"] none [.sym "x"] 0) (.closure ["y"] none [.sym "x"] 1) = true ∧
    Alike (OnHeap (Heap.SameButOrder 2)) (fun _ => True)
      (apply 2 (.closure ["y"] none [.sym "x"] 0) [.num 5] { heap := copiedSample })
      (apply 2 (.closure ["y"] none [.sym "x"] 1) [.num 5] { heap := copiedSample }) := by
  have once : copiedSample.BindsOnce := by
    have empty : ({} : Heap).BindsOnce := fun _ => List.nodup_nil
    exact (empty.addScope_empty.define 0 "x" (.num 1)).extend 0 []
  have data : ∀ form ∈ [Value.sym "x"], form.Canonical := by decide
  have equal : isEqv copiedSample (.closure ["y"] none [.sym "x"] 0) (.closure ["y"] none [.sym "x"] 1) = true := by
    decide
  have interchangeable := interchangeable_of_isEqv.2
  exact ⟨once, equal, interchangeable { heap := copiedSample } _ _ _ _ _ _ 0 1 once data data equal 2 [.num 5]⟩

end SmallScheme
