import Mathlib.Data.List.Perm.Subperm
import Mathlib.Data.Nat.Find
import SmallScheme.Proofs.Names
import SmallScheme.Proofs.RoundTrip

/-
Module: SmallScheme.Proofs.StrictEquality
Purpose: Strict equality as equality of normal forms. Scopes count as the same if every name has the same cell in both, so
  the oldest such scope may stand for all of them; values are strictly equal exactly if they are equal once each closure
  has the oldest scope that is the same as its own. So strict equality is an equivalence. As no scope is ever shown,
  strictly equal values look alike, and among canonical data, which have no closures, values that look alike are equal.
Main exports: Heap.sameScope_iff, Heap.oldest, Value.rescope, eqv_iff_rescope, equivalence_isEqv, render_rescope,
  isEqv_laws
-/

namespace SmallScheme

/-!
### Scopes that are the same
-/

/-- Scopes of the same size, the first of which has all its associations in the second, associate all names alike. -/
theorem Scope.sameAssociations_iff {s t : Scope} (once : s.names.Nodup) (alsoOnce : t.names.Nodup) :
    (s.bindings.length = t.bindings.length ∧ ∀ b ∈ s.bindings, t.cell? b.1 = some b.2) ↔
      ∀ name, s.cell? name = t.cell? name := by
  have sizes : s.names.length = s.bindings.length ∧ t.names.length = t.bindings.length := by simp [names]
  constructor
  · rintro ⟨sameLength, kept⟩ name
    have within : s.names ⊆ t.names := by
      intro other listed
      obtain ⟨c, found⟩ := (s.mem_names_iff other).1 listed
      exact (t.mem_names_iff other).2 ⟨c, kept (other, c) ((cell?_eq_some_iff once).1 found)⟩
    have same : s.names.Perm t.names :=
      (List.subperm_of_subset once within).perm_of_length_le (by rw [sizes.1, sizes.2, sameLength])
    cases found : s.cell? name with
    | some c => exact (kept (name, c) ((cell?_eq_some_iff once).1 found)).symm
    | none =>
        -- The second scope has no other names, since it has as many.
        cases foundThere : t.cell? name with
        | none => rfl
        | some c =>
            have listed := same.mem_iff.2 ((t.mem_names_iff name).2 ⟨c, foundThere⟩)
            obtain ⟨d, bound⟩ := (s.mem_names_iff name).1 listed
            rw [found] at bound
            cases bound
  · intro alike
    have same : s.names.Perm t.names := by
      apply (List.perm_ext_iff_of_nodup once alsoOnce).2
      intro name
      rw [mem_names_iff, mem_names_iff, alike name]
    refine ⟨by rw [← sizes.1, ← sizes.2, same.length_eq], fun b member => ?_⟩
    rw [← alike b.1]
    exact (cell?_eq_some_iff once).2 member

namespace Heap

variable {h : Heap}

/-- Scopes are the same if every name has the same cell in both. -/
theorem sameScope_iff (once : h.BindsOnce) (s t : ScopeId) :
    h.sameScope s t = true ↔ ∀ name, h.cell? s name = h.cell? t name := by
  change _ ↔ ∀ name, (h.scope s).cell? name = (h.scope t).cell? name
  rw [← Scope.sameAssociations_iff (once s) (once t)]
  simp only [sameScope, Bool.or_eq_true, Bool.and_eq_true, beq_iff_eq, List.all_eq_true]
  constructor
  · rintro (rfl | same)
    · exact ⟨rfl, fun b member => (Scope.cell?_eq_some_iff (once s)).2 member⟩
    · exact same
  · exact .inr

theorem exists_sameScope (h : Heap) (s : ScopeId) : ∃ t, h.sameScope s t = true :=
  ⟨s, by simp [sameScope]⟩

/-- The oldest scope that is the same as this one. -/
def oldest (h : Heap) (s : ScopeId) : ScopeId :=
  Nat.find (h.exists_sameScope s)

/-- Scopes are the same exactly if one scope stands for both. -/
theorem sameScope_iff_oldest (once : h.BindsOnce) (s t : ScopeId) :
    h.sameScope s t = true ↔ h.oldest s = h.oldest t := by
  have stands : ∀ u name, h.cell? u name = h.cell? (h.oldest u) name := fun u =>
    (sameScope_iff once u _).1 (Nat.find_spec (h.exists_sameScope u))
  rw [sameScope_iff once]
  constructor
  · intro alike
    apply Nat.find_congr'
    intro u
    simp only [sameScope_iff once, alike]
  · intro same name
    rw [stands s, stands t, same]

end Heap

/-!
### Normal forms
-/

namespace Value

mutual

/-- The value with other scopes in its closures. -/
def rescope (f : ScopeId → ScopeId) : Value → Value
  | .list items => .list (rescopeAll f items)
  | .dotted heads tail => .dotted (rescopeAll f heads) (rescope f tail)
  | .closure params rest? body s => .closure params rest? (rescopeAll f body) (f s)
  | .bool b => .bool b
  | .num n => .num n
  | .str s => .str s
  | .sym name => .sym name
  | .prim p => .prim p
  | .port id => .port id

/-- Each value with other scopes in its closures. -/
def rescopeAll (f : ScopeId → ScopeId) : List Value → List Value
  | [] => []
  | v :: vs => rescope f v :: rescopeAll f vs

end

mutual

/-- The written form of a value shows no scope. -/
theorem render_rescope (f : ScopeId → ScopeId) : ∀ v : Value, (v.rescope f).render = v.render
  | .bool _ | .num _ | .str _ | .sym _ | .prim _ | .port _ => by rw [rescope]
  | .list items => by rw [rescope, render_list, render_list, renderAll_rescopeAll f items]
  | .dotted heads tail => by
      rw [rescope, render_dotted, render_dotted, renderAll_rescopeAll f heads, render_rescope f tail]
  | .closure .. => by rw [rescope, render_closure, render_closure]

theorem renderAll_rescopeAll (f : ScopeId → ScopeId) : ∀ vs : List Value, renderAll (rescopeAll f vs) = renderAll vs
  | [] => by rw [rescopeAll]
  | v :: vs => by rw [rescopeAll, renderAll_cons, renderAll_cons, render_rescope f v, renderMore_rescopeAll f vs]

theorem renderMore_rescopeAll (f : ScopeId → ScopeId) : ∀ vs : List Value, renderMore (rescopeAll f vs) = renderMore vs
  | [] => by rw [rescopeAll]
  | v :: vs => by rw [rescopeAll, renderMore_cons, renderMore_cons, render_rescope f v, renderMore_rescopeAll f vs]

end

mutual

/-- Canonical data have no closures. -/
theorem rescope_of_canonical (f : ScopeId → ScopeId) : ∀ {v : Value}, Canonical v → v.rescope f = v
  | .bool _, _ | .num _, _ | .str _, _ | .sym _, _ => by rw [rescope]
  | .list items, data => by rw [rescope, rescopeAll_of_canonical f data]
  | .dotted heads tail, data => by
      obtain ⟨_, headsData, _, tailData⟩ := data
      rw [rescope, rescopeAll_of_canonical f headsData, rescope_of_canonical f tailData]
  | .closure .., data | .prim _, data | .port _, data => data.elim

theorem rescopeAll_of_canonical (f : ScopeId → ScopeId) : ∀ {vs : List Value}, BuiltAll DataLeaf vs → rescopeAll f vs = vs
  | [], _ => by rw [rescopeAll]
  | v :: vs, data => by rw [rescopeAll, rescope_of_canonical f data.1, rescopeAll_of_canonical f data.2]

end

end Value

section NormalForms

variable {h : Heap} {f : ScopeId → ScopeId}

mutual

/-- If one scope stands for all that are the same, values are strictly equal if they are equal over these scopes. -/
theorem eqv_iff_rescope (stands : ∀ s t, h.sameScope s t = true ↔ f s = f t) :
    ∀ a b : Value, eqv h a b = true ↔ a.rescope f = b.rescope f
  | .bool _, b | .num _, b | .str _, b | .sym _, b | .prim _, b | .port _, b => by
      cases b <;> simp [eqv, Value.rescope]
  | .list xs, b => by
      cases b <;> simp [eqv, Value.rescope, eqvAll_iff_rescopeAll stands xs]
  | .dotted xs x, b => by
      cases b <;> simp [eqv, Value.rescope, eqvAll_iff_rescopeAll stands xs, eqv_iff_rescope stands x]
  | .closure _ _ xs _, b => by
      cases b <;> simp [eqv, Value.rescope, eqvAll_iff_rescopeAll stands xs, stands, and_assoc]

theorem eqvAll_iff_rescopeAll (stands : ∀ s t, h.sameScope s t = true ↔ f s = f t) :
    ∀ xs ys : List Value, eqvAll h xs ys = true ↔ Value.rescopeAll f xs = Value.rescopeAll f ys
  | [], ys => by cases ys <;> simp [eqvAll, Value.rescopeAll]
  | x :: xs, ys => by
      cases ys <;> simp [eqvAll, Value.rescopeAll, eqv_iff_rescope stands x, eqvAll_iff_rescopeAll stands xs]

end

end NormalForms

/-!
### Strict equality
-/

/-- Strict equality in a memory is equality of normal forms. -/
theorem isEqv_iff_rescope {h : Heap} (once : h.BindsOnce) (a b : Value) :
    isEqv h a b = true ↔ a.rescope h.oldest = b.rescope h.oldest := by
  rw [isEqv_eq_eqv]
  exact eqv_iff_rescope (Heap.sameScope_iff_oldest once) a b

theorem equivalence_isEqv {h : Heap} (once : h.BindsOnce) : Equivalence fun a b => isEqv h a b = true := by
  simp only [isEqv_iff_rescope once]
  exact ⟨fun _ => rfl, Eq.symm, Eq.trans⟩

/-- Strictly equal values look alike. -/
theorem text_eq_of_isEqv {h : Heap} (once : h.BindsOnce) {a b : Value} (equal : isEqv h a b = true) :
    a.text = b.text := by
  rw [isEqv_iff_rescope once] at equal
  rw [Value.text, Value.text, ← a.render_rescope h.oldest, ← b.render_rescope h.oldest, equal]

/-- Canonical data that look alike are equal, as the reader would read both from what is shown. -/
theorem eq_of_text_eq {a b : Value} (data : a.Canonical) (alsoData : b.Canonical) (alike : a.text = b.text) : a = b := by
  have shown : a.render = b.render := String.ofList_injective alike
  have read := read_render data
  rw [shown, read_render alsoData] at read
  cases read
  rfl

/-- Canonical data are strictly equal only to themselves. -/
theorem isEqv_iff_eq {h : Heap} (once : h.BindsOnce) {a b : Value} (data : a.Canonical) (alsoData : b.Canonical) :
    isEqv h a b = true ↔ a = b := by
  rw [isEqv_iff_rescope once, Value.rescope_of_canonical _ data, Value.rescope_of_canonical _ alsoData]

/-- In every reachable state each scope binds a name once; and wherever that is so, values are strictly equal exactly if
    they are equal once the oldest scope with the same cells for all names stands in each closure for its own. So strict
    equality is an equivalence, strictly equal values look alike, and canonical data are strictly equal exactly if they
    are equal, and exactly if they look alike. -/
theorem isEqv_laws :
    (∀ i, Reachable i → i.heap.BindsOnce) ∧
    ∀ h : Heap, h.BindsOnce →
      (∀ a b, isEqv h a b = true ↔ a.rescope h.oldest = b.rescope h.oldest) ∧
      (∀ s t, h.oldest s = h.oldest t ↔ ∀ name, h.cell? s name = h.cell? t name) ∧
      (Equivalence fun a b => isEqv h a b = true) ∧
      (∀ a b, isEqv h a b = true → a.text = b.text) ∧
      ∀ a b : Value, a.Canonical → b.Canonical →
        (isEqv h a b = true ↔ a = b) ∧ (isEqv h a b = true ↔ a.text = b.text) := by
  refine ⟨fun _ => heap_bindsOnce_of_reachable, fun h once => ⟨isEqv_iff_rescope once, fun s t => ?_,
    equivalence_isEqv once, fun _ _ => text_eq_of_isEqv once, fun a b data alsoData => ?_⟩⟩
  · rw [← Heap.sameScope_iff_oldest once, Heap.sameScope_iff once]
  · have equal := isEqv_iff_eq once data alsoData
    refine ⟨equal, text_eq_of_isEqv once, fun alike => ?_⟩
    exact equal.2 (eq_of_text_eq data alsoData alike)

/-- A scope with a name and a scope that extends it by nothing. -/
def copiedSample : Heap :=
  (((({} : Heap).addScope {}).1.define 0 "x" (.num 1)).extend 0 []).1

theorem isEqv_laws_copiedSample :
    copiedSample.BindsOnce ∧
    isEqv copiedSample (.closure ["y"] none [.sym "x"] 0) (.closure ["y"] none [.sym "x"] 1) = true ∧
    copiedSample.oldest 0 = copiedSample.oldest 1 ∧
    (Value.dotted [.num 1] (.str "a")).Canonical ∧
    (isEqv copiedSample (.dotted [.num 1] (.str "a")) (.dotted [.num 1] (.str "a")) = true ↔
      (Value.dotted [.num 1] (.str "a")).text = (Value.dotted [.num 1] (.str "a")).text) := by
  have once : copiedSample.BindsOnce := by
    have empty : ({} : Heap).BindsOnce := fun _ => List.nodup_nil
    exact (empty.addScope_empty.define 0 "x" (.num 1)).extend 0 []
  have data : (Value.dotted [.num 1] (.str "a")).Canonical := by decide
  have equal : isEqv copiedSample (.closure ["y"] none [.sym "x"] 0) (.closure ["y"] none [.sym "x"] 1) = true := by
    decide
  obtain ⟨_, laws⟩ := isEqv_laws
  obtain ⟨normal, _, _, _, canonical⟩ := laws copiedSample once
  have same := (normal _ _).1 equal
  simp only [Value.rescope, Value.closure.injEq] at same
  exact ⟨once, equal, same.2.2.2, data, (canonical _ _ data data).2⟩

end SmallScheme
