import SmallScheme.Proofs.Memory
import SmallScheme.Proofs.Operations
import SmallScheme.Proofs.Sessions

/-
Module: SmallScheme.Proofs.WellFormedness
Purpose: Well-formedness of all values at all times. If every cell holds a well-formed value, evaluation of data in any
  scope keeps it so and gives a well-formed value; hence after any calls of an embedding program all cells are well
  formed and so is every value returned. The empty list that a body starts from is never what a call of a closure gives:
  its value is that of the last form.
Main exports: Heap.WellFormed, wellFormedness, heap_wellFormed_of_reachable, last_form_of_apply,
  wellFormed_of_reachable
-/

namespace SmallScheme

open Value (Canonical WellFormed)

/-- Every cell holds a well-formed value. -/
def Heap.WellFormed (h : Heap) : Prop :=
  ∀ v ∈ h.cells, v.WellFormed

namespace Heap.WellFormed

variable {h : Heap} {s : ScopeId} {name : String} {v : Value}

theorem of_lookup? (held : h.WellFormed) (found : h.lookup? s name = some v) : v.WellFormed := by
  obtain ⟨c, _, content⟩ := Option.bind_eq_some_iff.1 found
  exact held v (Array.mem_of_getElem? content)

theorem write (held : h.WellFormed) (wellFormed : v.WellFormed) (c : CellId) : (h.write c v).WellFormed := by
  intro w member
  rcases Array.mem_or_eq_of_mem_setIfInBounds member with old | rfl
  · exact held w old
  · exact wellFormed

theorem define (held : h.WellFormed) (wellFormed : v.WellFormed) (s : ScopeId) (name : String) :
    (h.define s name v).WellFormed := by
  intro w member
  rcases mem_cells_define member with old | rfl
  · exact held w old
  · exact wellFormed

theorem extend {bindings : List (String × Value)} (held : h.WellFormed) (values : ∀ b ∈ bindings, b.2.WellFormed)
    (s : ScopeId) : (h.extend s bindings).1.WellFormed :=
  extend_induct held fun _ kept b member => kept.define (values b member) _ b.1

/-- At the start the cells hold the built-in procedures. -/
theorem ofPrimitives (ps : List Primitive) : (Heap.ofPrimitives ps).WellFormed := by
  refine defineAll_induct (fun k kept b member => ?_) (fun v member => absurd member (Array.not_mem_empty v))
  obtain ⟨p, _, rfl⟩ := List.mem_map.1 member
  exact kept.define (v := .prim p) trivial _ _

end Heap.WellFormed

/-- Programs are data, and values and cells are well formed. -/
def wellFormedness : MemoryInvariant where
  toKinds := .wellFormedOver fun _ => True
  holds := Heap.WellFormed
  lookup? held _ found := held.of_lookup? found
  write held _ _ wellFormed := held.write wellFormed _
  define held _ wellFormed name := held.define wellFormed _ name
  extend held _ values := ⟨trivial, held.extend values _⟩
  operation _ values called := Operation.wellFormedOver_of_call values called

/-- In every reachable state all cells are well formed. -/
theorem heap_wellFormed_of_reachable {i : Interpreter} (reachable : Reachable i) : i.heap.WellFormed :=
  wellFormedness.holds_of_reachable trivial (.ofPrimitives _) reachable

/-- A sequence of forms gives the value of the last of them. -/
theorem last_form_of_evalSequence {ev : Evaluate} {s : ScopeId} {last v : Value} {form : Value} {forms : List Value}
    {i after : Interpreter} (ended : evalSequence ev s last (form :: forms) i = .ok v after) :
    ∃ final ∈ (form :: forms).getLast?, ∃ k, ev s final k = .ok v after := by
  induction forms generalizing form last i with
  | nil =>
      obtain ⟨w, j, first, rest⟩ := run_bind_eq_ok_iff.1 ended
      cases rest
      exact ⟨form, rfl, i, first⟩
  | cons next forms ih =>
      obtain ⟨w, j, _, rest⟩ := run_bind_eq_ok_iff.1 ended
      rw [List.getLast?_cons_cons]
      exact ih rest

/-- The value of a closure's call is the value of the last form of its body. -/
theorem last_form_of_apply {depth : Nat} {params : List String} {rest? : Option String} {body args : List Value}
    {s : ScopeId} {v : Value} {i after : Interpreter}
    (ended : apply (depth + 1) (.closure params rest? body s) args i = .ok v after) :
    ∃ final ∈ body.getLast?, ∃ frame k, eval depth frame final k = .ok v after := by
  simp only [apply, applyStep] at ended
  split at ended
  · cases ended
  · cases body with
    | nil => cases ended
    | cons form forms =>
        obtain ⟨frame, k, _, rest⟩ := run_bind_eq_ok_iff.1 ended
        obtain ⟨final, isLast, m, gives⟩ := last_form_of_evalSequence rest
        exact ⟨final, isLast, frame, m, gives⟩

/-- After any calls of an embedding program all cells hold well-formed values, every value that the next call returns is
    well formed, and a closure's call never gives what its body started from but the value of its last form. -/
theorem wellFormed_of_reachable {i : Interpreter} (reachable : Reachable i) :
    (∀ v ∈ i.heap.cells, v.WellFormed) ∧
      (∀ (request : Request) v after, request.perform i = .ok (some v) after → v.WellFormed) ∧
      (∀ depth params rest? body s args v after, apply (depth + 1) (.closure params rest? body s) args i = .ok v after →
        ∃ final ∈ body.getLast?, ∃ frame k, eval depth frame final k = .ok v after) := by
  have held := heap_wellFormed_of_reachable reachable
  refine ⟨held, fun request => ?_, fun _ _ _ _ _ _ _ _ => last_form_of_apply⟩
  exact (wellFormedness.holds_of_perform trivial request held).2

/-- The state after a program that defines a dotted list, in an interpreter without a prelude. -/
def definingSample : Interpreter :=
  Ending.state ((Request.eval "(define x '(1 . 2))".toList).perform (Interpreter.initial {} {} []))

theorem wellFormed_definingSample : Reachable definingSample ∧ ∀ v ∈ definingSample.heap.cells, v.WellFormed := by
  have reachable : Reachable definingSample := .call _ (reachable_initial {} {} [])
  exact ⟨reachable, (wellFormed_of_reachable reachable).1⟩

end SmallScheme
