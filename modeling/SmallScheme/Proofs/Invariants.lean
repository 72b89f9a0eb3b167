import SmallScheme.Proofs.Discipline

/-
Module: SmallScheme.Proofs.Invariants
Purpose: Invariants of the memory. One that each single write, definition and new frame keeps is a discipline of one
  state, so every evaluation keeps it and gives values of its kind, whether it ends with a value or with a fault.
Main exports: MemoryInvariant, MemoryInvariant.discipline, MemoryInvariant.holds_of_respects, MemoryInvariant.holds_of_eval
-/

namespace SmallScheme

/-- A property of the memory that every step keeps, where expressions, values and scopes are of given kinds. -/
structure MemoryInvariant extends Kinds where
  holds : Heap → Prop
  lookup? : ∀ {h s name v}, holds h → scope s → h.lookup? s name = some v → value v
  write : ∀ {h s name c v}, holds h → scope s → h.cell? s name = some c → value v → holds (h.write c v)
  define : ∀ {h s v}, holds h → scope s → value v → ∀ name, holds (h.define s name v)
  extend : ∀ {h params rest? body s bindings}, holds h → value (.closure params rest? body s) →
    (∀ b ∈ bindings, value b.2) → scope h.scopes.size ∧ holds (h.extend s bindings).1
  operation : ∀ {h args v} {op : Operation}, holds h → (∀ arg ∈ args, value arg) → op.call h args = .ok v → value v

namespace MemoryInvariant

/-- The invariant as a relation between a state and itself. -/
def discipline (invariant : MemoryInvariant) : Discipline where
  toKinds := invariant.toKinds
  states := OnHeap (Same invariant.holds)
  world := keepsWorld_onHeap _
  lookup? := by
    rintro i j s ⟨⟨same, held⟩, _⟩ within name
    exact ⟨by rw [same], fun v found => invariant.lookup? held within found⟩
  cell? := by
    rintro i j s ⟨⟨same, _⟩, _⟩ _ name
    rw [same]
  write := by
    intro i j s name c v related within found value
    rcases related.1 with ⟨same, held⟩
    exact related.update ⟨by rw [same], invariant.write held within found value⟩
  define := by
    intro i j s v related within value name
    rcases related.1 with ⟨same, held⟩
    exact related.update ⟨by rw [same], invariant.define held within value name⟩
  extend := by
    intro i j params rest? body s bindings related closure values
    rcases related.1 with ⟨same, held⟩
    rcases invariant.extend held closure values with ⟨within, after⟩
    exact ⟨by rw [same], within, related.update ⟨by rw [same], after⟩⟩
  operation := by
    rintro i j args ⟨⟨same, held⟩, _⟩ values op
    exact ⟨by rw [same], fun v called => invariant.operation held values called⟩

variable {invariant : MemoryInvariant}

/-- What an action that keeps to the discipline does from a state in which the invariant holds. -/
theorem holds_of_respects {α : Type} {kind : α → Prop} {action : Action α}
    (respects : Respects invariant.discipline.states kind action) {i : Interpreter} (held : invariant.holds i.heap) :
    invariant.holds (Ending.state (action i)).heap ∧ ∀ a after, action i = .ok a after → kind a := by
  have alike := respects i i ⟨⟨rfl, held⟩, rfl⟩
  refine ⟨alike.related.1.2, fun a after ended => ?_⟩
  rw [ended] at alike
  cases alike with
  | ok value related => exact value

/-- However an evaluation ends, the invariant holds then, and a value that it gives is of the kind. -/
theorem holds_of_eval (depth : Nat) {s : ScopeId} {e : Value} (within : invariant.scope s) (expr : invariant.expr e)
    {i : Interpreter} (held : invariant.holds i.heap) :
    invariant.holds (Ending.state (eval depth s e i)).heap ∧
      ∀ v after, eval depth s e i = .ok v after → invariant.value v :=
  holds_of_respects (invariant.discipline.eval depth within expr) held

end MemoryInvariant

end SmallScheme
