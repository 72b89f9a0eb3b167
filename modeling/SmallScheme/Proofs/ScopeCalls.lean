import Mathlib.Logic.Relation
import SmallScheme.Eval
import SmallScheme.Proofs.Names

/-
Module: SmallScheme.Proofs.ScopeCalls
Purpose: Scopes as a data structure of their own. Whoever uses them makes scopes, extends them, defines names in them,
  assigns to names and looks them up, in any order and also after a call that failed. A history is the list of the calls
  made, the newest first, so what stands behind a call is what it found; it says which scopes were extended from which.
Main exports: ScopeCall, ScopeCall.perform, ScopeCall.onHeap, replay, memory, Proper, Extends, Descends
-/

namespace SmallScheme

/-- A call on scopes. -/
inductive ScopeCall where
  /-- Makes a scope with some names of its own. -/
  | create (bindings : List (String × Value))
  /-- Extends a scope by some names. -/
  | extend (s : ScopeId) (bindings : List (String × Value))
  /-- Defines a name. -/
  | define (s : ScopeId) (name : String) (v : Value)
  /-- Defines several names, one after the other. -/
  | update (s : ScopeId) (bindings : List (String × Value))
  /-- Assigns to a bound name. -/
  | assign (s : ScopeId) (name : String) (v : Value)
  /-- Looks up the value of a name. -/
  | lookup (s : ScopeId) (name : String)
deriving DecidableEq, Repr, Inhabited

/-- The answer of an action and the state that it leaves behind. -/
def outcome {State Answer : Type} : EStateM.Result Fault State Answer → Except Fault Answer × State
  | .ok answer after => (.ok answer, after)
  | .error fault after => (.error fault, after)

namespace ScopeCall

/-- Performs a call, and gives the value it returns if it returns one. -/
def perform : ScopeCall → Action (Option Value)
  | .create bindings => do
    modifyHeap fun h => (h.addScope {}).1.defineAll h.scopes.size bindings
    return none
  | .extend s bindings => do
    let _ ← newFrame s bindings
    return none
  | .define s name v => do return some (← SmallScheme.define s name v)
  | .update s bindings => do
    modifyHeap (·.defineAll s bindings)
    return none
  | .assign s name v => do return some (← SmallScheme.assign s name v)
  | .lookup s name => do return some (← SmallScheme.lookup s name)

/-- The scope that a call is made on, if it is made on one. -/
def target? : ScopeCall → Option ScopeId
  | .create _ => none
  | .extend s _ | .define s _ _ | .update s _ | .assign s _ _ | .lookup s _ => some s

/-- What a call does to the memory. -/
def onHeap (h : Heap) : ScopeCall → Heap
  | .create bindings => (h.addScope {}).1.defineAll h.scopes.size bindings
  | .extend s bindings => (h.extend s bindings).1
  | .define s name v => h.define s name v
  | .update s bindings => h.defineAll s bindings
  | .assign s name v =>
    match h.cell? s name with
    | some c => h.write c v
    | none => h
  | .lookup _ _ => h

/-- What an assignment answers and does, by the cell of the name. -/
theorem outcome_assign (s : ScopeId) (name : String) (v : Value) (i : Interpreter) :
    outcome ((assign s name v).perform i) =
      match i.heap.cell? s name with
      | some c => (.ok (some v), { i with heap := i.heap.write c v })
      | none => (.error (.unboundWrite name), i) := by
  change outcome (EStateM.bind (SmallScheme.assign s name v) _ i) = _
  simp only [EStateM.bind, SmallScheme.assign, run_get_bind]
  cases i.heap.cell? s name <;> rfl

/-- What a lookup answers, by the value of the name. -/
theorem outcome_lookup (s : ScopeId) (name : String) (i : Interpreter) :
    outcome ((lookup s name).perform i) =
      match i.heap.lookup? s name with
      | some v => (.ok (some v), i)
      | none => (.error (.unboundRead name), i) := by
  change outcome (EStateM.bind (SmallScheme.lookup s name) _ i) = _
  simp only [EStateM.bind, SmallScheme.lookup, run_get_bind]
  cases i.heap.lookup? s name <;> rfl

theorem heap_perform (call : ScopeCall) (i : Interpreter) :
    (outcome (call.perform i)).2.heap = call.onHeap i.heap := by
  cases call with
  | create | extend | define | update => rfl
  | assign s name v =>
      rw [outcome_assign, onHeap]
      cases i.heap.cell? s name <;> rfl
  | lookup s name =>
      rw [outcome_lookup, onHeap]
      cases i.heap.lookup? s name <;> rfl

/-- What a call keeps if a write, a new scope and each definition do. -/
theorem onHeap_induct {motive : Heap → Prop} {call : ScopeCall} {h : Heap}
    (inside : ∀ s ∈ call.target?, s < h.scopes.size) (start : motive h)
    (write : ∀ s name c v, h.cell? s name = some c → motive (h.write c v))
    (created : motive (h.addScope {}).1)
    (extended : ∀ s bindings, call = .extend s bindings →
      motive (h.addScope { bindings := (h.scope s).bindings, owned := [] }).1)
    (define : ∀ k s name v, motive k → s < k.scopes.size → motive (k.define s name v)) : motive (call.onHeap h) := by
  have defineAll : ∀ (bindings : List (String × Value)) (k : Heap) (s : ScopeId), motive k → s < k.scopes.size →
      motive (k.defineAll s bindings) := by
    intro bindings
    induction bindings with
    | nil => exact fun k s held _ => held
    | cons b bindings ih =>
        intro k s held there
        exact ih (k.define s b.1 b.2) s (define k s b.1 b.2 held there) (by rwa [Heap.size_scopes_define])
  cases call with
  | create bindings => exact defineAll bindings _ _ created (by simp)
  | extend s bindings => exact defineAll bindings _ _ (extended s bindings rfl) (by simp)
  | define s name v => exact define h s name v start (inside s rfl)
  | update s bindings => exact defineAll bindings h s start (inside s rfl)
  | assign s name v =>
      cases found : h.cell? s name with
      | some c =>
          simp only [onHeap, found]
          exact write s name c v found
      | none =>
          simp only [onHeap, found]
          exact start
  | lookup s name => exact start

end ScopeCall

/-!
### Histories
-/

/-- Performs the calls of a history, and gives their answers, the newest first, and the state behind them. A call that
    fails ends nothing. -/
def replay {State : Type} (perform : ScopeCall → EStateM Fault State (Option Value)) (start : State) :
    List ScopeCall → List (Except Fault (Option Value)) × State
  | [] => ([], start)
  | call :: earlier =>
    let before := replay perform start earlier
    let after := outcome (perform call before.2)
    (after.1 :: before.1, after.2)

/-- The memory behind a history that began with no scopes. -/
def memory (history : List ScopeCall) : Heap :=
  (replay ScopeCall.perform {} history).2.heap

theorem memory_cons (call : ScopeCall) (earlier : List ScopeCall) :
    memory (call :: earlier) = call.onHeap (memory earlier) :=
  call.heap_perform _

/-- Every call was made on a scope that was there. -/
def Proper : List ScopeCall → Prop
  | [] => True
  | call :: earlier => (∀ s ∈ call.target?, s < (memory earlier).scopes.size) ∧ Proper earlier

instance decidableProper : (history : List ScopeCall) → Decidable (Proper history)
  | [] => inferInstanceAs (Decidable True)
  | _ :: earlier =>
    have := decidableProper earlier
    inferInstanceAs (Decidable (_ ∧ _))

theorem Proper.of_append {later earlier : List ScopeCall} (proper : Proper (later ++ earlier)) : Proper earlier := by
  induction later with
  | nil => exact proper
  | cons call later ih => exact ih proper.2

/-- The second scope was made by extending the first. -/
def Extends (history : List ScopeCall) (s t : ScopeId) : Prop :=
  ∃ later earlier bindings, history = later ++ .extend s bindings :: earlier ∧ t = (memory earlier).scopes.size

/-- The second scope is the first one or was made from it by extending again and again. -/
def Descends (history : List ScopeCall) : ScopeId → ScopeId → Prop :=
  Relation.ReflTransGen (Extends history)

theorem Extends.cons {history : List ScopeCall} {s t : ScopeId} (extended : Extends history s t) (call : ScopeCall) :
    Extends (call :: history) s t := by
  obtain ⟨later, earlier, bindings, rfl, made⟩ := extended
  exact ⟨call :: later, earlier, bindings, rfl, made⟩

theorem Descends.cons {history : List ScopeCall} {s t : ScopeId} (descends : Descends history s t) (call : ScopeCall) :
    Descends (call :: history) s t :=
  Relation.ReflTransGen.mono (fun _ _ (extended : Extends history _ _) => extended.cons call) _ _ descends

theorem extends_new (s : ScopeId) (bindings : List (String × Value)) (earlier : List ScopeCall) :
    Extends (.extend s bindings :: earlier) s (memory earlier).scopes.size :=
  ⟨[], earlier, bindings, rfl, rfl⟩

/-- A scope is older than those extended from it. -/
theorem Extends.lt {history : List ScopeCall} {s t : ScopeId} (extended : Extends history s t) (proper : Proper history) :
    s < t := by
  obtain ⟨later, earlier, bindings, rfl, rfl⟩ := extended
  exact proper.of_append.1 s rfl

theorem Descends.le {history : List ScopeCall} {s t : ScopeId} (descends : Descends history s t)
    (proper : Proper history) : s ≤ t := by
  induction descends with
  | refl => exact Nat.le_refl s
  | tail _ extended ih => exact Nat.le_trans ih (Nat.le_of_lt (extended.lt proper))

theorem Descends.antisymm {history : List ScopeCall} {s t : ScopeId} (proper : Proper history)
    (below : Descends history s t) (above : Descends history t s) : s = t :=
  Nat.le_antisymm (below.le proper) (above.le proper)

/-- The names of every scope only grow at the end. -/
theorem namesGrow_memory {later earlier : List ScopeCall} (proper : Proper (later ++ earlier)) :
    Heap.NamesGrow (memory earlier) (memory (later ++ earlier)) := by
  induction later with
  | nil => exact .refl _
  | cons call later ih =>
      have grown := ih proper.2
      rw [List.cons_append, memory_cons]
      apply ScopeCall.onHeap_induct proper.1 grown
      · exact fun _ _ _ _ _ => grown
      · exact grown.trans (Heap.namesGrow_addScope _ _)
      · exact fun _ _ _ => grown.trans (Heap.namesGrow_addScope _ _)
      · exact fun k s name v held _ => held.trans (k.namesGrow_define s name v)

/-- Each scope binds a name once. -/
theorem bindsOnce_memory {history : List ScopeCall} (proper : Proper history) : (memory history).BindsOnce := by
  induction history with
  | nil => exact fun _ => List.nodup_nil
  | cons call earlier ih =>
      have once := ih proper.2
      rw [memory_cons]
      apply ScopeCall.onHeap_induct proper.1 once
      · exact fun _ _ c v _ => once.write c v
      · exact once.addScope_empty
      · exact fun s _ _ => once.addScope (once s)
      · exact fun _ s name v held _ => held.define s name v

end SmallScheme
