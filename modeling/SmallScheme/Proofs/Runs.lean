import SmallScheme.Interpreter

/-
Module: SmallScheme.Proofs.Runs
Purpose: Two runs of one action. From related states they end alike if both give one value of a given kind, or both
  stop with one fault, and the states are related again; an action from which all related states end alike
  respects the relation. With a relation that holds only between a state and itself this says that an action keeps
  a property of states. Sequences of actions that respect a relation respect it.
Main exports: Alike, Alike.bind, Respects, Respects.bind, Respects.ofExcept, Alone, OnHeap, Same, WorldOnly,
  WithinWorld, WorldOnly.respects
-/

namespace SmallScheme

/-- How an action ends: with a value or a fault, and a state. -/
abbrev Ending (α : Type) :=
  EStateM.Result Fault Interpreter α

/-- The state in which an action ends. -/
def Ending.state {α : Type} : Ending α → Interpreter
  | .ok _ i | .error _ i => i

/-- Two runs ended alike, with one value of a kind or with one fault, and in related states. -/
inductive Alike {α : Type} (states : Interpreter → Interpreter → Prop) (kind : α → Prop) :
    Ending α → Ending α → Prop where
  | ok {a : α} {i j : Interpreter} (value : kind a) (related : states i j) : Alike states kind (.ok a i) (.ok a j)
  | error {fault : Fault} {i j : Interpreter} (related : states i j) :
      Alike states kind (.error fault i) (.error fault j)

/-- From related states the runs of an action end alike. -/
def Respects {α : Type} (states : Interpreter → Interpreter → Prop) (kind : α → Prop) (action : Action α) : Prop :=
  ∀ i j, states i j → Alike states kind (action i) (action j)

/-- What looks at the state first is run in that state. -/
theorem run_get_bind {ε State α : Type} (next : State → EStateM ε State α) (i : State) : (get >>= next) i = next i i :=
  rfl

/-- Behind a value the rest of a sequence is run in the state in which its first part ended. -/
theorem run_bind_of_ok {ε State α β : Type} {action : EStateM ε State α} {i j : State} {a : α}
    (ended : action i = .ok a j) (next : α → EStateM ε State β) : (action >>= next) i = next a j := by
  change EStateM.bind action next i = next a j
  simp only [EStateM.bind, ended]

/-- A sequence ends with the fault that its first part ends with. -/
theorem run_bind_of_error {ε State α β : Type} {action : EStateM ε State α} {i j : State} {fault : ε}
    (ended : action i = .error fault j) (next : α → EStateM ε State β) : (action >>= next) i = .error fault j := by
  change EStateM.bind action next i = .error fault j
  simp only [EStateM.bind, ended]

/-- A sequence gives a value only if its first part gives one from which the rest does. -/
theorem run_bind_eq_ok_iff {α β : Type} {action : Action α} {next : α → Action β} {i after : Interpreter} {b : β} :
    (action >>= next) i = .ok b after ↔ ∃ a j, action i = .ok a j ∧ next a j = .ok b after := by
  change EStateM.bind action next i = .ok b after ↔ _
  unfold EStateM.bind
  cases action i with
  | error fault j => simp
  | ok a j =>
      constructor
      · exact fun rest => ⟨a, j, rfl, rest⟩
      · rintro ⟨_, _, ⟨⟩, rest⟩
        exact rest

section Sequences

variable {α β : Type} {states : Interpreter → Interpreter → Prop} {kind : α → Prop}

theorem Alike.mono {looser : Interpreter → Interpreter → Prop} {wider : α → Prop}
    (loosens : ∀ i j, states i j → looser i j) (widens : ∀ a, kind a → wider a) {first second : Ending α}
    (alike : Alike states kind first second) : Alike looser wider first second := by
  cases alike with
  | ok value related => exact .ok (widens _ value) (loosens _ _ related)
  | error related => exact .error (loosens _ _ related)

/-- Runs that end alike end in related states. -/
theorem Alike.related {first second : Ending α} (alike : Alike states kind first second) :
    states first.state second.state := by
  cases alike <;> assumption

/-- Sequences end alike if their first parts do and, behind each value, the rest. -/
theorem Alike.bind {kind' : β → Prop} {first second : Action α} {next other : α → Action β} {i j : Interpreter}
    (alike : Alike states kind (first i) (second j))
    (rest : ∀ a, kind a → ∀ i j, states i j → Alike states kind' (next a i) (other a j)) :
    Alike states kind' ((first >>= next) i) ((second >>= other) j) := by
  change Alike states kind' (EStateM.bind first next i) (EStateM.bind second other j)
  unfold EStateM.bind
  generalize first i = one, second j = two at alike
  cases alike with
  | ok value related => exact rest _ value _ _ related
  | error related => exact .error related

namespace Respects

theorem mono {wider : α → Prop} {action : Action α} (respects : Respects states kind action)
    (widens : ∀ a, kind a → wider a) : Respects states wider action :=
  fun i j related => (respects i j related).mono (fun _ _ => id) widens

theorem pure {a : α} (value : kind a) : Respects states kind (pure a) :=
  fun _ _ related => .ok value related

theorem throw (fault : Fault) : Respects states kind (throw fault : Action α) :=
  fun _ _ related => .error related

theorem bind {kind' : β → Prop} {action : Action α} {next : α → Action β} (first : Respects states kind action)
    (rest : ∀ a, kind a → Respects states kind' (next a)) : Respects states kind' (action >>= next) :=
  fun i j related => (first i j related).bind rest

/-- What is done after looking at the state may depend on what related states have in common. -/
theorem get_bind {next : Interpreter → Action α} (same : ∀ i j, states i j → next j = next i)
    (rest : ∀ i, Respects states kind (next i)) : Respects states kind (get >>= next) := by
  intro i j related
  rw [run_get_bind, run_get_bind, same i j related]
  exact rest i i j related

theorem ofExcept {x : Except Fault α} (value : ∀ a, x = .ok a → kind a) :
    Respects states kind (Action.ofExcept x) := by
  cases x with
  | ok a => exact pure (value a rfl)
  | error fault => exact throw fault

end Respects

end Sequences

/-!
### One state

With a relation that holds only between a state and itself, two runs are one run, and to respect the relation is to keep
a property of states.
-/

/-- One state, of which a property holds. -/
def Alone (held : Interpreter → Prop) (i j : Interpreter) : Prop :=
  j = i ∧ held i

/-- However an action ends that respects the relation, the property holds then. -/
theorem Respects.keeps {α : Type} {kind : α → Prop} {held : Interpreter → Prop} {action : Action α}
    (respects : Respects (Alone held) kind action) {i : Interpreter} (begins : held i) :
    held (Ending.state (action i)) :=
  ((respects i i ⟨rfl, begins⟩).related).2

/-!
### Memory and the world around it

Ports, files, settings and streams are looked at and changed by actions that see neither the memory nor the record of
steps. Such actions respect every relation between states that is about memory and record alone.
-/

/-- The memories are related, and all else is the same. -/
def OnHeap (heaps : Heap → Heap → Prop) (i j : Interpreter) : Prop :=
  heaps i.heap j.heap ∧ j = { i with heap := j.heap }

theorem OnHeap.update {heaps wider : Heap → Heap → Prop} {i j : Interpreter} (related : OnHeap heaps i j) {h k : Heap}
    (updated : wider h k) : OnHeap wider { i with heap := h } { j with heap := k } :=
  ⟨updated, by rw [related.2]⟩

/-- One memory, of which an invariant holds. -/
def Same (invariant : Heap → Prop) (h k : Heap) : Prop :=
  k = h ∧ invariant h

/-- The memory and the record of a state in the world of another. -/
def Interpreter.inWorldOf (j i : Interpreter) : Interpreter :=
  { i with
    heap := j.heap
    console := { i.console with diagnostics := j.console.diagnostics, verbose := j.console.verbose } }

/-- The memory and the record of a state in the world of an ending. -/
def Ending.around {α : Type} (j : Interpreter) : Ending α → Ending α
  | .ok a i => .ok a (j.inWorldOf i)
  | .error fault i => .error fault (j.inWorldOf i)

/-- An action that sees and changes neither the memory nor the record. -/
def WorldOnly {α : Type} (action : Action α) : Prop :=
  ∀ i j : Interpreter, action (j.inWorldOf i) = Ending.around j (action i)

/-- A relation between states of one world that is about their memories and records alone. -/
structure WithinWorld (states : Interpreter → Interpreter → Prop) : Prop where
  world : ∀ {i j}, states i j → j.inWorldOf i = j
  moved : ∀ {i j} after, states i j → states (i.inWorldOf after) (j.inWorldOf after)

/-- States of one world have the same files and settings. -/
theorem WithinWorld.files_and_settings {states : Interpreter → Interpreter → Prop} (within : WithinWorld states)
    {i j : Interpreter} (related : states i j) : j.files = i.files ∧ j.settings = i.settings := by
  rw [← within.world related]
  exact ⟨rfl, rfl⟩

/-- An action that does not see memory and record does not change them, and does the same whatever they are. -/
theorem WorldOnly.respects {α : Type} {kind : α → Prop} {action : Action α}
    {states : Interpreter → Interpreter → Prop} (only : WorldOnly action) (within : WithinWorld states)
    (gives : ∀ i a after, action i = .ok a after → kind a) : Respects states kind action := by
  intro i j related
  have kept : action i = Ending.around i (action i) := only i i
  have same : action j = Ending.around j (action i) := by rw [← only i j, within.world related]
  rw [same]
  cases ended : action i with
  | ok a after =>
      rw [ended] at kept
      rw [kept]
      exact .ok (gives i a after ended) (within.moved after related)
  | error fault after =>
      rw [ended] at kept
      rw [kept]
      exact .error (within.moved after related)

/-- Relations between memories are within one world. -/
theorem WithinWorld.onHeap (heaps : Heap → Heap → Prop) : WithinWorld (OnHeap heaps) where
  world related := by rw [related.2]; rfl
  moved after related := ⟨related.1, by rw [related.2]; rfl⟩

end SmallScheme
