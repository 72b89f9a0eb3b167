import SmallScheme.Proofs.Invariants

/-
Module: SmallScheme.Proofs.Sessions
Purpose: What an embedding program can do with an interpreter: start it with any prelude, then evaluate texts, run files and
  close it, in any order and whether the calls before succeeded or failed, while files, settings and streams may change
  between two calls. The states between calls are the reachable ones, and an invariant of the memory that holds at the
  start holds in all of them.
Main exports: Request, Request.perform, Reachable, Discipline.perform, MemoryInvariant.holds_of_reachable
-/

namespace SmallScheme

/-- A call of an embedding program. -/
inductive Request where
  /-- Evaluates a text. -/
  | eval (source : List Char)
  /-- Runs a file with arguments. -/
  | runFile (file : String) (args : List String)
  /-- Closes all ports. -/
  | close
deriving DecidableEq, Repr, Inhabited

/-- Performs a call, and gives the value it returns if it returns one. -/
def Request.perform : Request → Action (Option Value)
  | .eval source => do return some (← evalText source)
  | .runFile file args => do return some (← SmallScheme.runFile file args)
  | .close => do
    closeAll
    return none

/-- A state that an interpreter can be in between two calls. -/
inductive Reachable : Interpreter → Prop where
  /-- A new interpreter, after its prelude. -/
  | fresh {prelude : Prelude} {files : FileTree} {settings : Settings} {input : List Char} {console : Console}
      {after : Interpreter}
      (started : start prelude { Interpreter.initial files settings input with console } = .ok () after) :
      Reachable after
  /-- After a call, whether it succeeded or failed. -/
  | call {i : Interpreter} (request : Request) (earlier : Reachable i) : Reachable (Ending.state (request.perform i))
  /-- After files, settings and streams were changed from outside. -/
  | outside {i : Interpreter} (files : FileTree) (settings : Settings) (console : Console) (earlier : Reachable i) :
      Reachable { i with files, settings, console }

/-- An interpreter without a prelude, before anything has run. -/
theorem reachable_initial (files : FileTree) (settings : Settings) (input : List Char) :
    Reachable (Interpreter.initial files settings input) := by
  refine @Reachable.fresh .none files settings input (Interpreter.initial files settings input).console _ ?_
  generalize Interpreter.initial files settings input = i
  rfl

theorem Discipline.perform {d : Discipline} (held : d.scope root) (request : Request) :
    Respects d.states (fun returned => ∀ v ∈ returned, d.value v) request.perform := by
  cases request with
  | eval source => exact (evalText held source).bind fun v value => .pure (by simpa using value)
  | runFile file args => exact (runFile held file args).bind fun v value => .pure (by simpa using value)
  | close => exact d.world.closeAll.bind fun _ _ => .pure (by simp)

namespace MemoryInvariant

variable {invariant : MemoryInvariant}

/-- A call keeps an invariant of the memory, and a value that it returns is of the kind. -/
theorem holds_of_perform (within : invariant.scope root) (request : Request) {i : Interpreter}
    (held : invariant.holds i.heap) :
    invariant.holds (Ending.state (request.perform i)).heap ∧
      ∀ v after, request.perform i = .ok (some v) after → invariant.value v := by
  obtain ⟨kept, values⟩ := holds_of_respects (invariant.discipline.perform within request) held
  exact ⟨kept, fun v after returned => values (some v) after returned v rfl⟩

/-- An invariant of the memory that holds at the start holds in every reachable state. -/
theorem holds_of_reachable (within : invariant.scope root) (begins : invariant.holds (Heap.ofPrimitives primitives))
    {i : Interpreter} (reachable : Reachable i) : invariant.holds i.heap := by
  induction reachable with
  | @fresh prelude files settings input console after started =>
      have blank : invariant.holds (Interpreter.initial files settings input).heap := by
        simpa only [Interpreter.initial] using begins
      -- without its definition, so that the built-in procedures are not bound once more by the unifier
      generalize Interpreter.initial files settings input = i at started blank
      have kept := (holds_of_respects (invariant.discipline.start within prelude) (i := { i with console }) blank).1
      rwa [started] at kept
  | call request _ ih => exact (holds_of_perform within request ih).1
  | outside files settings console _ ih => exact ih

end MemoryInvariant

end SmallScheme
