import SmallScheme.Proofs.Discipline

/-
Module: SmallScheme.Proofs.Record
Purpose: The record of steps. An interpreter may write what it does among the diagnostics; nothing that a program can do
  looks there. Two states are the same but for the record if they differ in the diagnostics at most, and only if steps are
  recorded; from such states every evaluation ends alike and in such states again.
Main exports: SameButRecord, sameButRecord_note, recordBlindness
-/

namespace SmallScheme

/-- The states differ at most in what was recorded, and not at all if nothing is recorded. -/
structure SameButRecord (i j : Interpreter) : Prop where
  same : j = { i with console := { i.console with diagnostics := j.console.diagnostics } }
  silent : i.console.verbose = false → j = i

namespace SameButRecord

variable {i j k : Interpreter}

theorem refl (i : Interpreter) : SameButRecord i i :=
  ⟨rfl, fun _ => rfl⟩

theorem verbose (related : SameButRecord i j) : j.console.verbose = i.console.verbose := by
  rw [related.same]

theorem heap (related : SameButRecord i j) : j.heap = i.heap := by
  rw [related.same]

/-- A file has the same text. -/
theorem readFile (related : SameButRecord i j) (name : String) : j.readFile name = i.readFile name := by
  have sameFiles : j.files = i.files := by rw [related.same]
  have sameSettings : j.settings = i.settings := by rw [related.same]
  exact Interpreter.readFile_congr sameFiles sameSettings name

theorem symm (related : SameButRecord i j) : SameButRecord j i where
  same := by rw [related.same]
  silent quiet := (related.silent (related.verbose.symm.trans quiet)).symm

theorem trans (first : SameButRecord i j) (second : SameButRecord j k) : SameButRecord i k where
  same := by rw [second.same, first.same]
  silent quiet := by
    have unchanged := first.silent quiet
    rw [second.silent (first.verbose.trans quiet), unchanged]

/-- The same change of the memory keeps the states related. -/
theorem onHeap (related : SameButRecord i j) (h : Heap) :
    SameButRecord { i with heap := h } { j with heap := h } where
  same := by rw [related.same]
  silent quiet := by rw [related.silent quiet]

theorem withinWorld : WithinWorld SameButRecord where
  world related := by
    rw [related.same]
    rfl
  moved after related :=
    { same := by
        rw [related.same]
        rfl
      silent := fun quiet => by rw [related.silent quiet] }

/-- Whatever else was recorded, if steps are. -/
theorem of_verbose (same : j = { i with console := { i.console with diagnostics := j.console.diagnostics } })
    (recorded : i.console.verbose = true) : SameButRecord i j where
  same := same
  silent quiet := by
    rw [recorded] at quiet
    cases quiet

/-- Whether steps are recorded does not depend on what was recorded before. -/
theorem respects_note (recorder : Recorder) (text : String) :
    Respects SameButRecord (fun _ => True) (note recorder text) := by
  intro i j related
  apply Alike.ok trivial
  change SameButRecord (if i.console.verbose then _ else i) (if j.console.verbose then _ else j)
  rw [related.verbose]
  cases recorded : i.console.verbose with
  | true =>
      refine of_verbose (?_ : ite (true = true) _ j = _) recorded
      rw [if_pos rfl, if_pos rfl, related.same]
  | false => exact related

end SameButRecord

/-- A step recorded changes nothing but the record. -/
theorem sameButRecord_note (recorder : Recorder) (text : String) (i : Interpreter) :
    ∃ after, note recorder text i = .ok () after ∧ SameButRecord i after := by
  refine ⟨_, rfl, ?_⟩
  change SameButRecord i (if i.console.verbose then _ else i)
  cases recorded : i.console.verbose with
  | true => exact .of_verbose rfl recorded
  | false => exact .refl i

/-- Programs work with any expressions and values, and do not see the record. -/
def recordBlindness : Discipline where
  toKinds := .within fun _ => True
  states := SameButRecord
  world := keepsWorld_of_note SameButRecord.withinWorld SameButRecord.respects_note
  lookup? related _ name := ⟨by rw [related.heap], fun _ _ => trivial⟩
  cell? related _ name := by rw [related.heap]
  write related _ _ _ := by
    rw [related.heap]
    exact related.onHeap _
  define related _ _ name := by
    rw [related.heap]
    exact related.onHeap _
  extend related _ _ := by
    rw [related.heap]
    exact ⟨rfl, trivial, related.onHeap _⟩
  operation related _ op := ⟨by rw [related.heap], fun _ _ => trivial⟩

end SmallScheme
