import SmallScheme.Proofs.ReaderData
import SmallScheme.Proofs.Runs
import SmallScheme.Session

/-
Module: SmallScheme.Proofs.World
Purpose: Ports, files, settings and streams. What programs do with them is done by a few actions; a relation between
  states that all of these respect is one that keeps the world. A relation within one world does if recording a step
  respects it, because all other actions see neither the memory nor the record; so a relation between memories does.
Main exports: run_closeStream, run_closePort, WorldOnly.bind, WorldOnly.get_bind, KeepsWorld, keepsWorld_of_note,
  keepsWorld_onHeap, KeepsWorld.loadForms
-/

namespace SmallScheme

open Value (Canonical)

/-!
### Actions that see the world only
-/

/-- The text of a file depends on files and settings only. -/
theorem Interpreter.readFile_congr {i j : Interpreter} (sameFiles : j.files = i.files)
    (sameSettings : j.settings = i.settings) (name : String) : j.readFile name = i.readFile name := by
  have sameFound : j.isFile = i.isFile := by
    funext path
    rw [Interpreter.isFile, Interpreter.isFile, sameFiles]
  have sameResolved : j.resolve name = i.resolve name := by
    unfold Interpreter.resolve
    rw [sameFound, sameSettings]
  unfold Interpreter.readFile
  rw [sameResolved, sameFiles]

/-- How closing a port ends: at once if it is closed, and otherwise with the port closed, and with a failure if its file
    cannot hold what the port has collected. -/
theorem run_closeStream (id : PortId) (i : Interpreter) :
    closeStream id i =
      if (i.port id).closed then .ok () i
      else if i.files.holds (i.port id).place (i.port id).collected.length then .ok () (i.close id)
      else .error .noRoom (i.close id) := by
  rw [closeStream, run_get_bind]
  cases (i.port id).closed with
  | true => rfl
  | false =>
      cases i.files.holds (i.port id).place (i.port id).collected.length <;> rfl

/-- How a port is closed by a program: a closed one is struck off, as is one whose file can hold what was written; otherwise
    the port is closed, and the failure comes before it is struck off. -/
theorem run_closePort (id : PortId) (i : Interpreter) :
    closePort id i =
      if (i.port id).closed then .ok () (i.strikeOff id)
      else if i.files.holds (i.port id).place (i.port id).collected.length then .ok () ((i.close id).strikeOff id)
      else .error .noRoom (i.close id) := by
  have strikes : closePort id i = (closeStream id >>= fun _ => modify (Interpreter.strikeOff · id)) i := rfl
  rw [strikes]
  by_cases isClosed : (i.port id).closed = true
  · rw [if_pos isClosed]
    exact run_bind_of_ok ((run_closeStream id i).trans (if_pos isClosed)) _
  · have stream := (run_closeStream id i).trans (if_neg isClosed)
    rw [if_neg isClosed]
    split
    · rename_i fits
      exact run_bind_of_ok (stream.trans (if_pos fits)) _
    · rename_i full
      exact run_bind_of_error (stream.trans (if_neg full)) _

namespace WorldOnly

variable {α β : Type}

theorem bind {action : Action α} {next : α → Action β} (first : WorldOnly action) (rest : ∀ a, WorldOnly (next a)) :
    WorldOnly (action >>= next) := by
  intro i j
  cases ended : action i with
  | ok a after =>
      have moved : action (j.inWorldOf i) = .ok a (j.inWorldOf after) := by rw [first i j, ended]; rfl
      rw [run_bind_of_ok moved, run_bind_of_ok ended]
      exact rest a after j
  | error fault after =>
      have moved : action (j.inWorldOf i) = .error fault (j.inWorldOf after) := by rw [first i j, ended]; rfl
      rw [run_bind_of_error moved, run_bind_of_error ended]
      rfl

/-- An action that first looks at the state sees the world only if what it does then depends on nothing else. -/
theorem get_bind {next : Interpreter → Action α}
    (same : ∀ i j : Interpreter, next (j.inWorldOf i) (j.inWorldOf i) = Ending.around j (next i i)) :
    WorldOnly (get >>= next) :=
  same

theorem modify {f : Interpreter → Interpreter} (same : ∀ i j : Interpreter, f (j.inWorldOf i) = j.inWorldOf (f i)) :
    WorldOnly (modify f) :=
  fun i j => congrArg (EStateM.Result.ok ()) (same i j)

theorem printOut (text : String) : WorldOnly (printOut text) :=
  modify fun _ _ => rfl

theorem openInputPort (name : String) : WorldOnly (openInputPort name) := by
  apply get_bind
  intro i j
  have sameFiles : (j.inWorldOf i).files = i.files := rfl
  rw [sameFiles]
  cases i.files.openRead name <;> rfl

theorem openOutputPort (name : String) : WorldOnly (openOutputPort name) := by
  apply get_bind
  intro i j
  have sameFiles : (j.inWorldOf i).files = i.files := rfl
  rw [sameFiles]
  cases i.files.openWrite name <;> rfl

theorem closeStream (id : PortId) : WorldOnly (closeStream id) := by
  intro i j
  have samePort : (j.inWorldOf i).port id = i.port id := rfl
  have sameFiles : (j.inWorldOf i).files = i.files := rfl
  have closes : (j.inWorldOf i).close id = j.inWorldOf (i.close id) := rfl
  rw [run_closeStream, run_closeStream, samePort, sameFiles, closes]
  split
  · rfl
  · split <;> rfl

theorem closePort (id : PortId) : WorldOnly (closePort id) :=
  (closeStream id).bind fun _ => modify fun _ _ => rfl

theorem closeEach (ids : List PortId) : WorldOnly (closeEach ids) := by
  induction ids with
  | nil => exact fun _ _ => rfl
  | cons id ids ih =>
      apply bind (modify fun _ _ => rfl)
      intro _
      exact (closeStream id).bind fun _ => ih

theorem closeAll : WorldOnly closeAll :=
  get_bind fun i j => closeEach i.openPorts.reverse i j

theorem readLineIn : WorldOnly readLineIn :=
  fun _ _ => rfl

theorem readLineFrom (id : PortId) : WorldOnly (readLineFrom id) := by
  apply get_bind
  intro i j
  have samePort : (j.inWorldOf i).port id = i.port id := rfl
  have sameFiles : (j.inWorldOf i).files = i.files := rfl
  simp only [samePort, sameFiles]
  cases (i.port id).closed with
  | true => rfl
  | false =>
      simp only [Bool.false_eq_true, if_false]
      cases (i.port id).channel with
      | output written => rfl
      | input reading =>
          simp only
          cases Reading.readLine ((i.files.contents? (i.port id).place).getD []) reading <;> rfl

theorem writeTo (id : PortId) (text : List Char) : WorldOnly (writeTo id text) := by
  apply get_bind
  intro i j
  have samePort : (j.inWorldOf i).port id = i.port id := rfl
  simp only [samePort]
  cases (i.port id).closed with
  | true => rfl
  | false => cases (i.port id).channel <;> rfl

end WorldOnly

/-!
### Relations that keep the world
-/

/-- All that programs and sessions do with ports, files, settings and streams respects the relation. -/
structure KeepsWorld (states : Interpreter → Interpreter → Prop) : Prop where
  note : ∀ recorder text, Respects states (fun _ => True) (note recorder text)
  printOut : ∀ text, Respects states (fun _ => True) (printOut text)
  openInputPort : ∀ name, Respects states (fun v => ∃ id, v = .port id) (openInputPort name)
  openOutputPort : ∀ name, Respects states (fun v => ∃ id, v = .port id) (openOutputPort name)
  closePort : ∀ id, Respects states (fun _ => True) (closePort id)
  readLineIn : Respects states (fun _ => True) readLineIn
  readLineFrom : ∀ id, Respects states (fun _ => True) (readLineFrom id)
  writeTo : ∀ id text, Respects states (fun _ => True) (writeTo id text)
  readFile : ∀ name, Respects states (fun _ => True) (readFile name)
  configuredPrelude : Respects states (fun _ => True) configuredPrelude
  closeAll : Respects states (fun _ => True) closeAll

theorem openInputPort_gives {name : String} {i after : Interpreter} {v : Value}
    (opened : openInputPort name i = .ok v after) : ∃ id, v = .port id := by
  simp only [openInputPort, run_get_bind] at opened
  cases found : i.files.openRead name <;> simp only [found] at opened <;> cases opened
  exact ⟨_, rfl⟩

theorem openOutputPort_gives {name : String} {i after : Interpreter} {v : Value}
    (opened : openOutputPort name i = .ok v after) : ∃ id, v = .port id := by
  simp only [openOutputPort, run_get_bind] at opened
  cases found : i.files.openWrite name <;> simp only [found] at opened <;> cases opened
  exact ⟨_, rfl⟩

/-- The text of a file is the same in states with the same files and settings. -/
theorem respects_readFile {states : Interpreter → Interpreter → Prop}
    (same : ∀ i j, states i j → j.files = i.files ∧ j.settings = i.settings) (name : String) :
    Respects states (fun _ => True) (readFile name) := by
  apply Respects.get_bind
  · intro i j related
    obtain ⟨sameFiles, sameSettings⟩ := same i j related
    rw [Interpreter.readFile_congr sameFiles sameSettings name]
  · exact fun i => .ofExcept fun _ _ => trivial

/-- The prelude that settings choose depends on settings and files alone. -/
theorem respects_configuredPrelude {states : Interpreter → Interpreter → Prop}
    (same : ∀ i j, states i j → j.files = i.files ∧ j.settings = i.settings)
    (notes : ∀ recorder text, Respects states (fun _ => True) (note recorder text)) :
    Respects states (fun _ => True) configuredPrelude := by
  apply Respects.get_bind
  · intro i j related
    obtain ⟨sameFiles, sameSettings⟩ := same i j related
    simp only [Interpreter.isFile, sameSettings, sameFiles]
  · intro i
    have chosen : Respects states (fun _ => True) (Action.ofExcept i.settings.prelude) := .ofExcept fun _ _ => trivial
    apply chosen.bind
    intro choice _
    cases choice with
    | bundled => exact (notes .evaluation _).bind fun _ _ => .pure trivial
    | file path =>
        have found : Respects states (fun _ => True) (Action.ofExcept (i.isFile path)) := .ofExcept fun _ _ => trivial
        apply found.bind
        intro isThere _
        cases isThere with
        | false => exact .pure trivial
        | true =>
            apply (notes .evaluation _).bind
            intro _ _
            split
            · exact .throw _
            · split
              · exact .throw _
              · exact .pure trivial

/-- No other use of the world sees memory or record, so a relation within one world keeps it if recording respects the
    relation. -/
theorem keepsWorld_of_note {states : Interpreter → Interpreter → Prop} (within : WithinWorld states)
    (notes : ∀ recorder text, Respects states (fun _ => True) (note recorder text)) : KeepsWorld states where
  note := notes
  printOut text := (WorldOnly.printOut text).respects within fun _ _ _ _ => trivial
  openInputPort name := (WorldOnly.openInputPort name).respects within fun _ _ _ => openInputPort_gives
  openOutputPort name := (WorldOnly.openOutputPort name).respects within fun _ _ _ => openOutputPort_gives
  closePort id := (WorldOnly.closePort id).respects within fun _ _ _ _ => trivial
  readLineIn := WorldOnly.readLineIn.respects within fun _ _ _ _ => trivial
  readLineFrom id := (WorldOnly.readLineFrom id).respects within fun _ _ _ _ => trivial
  writeTo id text := (WorldOnly.writeTo id text).respects within fun _ _ _ _ => trivial
  readFile := respects_readFile fun _ _ => within.files_and_settings
  configuredPrelude := respects_configuredPrelude (fun _ _ => within.files_and_settings) notes
  closeAll := WorldOnly.closeAll.respects within fun _ _ _ _ => trivial

/-- Recording a step does not see the memory, so a relation between memories keeps the world. -/
theorem keepsWorld_onHeap (heaps : Heap → Heap → Prop) : KeepsWorld (OnHeap heaps) := by
  apply keepsWorld_of_note (.onHeap heaps)
  intro recorder text i j related
  obtain ⟨memories, same⟩ := related
  rw [same]
  apply Alike.ok trivial
  change OnHeap heaps (if i.console.verbose then _ else _) (if i.console.verbose then _ else _)
  split <;> exact ⟨memories, rfl⟩

/-- Loading gives the forms of a file, which are canonical data. -/
theorem KeepsWorld.loadForms {states : Interpreter → Interpreter → Prop} (world : KeepsWorld states) (name : String) :
    Respects states (fun forms => ∀ form ∈ forms, Canonical form) (loadForms name) := by
  apply (world.note _ _).bind
  intro _ _
  apply (world.readFile name).bind
  intro source _
  apply (Respects.ofExcept fun forms success => readAll_canonical success).bind
  intro forms data
  exact (world.note _ _).bind fun _ _ => .pure data

end SmallScheme
