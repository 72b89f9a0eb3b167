import SmallScheme.Eval
import SmallScheme.Proofs.LineReading
import SmallScheme.Proofs.World
import SmallScheme.Proofs.WrittenLines

/-
Module: SmallScheme.Proofs.PortRoundTrip
Purpose: What is written to a port and read back from its file. The file of an output port that is closed has the lines
  of the values that were written, each in written form; an input port on it hands out these lines, with unified line
  breaks. So each read gives the next value, up to the first that has a string with a line break: its first line is a
  string that is not terminated.
Main exports: FileTree.openRead_of_openWrite, Interpreter.Collects, Interpreter.HandsOut, save, nthRead, writtenLines,
  port_roundTrip
-/

namespace SmallScheme

open Text (unifyBreaks takeLine)
open Text.Utf8 (encode)

/-!
### The file
-/

namespace FileTree

variable {t : FileTree} {place : Location} {name : String}

/-- Writing to a file changes nothing but the table of files. -/
theorem exists_write (t : FileTree) (l : Location) (bytes : List UInt8) :
    ∃ files, t.write l bytes = { t with files } := by
  unfold write
  split <;> exact ⟨_, rfl⟩

/-- Writing to the place that a name leads to, a file or a place for one, makes it lead to a file. -/
theorem follow_write (bytes : List UInt8) {parts : List String} {start : Location}
    (leads : t.follow start parts = .ok (.file place) ∨ t.follow start parts = .ok (.vacant place)) :
    (t.write place bytes).follow start parts = .ok (.file place) := by
  obtain ⟨files, wrote⟩ := exists_write t place bytes
  have sameDirectories : ∀ l, (t.write place bytes).hasDirectory l = t.hasDirectory l := fun l => by rw [wrote]; rfl
  have sameBarred : ∀ l, (t.write place bytes).isBarred l = t.isBarred l := fun l => by rw [wrote]; rfl
  induction parts generalizing start with
  | nil => simp [follow] at leads
  | cons part parts ih =>
      rw [follow] at leads ⊢
      by_cases empty : part = ""
      · rw [if_pos empty] at leads ⊢
        exact ih leads
      by_cases barred : t.isBarred start
      · simp [empty, barred] at leads
      rw [if_neg empty, if_neg barred] at leads
      rw [if_neg empty, if_neg (by rwa [sameBarred])]
      by_cases stays : part = "."
      · rw [if_pos stays] at leads ⊢
        exact ih leads
      by_cases up : part = ".."
      · rw [if_neg stays, if_pos up] at leads ⊢
        exact ih leads
      by_cases long : maxPartSize < nameSize part.toList
      · simp [stays, up, long] at leads
      rw [if_neg stays, if_neg up, if_neg long] at leads ⊢
      by_cases down : t.hasDirectory (start ++ [part])
      · rw [if_pos down] at leads
        rw [if_pos (by rwa [sameDirectories])]
        exact ih leads
      · rw [if_neg down] at leads
        obtain ⟨last, reached⟩ : parts = [] ∧ start ++ [part] = place := by
          split at leads <;> split at leads <;> simp_all
        rw [if_neg (by rwa [sameDirectories]), reached, contents?_write, Option.isSome_some, if_pos rfl, if_pos last]

/-- A name that leads somewhere can be a name, and its parts are followed. -/
theorem locate_eq_ok_iff {spot : Spot} :
    t.locate name = .ok spot ↔
      ('\x00' ∉ name.toList ∧ name.toList ≠ [] ∧ nameSize name.toList ≤ maxNameSize) ∧
        t.follow (t.base name.toList) (Path.components name.toList) = .ok spot := by
  rw [locate, reach]
  by_cases null : '\x00' ∈ name.toList
  · simp [null]
  by_cases empty : name.toList = []
  · simp [empty]
  by_cases long : maxNameSize < nameSize name.toList
  · simp [null, empty, long]
  simp only [List.contains_eq_mem, null, empty, long, decide_false, Bool.false_eq_true, if_false, not_false_eq_true,
    ne_eq, Nat.le_of_not_lt long, and_self, true_and]
  cases t.follow (t.base name.toList) (Path.components name.toList) <;> simp [Except.mapError]

theorem locate_write (bytes : List UInt8)
    (leads : t.locate name = .ok (.file place) ∨ t.locate name = .ok (.vacant place)) :
    (t.write place bytes).locate name = .ok (.file place) := by
  rw [locate_eq_ok_iff, locate_eq_ok_iff, ← and_or_left] at leads
  obtain ⟨files, wrote⟩ := exists_write t place bytes
  have sameBase : (t.write place bytes).base name.toList = t.base name.toList := by rw [wrote]; rfl
  rw [locate_eq_ok_iff, sameBase]
  exact ⟨leads.1, follow_write bytes leads.2⟩

/-- A name under which a file is opened for writing leads to it, or to the place where it is made, which is not barred; the
    file is empty. -/
theorem locate_of_openWrite {opened : FileTree} (opens : t.openWrite name = .ok (opened, place)) :
    opened = t.write place [] ∧ t.isBarred place = false ∧
      (t.locate name = .ok (.file place) ∨ t.locate name = .ok (.vacant place)) := by
  unfold openWrite at opens
  simp only at opens
  split at opens
  · split at opens
    case h_3 | h_4 => cases opens
    all_goals
      rename_i led
      split at opens
      · cases opens
      · rename_i free
        cases opens
        exact ⟨rfl, Bool.eq_false_iff.2 free, by simp [led]⟩
  · split at opens <;> cases opens

/-- Of bytes that a file can hold all are written. -/
theorem overlay_of_holds {bytes : List UInt8} (fits : t.holds place bytes.length = true) :
    t.overlay place bytes = t.write place (bytes ++ ((t.contents? place).getD []).drop bytes.length) := by
  unfold holds at fits
  unfold overlay
  split at fits
  · simp only [List.take_of_length_le (of_decide_eq_true fits)]
  · rfl

/-- A file that was opened for writing is empty, and whatever bytes are then written to it, if it can hold them, they are
    what is found under its name. -/
theorem openRead_of_openWrite {opened : FileTree} (opens : t.openWrite name = .ok (opened, place)) :
    opened.contents? place = some [] ∧ opened.openRead name = .ok place ∧
      ∀ bytes, opened.holds place bytes.length = true →
        (opened.overlay place bytes).contents? place = some bytes ∧
          (opened.overlay place bytes).openRead name = .ok place := by
  obtain ⟨rfl, free, leads⟩ := locate_of_openWrite opens
  have located := locate_write [] leads
  have empty : (t.write place []).contents? place = some [] := contents?_write ..
  have found : ∀ {u : FileTree} bytes, u.isBarred place = false →
      (u.locate name = .ok (.file place) ∨ u.locate name = .ok (.vacant place)) →
        (u.write place bytes).openRead name = .ok place := by
    intro u bytes free leads
    obtain ⟨files, wrote⟩ := exists_write u place bytes
    have stillFree : (u.write place bytes).isBarred place = false := by rw [wrote]; exact free
    simp only [openRead, locate_write bytes leads, stillFree]
    rfl
  refine ⟨empty, found [] free leads, fun bytes fits => ?_⟩
  have overlaid : (t.write place []).overlay place bytes = (t.write place []).write place bytes := by
    rw [overlay_of_holds fits, empty, Option.getD_some, List.drop_nil, List.append_nil]
  obtain ⟨files, wrote⟩ := exists_write t place []
  have stillFree : (t.write place []).isBarred place = false := by rw [wrote]; exact free
  rw [overlaid]
  exact ⟨contents?_write .., found bytes stillFree (.inl located)⟩

end FileTree

/-!
### The ports
-/

namespace Interpreter

/-- The port is open for output to a place, and has collected these texts, newest first. -/
def Collects (i : Interpreter) (id : PortId) (place : Location) (written : List (List Char)) : Prop :=
  ∃ port, i.ports[id]? = some port ∧ port.closed = false ∧ port.place = place ∧ port.channel = .output written

/-- The port is open for input, and has this text still to hand out. -/
def HandsOut (i : Interpreter) (id : PortId) (text : List Char) : Prop :=
  ∃ port reading, i.ports[id]? = some port ∧ port.closed = false ∧ port.channel = .input reading ∧
    reading.Facing ((i.files.contents? port.place).getD []) text

variable {i : Interpreter} {id : PortId}

theorem port_of_getElem? {port : Port} (found : i.ports[id]? = some port) : i.port id = port := by
  rw [Interpreter.port, found]
  rfl

theorem getElem?_setPort_self {port changed : Port} (found : i.ports[id]? = some port) :
    (i.setPort id changed).ports[id]? = some changed := by
  have inBounds := (Array.getElem?_eq_some_iff.1 found).1
  simp [setPort, inBounds]

/-- A text that is written is collected, and nothing else changes but the port. -/
theorem exists_writeTo {place : Location} {written : List (List Char)} (collects : i.Collects id place written)
    (text : List Char) :
    ∃ after, writeTo id text i = .ok () after ∧ after.Collects id place (text :: written) ∧ after.files = i.files := by
  obtain ⟨port, found, isOpen, rfl, channel⟩ := collects
  refine ⟨i.setPort id { port with channel := .output (text :: written) }, ?_, ?_, rfl⟩
  · rw [writeTo, run_get_bind, port_of_getElem? found]
    simp only [isOpen, channel]
    rfl
  · exact ⟨_, getElem?_setPort_self found, isOpen, rfl, rfl⟩

/-- A line that is read is the first line of the text to hand out. -/
theorem exists_readLineFrom {text : List Char} (handsOut : i.HandsOut id text) :
    ∃ after, readLineFrom id i = .ok (takeLine text).1 after ∧ after.HandsOut id (takeLine text).2 := by
  obtain ⟨port, reading, found, isOpen, channel, facing⟩ := handsOut
  obtain ⟨moved, line, facingRest⟩ := Reading.exists_readLine facing
  refine ⟨i.setPort id { port with channel := .input moved }, ?_, ?_⟩
  · rw [readLineFrom, run_get_bind, port_of_getElem? found]
    simp only [isOpen, channel, line]
    rfl
  · exact ⟨_, moved, getElem?_setPort_self found, isOpen, rfl, facingRest⟩

end Interpreter

/-!
### Writing and reading
-/

/-- The call of a built-in procedure with effects. -/
def callEffect (depth : Nat) (e : Effect) (args : List Value) : Action Value :=
  apply (depth + 1) (.prim (.effect e)) args

/-- Writes values to a port, one after the other. -/
def writeEach (depth : Nat) (port : Value) : List Value → Action Unit
  | [] => pure ()
  | v :: vs => do
    let _ ← callEffect depth .write [v, port]
    writeEach depth port vs

/-- Writes values to a fresh output port on a file, closes it, and opens the file for input. -/
def save (depth : Nat) (name : String) (vs : List Value) : Action Value := do
  let output ← callEffect depth .openOutput [.str name]
  writeEach depth output vs
  let _ ← callEffect depth .closeOutput [output]
  callEffect depth .openInput [.str name]

/-- How the read after a number of others from the same port ends, whether those succeeded or failed. -/
def nthRead (depth : Nat) (port : Value) (i : Interpreter) : Nat → Ending Value
  | 0 => callEffect depth .read [port] i
  | k + 1 => nthRead depth port (Ending.state (callEffect depth .read [port] i)) k

/-- The lines of values, each in written form. -/
def writtenLines (vs : List Value) : List Char :=
  vs.flatMap fun v => v.render ++ ['\n']

section Calls

variable (depth : Nat) {i : Interpreter} {id : PortId} {place : Location} {name : String}

theorem exists_writeEach {written : List (List Char)} (vs : List Value) (collects : i.Collects id place written) :
    ∃ after, writeEach depth (.port id) vs i = .ok () after ∧ after.files = i.files ∧
      after.Collects id place ((vs.map fun v => v.render ++ ['\n']).reverse ++ written) := by
  induction vs generalizing i written with
  | nil => exact ⟨i, rfl, rfl, collects⟩
  | cons v vs ih =>
      obtain ⟨next, wrote, collectsNext, sameFiles⟩ := Interpreter.exists_writeTo collects (v.render ++ ['\n'])
      obtain ⟨after, wroteOthers, sameFilesAfter, collectsAll⟩ := ih collectsNext
      have called : callEffect depth .write [v, .port id] i = .ok (.bool true) next := run_bind_of_ok wrote _
      refine ⟨after, ?_, sameFilesAfter.trans sameFiles, ?_⟩
      · rw [writeEach, run_bind_of_ok called, wroteOthers]
      · simpa using collectsAll

/-- What was collected is in the file when the port is closed, if the file can hold it. -/
theorem exists_closeOutput {written : List (List Char)} (collects : i.Collects id place written)
    {before : FileTree} (opens : before.openWrite name = .ok (i.files, place))
    (fits : i.files.holds place (encode written.reverse.flatten).length = true) :
    ∃ after, callEffect depth .closeOutput [.port id] i = .ok (.bool true) after ∧
      after.files.contents? place = some (encode written.reverse.flatten) ∧ after.files.openRead name = .ok place := by
  obtain ⟨port, found, isOpen, rfl, channel⟩ := collects
  have collected : port.collected = encode written.reverse.flatten := by simp only [Port.collected, channel]
  have closes : closePort id i = .ok () ((i.close id).strikeOff id) := by
    rw [run_closePort, Interpreter.port_of_getElem? found, isOpen, collected, fits]
    rfl
  refine ⟨(i.close id).strikeOff id, run_bind_of_ok closes _, ?_⟩
  have flushed : ((i.close id).strikeOff id).files = i.files.flush port := by
    simp [Interpreter.close, Interpreter.strikeOff, Interpreter.port_of_getElem? found]
  obtain ⟨empty, found, afterwards⟩ := FileTree.openRead_of_openWrite opens
  rw [flushed, FileTree.flush, collected]
  split
  · rename_i nothing
    rw [nothing]
    exact ⟨empty, found⟩
  · exact afterwards _ fits

theorem exists_openInput {text : List Char} (contents : i.files.contents? place = some (encode text))
    (found : i.files.openRead name = .ok place) :
    ∃ input after, callEffect depth .openInput [.str name] i = .ok (.port input) after ∧
      after.HandsOut input (unifyBreaks text) := by
  let port : Port := { name, place, channel := .input {} }
  refine ⟨i.ports.size, { i with ports := i.ports.push port, openPorts := i.openPorts ++ [i.ports.size] }, ?_, ?_⟩
  · change openInputPort name i = _
    rw [openInputPort, run_get_bind]
    simp only [found]
    rfl
  · refine ⟨port, {}, by simp, rfl, rfl, ?_⟩
    change Reading.Facing {} ((i.files.contents? place).getD []) _
    rw [contents]
    exact Reading.Facing.start text

/-- Values are saved, if the file can hold their lines, and the port that is opened then hands them out. -/
theorem exists_save {opened : FileTree × Location} (opens : i.files.openWrite name = .ok opened) (vs : List Value)
    (fits : opened.1.holds opened.2 (encode (writtenLines vs)).length = true) :
    ∃ input after, save depth name vs i = .ok (.port input) after ∧
      after.HandsOut input (unifyBreaks (writtenLines vs)) := by
  obtain ⟨files, place⟩ := opened
  let port : Port := { name, place, channel := .output [] }
  let start : Interpreter :=
    { i with files, ports := i.ports.push port, openPorts := i.openPorts ++ [i.ports.size] }
  have output : callEffect depth .openOutput [.str name] i = .ok (.port i.ports.size) start := by
    change openOutputPort name i = _
    rw [openOutputPort, run_get_bind]
    simp only [opens]
    rfl
  have fresh : start.Collects i.ports.size place [] := ⟨port, by simp [start], rfl, rfl, rfl⟩
  obtain ⟨full, wrote, sameFiles, collects⟩ := exists_writeEach depth vs fresh
  have fitsLines : full.files.holds place
      (encode ((vs.map fun v : Value => v.render ++ ['\n']).reverse ++ []).reverse.flatten).length = true := by
    rw [sameFiles]
    simpa [writtenLines, List.flatMap] using fits
  obtain ⟨closed, closes, contents, found⟩ :=
    exists_closeOutput depth collects (opens.trans (by rw [sameFiles])) fitsLines
  obtain ⟨input, after, opensInput, handsOut⟩ := exists_openInput depth contents found
  refine ⟨input, after, ?_, ?_⟩
  · rw [save, run_bind_of_ok output, run_bind_of_ok wrote, run_bind_of_ok closes, opensInput]
  · simpa [writtenLines, List.flatMap] using handsOut

/-- A read takes the first line. -/
theorem callEffect_read {text : List Char} (handsOut : i.HandsOut id text) :
    ∃ after, after.HandsOut id (takeLine text).2 ∧
      callEffect depth .read [.port id] i = Action.ofExcept (read (takeLine text).1) after := by
  obtain ⟨after, line, handsOutRest⟩ := Interpreter.exists_readLineFrom handsOut
  exact ⟨after, handsOutRest, run_bind_of_ok line _⟩

/-- A value without line breaks in strings is read from its line. -/
theorem exists_read_oneLine {v : Value} (data : v.Canonical) (oneLine : v.OneLine) {more : List Char}
    (handsOut : i.HandsOut id (unifyBreaks (v.render ++ '\n' :: more))) :
    ∃ after, callEffect depth .read [.port id] i = .ok v after ∧ after.HandsOut id (unifyBreaks more) := by
  have unbroken := unbroken_render data oneLine
  have noReturn : '\r' ∉ v.render := fun member => unbroken _ member (.inr rfl)
  have noLineFeed : '\n' ∉ v.render := fun member => unbroken _ member (.inl rfl)
  have lineFeed : unifyBreaks ('\n' :: more) = '\n' :: unifyBreaks more := rfl
  obtain ⟨after, handsOutRest, reads⟩ := callEffect_read depth handsOut
  rw [Text.unifyBreaks_append_of_not_mem noReturn, lineFeed, Text.takeLine_line noLineFeed] at handsOutRest reads
  rw [read_line data] at reads
  exact ⟨after, reads, handsOutRest⟩

/-- Any other value is not read: its first line is a string that is not terminated. -/
theorem exists_read_broken {v : Value} (data : v.Canonical) (broken : ¬ v.OneLine) {more : List Char}
    (handsOut : i.HandsOut id (unifyBreaks (v.render ++ '\n' :: more))) :
    ∃ fault after, callEffect depth .read [.port id] i = .error (.unreadable .unterminatedString fault) after := by
  obtain ⟨before, c, rest, split, isBreak, unbroken, opens⟩ := breaksInside_render data broken 0
  have noReturn : '\r' ∉ before := fun member => unbroken _ member (.inr rfl)
  have noLineFeed : '\n' ∉ before := fun member => unbroken _ member (.inl rfl)
  obtain ⟨later, unified⟩ := Text.exists_unifyBreaks_break isBreak (rest ++ '\n' :: more)
  obtain ⟨after, _, reads⟩ := callEffect_read depth handsOut
  rw [split, List.append_assoc, List.cons_append, Text.unifyBreaks_append_of_not_mem noReturn, unified,
    Text.takeLine_line noLineFeed] at reads
  obtain ⟨fault, refused⟩ := read_of_leavesOpen opens
  rw [refused] at reads
  exact ⟨fault, after, reads⟩

/-- Values without line breaks in strings are read one after the other, and what follows them is still to come. -/
theorem exists_nthRead {before : List Value} (data : ∀ v ∈ before, v.Canonical) (oneLine : ∀ v ∈ before, v.OneLine)
    {more : List Char} (handsOut : i.HandsOut id (unifyBreaks (writtenLines before ++ more))) :
    (∀ k (inBounds : k < before.length), ∃ after, nthRead depth (.port id) i k = .ok before[k] after) ∧
      ∃ j : Interpreter, j.HandsOut id (unifyBreaks more) ∧
        ∀ k, nthRead depth (.port id) i (before.length + k) = nthRead depth (.port id) j k := by
  induction before generalizing i with
  | nil =>
      refine ⟨fun k inBounds => absurd inBounds (Nat.not_lt_zero k), i, handsOut, fun k => ?_⟩
      rw [List.length_nil, Nat.zero_add]
  | cons v before ih =>
      obtain ⟨dataFirst, dataOthers⟩ := List.forall_mem_cons.1 data
      obtain ⟨oneLineFirst, oneLineOthers⟩ := List.forall_mem_cons.1 oneLine
      have split : writtenLines (v :: before) ++ more = v.render ++ '\n' :: (writtenLines before ++ more) := by
        simp [writtenLines]
      rw [split] at handsOut
      obtain ⟨next, reads, handsOutNext⟩ := exists_read_oneLine depth dataFirst oneLineFirst handsOut
      obtain ⟨readOthers, j, handsOutMore, sameLater⟩ := ih dataOthers oneLineOthers handsOutNext
      have moved : ∀ k, nthRead depth (.port id) i (k + 1) = nthRead depth (.port id) next k := by
        intro k
        rw [nthRead, reads]
        rfl
      refine ⟨fun k inBounds => ?_, j, handsOutMore, fun k => ?_⟩
      · cases k with
        | zero => exact ⟨next, reads⟩
        | succ k =>
            obtain ⟨after, readLater⟩ := readOthers k (Nat.lt_of_succ_lt_succ inBounds)
            exact ⟨after, (moved k).trans readLater⟩
      · rw [List.length_cons, Nat.add_right_comm, moved, sameLater]

end Calls

/-- Canonical data that are written to a fresh output port, on a file that can hold them, are read back from the file, one
    by one, exactly if no string in them has a line feed or a carriage return. Otherwise the values before the first with
    such a string are read, and the read that this value would be given by stops at a string that is not terminated. -/
theorem port_roundTrip (depth : Nat) (i : Interpreter) (name : String) (vs : List Value)
    (data : ∀ v ∈ vs, v.Canonical) {opened : FileTree × Location} (opens : i.files.openWrite name = .ok opened)
    (fits : opened.1.holds opened.2 (encode (writtenLines vs)).length = true) :
    ∃ input saved, save depth name vs i = .ok (.port input) saved ∧
      ((∀ k (inBounds : k < vs.length), ∃ after, nthRead depth (.port input) saved k = .ok vs[k] after) ↔
        ∀ v ∈ vs, v.OneLine) ∧
      ∀ before v later, vs = before ++ v :: later → (∀ w ∈ before, w.OneLine) → ¬ v.OneLine →
        (∀ k (inBounds : k < before.length), ∃ after, nthRead depth (.port input) saved k = .ok before[k] after) ∧
        ∃ place after, nthRead depth (.port input) saved before.length =
          .error (.unreadable .unterminatedString place) after := by
  obtain ⟨input, saved, saves, handsOut⟩ := exists_save depth opens vs fits
  have firstBroken : ∀ before v later, vs = before ++ v :: later → (∀ w ∈ before, w.OneLine) → ¬ v.OneLine →
      (∀ k (inBounds : k < before.length), ∃ after, nthRead depth (.port input) saved k = .ok before[k] after) ∧
      ∃ place after, nthRead depth (.port input) saved before.length =
        .error (.unreadable .unterminatedString place) after := by
    rintro before v later rfl oneLine broken
    obtain ⟨dataBefore, dataFrom⟩ := List.forall_mem_append.1 data
    have lines : writtenLines (before ++ v :: later) =
        writtenLines before ++ (v.render ++ '\n' :: writtenLines later) := by
      simp [writtenLines]
    rw [lines] at handsOut
    obtain ⟨readsBefore, next, handsOutNext, sameLater⟩ := exists_nthRead depth dataBefore oneLine handsOut
    refine ⟨readsBefore, ?_⟩
    obtain ⟨place, after, refused⟩ :=
      exists_read_broken depth (dataFrom v List.mem_cons_self) broken handsOutNext
    exact ⟨place, after, (sameLater 0).trans refused⟩
  refine ⟨input, saved, saves, ⟨fun allRead => ?_, fun oneLine => ?_⟩, firstBroken⟩
  · by_contra notAll
    obtain ⟨before, v, later, split, broken, oneLine⟩ := exists_first_of_not_forall notAll
    obtain ⟨_, place, after, refused⟩ := firstBroken before v later split oneLine broken
    obtain ⟨_, given⟩ := allRead before.length (by simp [split])
    cases refused.symm.trans given
  · rw [← List.append_nil (writtenLines vs)] at handsOut
    exact (exists_nthRead depth data oneLine handsOut).1

/-- Nested data with a string of quotes and blanks, a string of two lines, and a number. -/
def savedSample : List Value :=
  [.list [.sym "a", .str "say \"b\" ;", .dotted [.bool true] (.num 7)], .list [.str "two\nlines"], .num 3]

theorem port_roundTrip_savedSample :
    (∀ v ∈ savedSample, v.Canonical) ∧
    ∃ input saved, save 0 "values.scm" savedSample {} = .ok (.port input) saved ∧
      (∃ after, nthRead 0 (.port input) saved 0 =
        .ok (.list [.sym "a", .str "say \"b\" ;", .dotted [.bool true] (.num 7)]) after) ∧
      ∃ place after, nthRead 0 (.port input) saved 1 = .error (.unreadable .unterminatedString place) after := by
  have data : ∀ v ∈ savedSample, v.Canonical := by decide +kernel
  have opens : ({} : FileTree).openWrite "values.scm" = .ok ⟨_, ["values.scm"]⟩ := rfl
  obtain ⟨input, saved, saves, _, firstBroken⟩ := port_roundTrip 0 {} "values.scm" savedSample data opens rfl
  have oneLine : ∀ w ∈ [Value.list [.sym "a", .str "say \"b\" ;", .dotted [.bool true] (.num 7)]], w.OneLine := by
    have symbol : (Value.sym "a").OneLine := Value.oneLine_of_leaf (by simp) id
    have truth : (Value.bool true).OneLine := Value.oneLine_of_leaf (by simp) id
    have number : (Value.num 7).OneLine := Value.oneLine_of_leaf (by simp) id
    have text : (Value.str "say \"b\" ;").OneLine := Value.oneLine_str.2 (by decide)
    simp [Value.oneLine_list, Value.oneLine_dotted, symbol, truth, number, text]
  have broken : ¬ (Value.list [.str "two\nlines"]).OneLine := by
    rw [Value.oneLine_list, List.forall_mem_singleton, Value.oneLine_str]
    decide
  obtain ⟨reads, stops⟩ := firstBroken [_] _ _ rfl oneLine broken
  exact ⟨data, input, saved, saves, reads 0 (by decide), stops⟩

end SmallScheme
