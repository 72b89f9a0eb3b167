import SmallScheme.FileTree
import SmallScheme.Text.LineBreak
import SmallScheme.Text.Utf8

/-
Module: SmallScheme.Port
Purpose: Ports, by which a program reads and writes files. An input port takes in its file block by block and hands it
  out line by line. It looks at the file only when no whole line is ready, so what happens to the file meanwhile
  shows from the next block on. An output port collects what is written; it reaches the file when the port is
  closed. A stream of the host hands a longer text on in blocks before that, so that other readers of the file see
  the first of them, and a file without room is found out by a write; this is left out.
Main exports: blockSize, Reading, Reading.readLine, Channel, Port, Port.collected, Port.form
-/

namespace SmallScheme

/-- How many bytes an input port takes from its file at once. -/
def blockSize : Nat :=
  8192

/-- How far an input port has come: the bytes taken from the file, those of them that are the start of an unfinished
    character, whether a carriage return waits for its line feed, and the text not yet handed out. -/
structure Reading where
  position : Nat := 0
  leftOver : List UInt8 := []
  heldReturn : Bool := false
  ready : List Char := []
deriving DecidableEq, Repr, Inhabited

namespace Reading

/-- Reading can fail on bytes that are not text, and what has been taken in stays taken in. -/
abbrev Step := EStateM Text.Utf8.DecodingError Reading

/-- The text that decoded characters complete, with line breaks unified, and the reading after it. A carriage return
    at the end is held back. -/
def accept (r : Reading) (cs : List Char) (leftOver : List UInt8) : List Char × Reading :=
  if cs.isEmpty then ([], { r with leftOver })
  else
    let (text, held) := Text.holdReturn (if r.heldReturn then '\r' :: cs else cs)
    (Text.unifyBreaks text, { r with leftOver, heldReturn := held })

/-- Takes in a block of the file, and gives the text that it completes. On a decoding error its bytes are lost. -/
def fetch (block : List UInt8) : Step (List Char) := do
  let r ← get
  let moved := { r with position := r.position + block.length }
  match Text.Utf8.decodePiece r.leftOver block with
  | .ok (cs, leftOver) =>
    let (text, after) := moved.accept cs leftOver
    set after
    return text
  | .error e =>
    set moved
    throw e

/-- Notices that the file has no more: an unfinished character is an error, and stays one, and a held carriage return
    is a line break. -/
def drain : Step (List Char) := do
  let r ← get
  match Text.Utf8.finish r.leftOver with
  | .ok () =>
    set { r with heldReturn := false }
    return if r.heldReturn then ['\n'] else []
  | .error e => throw e

/-- Takes in what is left of the file, block after block, until one of them completes a line, or all of it. Gives the
    texts of the blocks. -/
def fill (rest : List UInt8) : Step (List (List Char)) := do
  if rest.isEmpty then return [← drain]
  else
    let text ← fetch (rest.take blockSize)
    if text.contains '\n' then return [text]
    else return text :: (← fill (rest.drop blockSize))
termination_by rest.length
decreasing_by
  have : rest ≠ [] := by simp_all
  have := List.length_pos_iff.2 this
  simp only [List.length_drop, blockSize]
  omega

/-- Hands out a line with its line feed, or what is left before the end of the file. The file is looked at only if no
    line is ready; should that fail, the line begun is lost. -/
def readLine (file : List UInt8) : Step (List Char) := do
  let r ← get
  let text ←
    if r.ready.contains '\n' then pure r.ready
    else do
      set { r with ready := [] }
      pure (r.ready ++ (← fill (file.drop r.position)).flatten)
  let (line, ready) := Text.takeLine text
  modify fun r => { r with ready }
  return line

end Reading

/-- The direction of a port, and what it holds. -/
inductive Channel where
  /-- Reading from the file. -/
  | input (reading : Reading)
  /-- Writing to the file, with the texts collected for it, newest first. -/
  | output (written : List (List Char))
deriving DecidableEq, Repr, Inhabited

/-- A port: the name and the place of its file, its channel, and whether it is closed. -/
structure Port where
  name : String
  place : Location
  channel : Channel
  closed : Bool := false
deriving DecidableEq, Repr, Inhabited

/-- The bytes that a port has collected for its file. -/
def Port.collected (p : Port) : List UInt8 :=
  match p.channel with
  | .input _ => []
  | .output written => Text.Utf8.encode written.reverse.flatten

/-- A channel that has handed on what it had collected. -/
def Channel.emptied : Channel → Channel
  | .input reading => .input reading
  | .output _ => .output []

/-- The letter of a direction: `r` for reading, `w` for writing. -/
def Channel.letter : Channel → Char
  | .input _ => 'r'
  | .output _ => 'w'

/-- The form of a port for embedders. -/
def Port.form (p : Port) : List Char :=
  "<Port ".toList ++ p.channel.letter :: ' ' :: p.name.toList ++ ['>']

end SmallScheme
