import SmallScheme.Interpreter

/-
Module: SmallScheme.Interpreter.Ports
Purpose: Opening, using and closing ports. A port that is opened is registered, and struck off the register when it is
  closed; closing all ports closes the newest first, which shows when several write to one file. Closing hands what was
  written to the file, and a file that cannot hold it is a failure of the host: the port is closed all the same, but
  `closePort` does not come to strike it off, and `closeAll` not to the older ports.
Main exports: openInputPort, openOutputPort, closeStream, closePort, closeAll, readLineFrom, readLineIn, writeTo
-/

namespace SmallScheme

/-- Adds an open port. -/
def addPort (port : Port) : Action Value := do
  let id := (← get).ports.size
  modify fun i => { i with ports := i.ports.push port, openPorts := i.openPorts ++ [id] }
  return .port id

/-- Opens a file for reading. -/
def openInputPort (name : String) : Action Value := do
  match (← get).files.openRead name with
  | .ok place => addPort { name, place, channel := .input {} }
  | .error refusal => throw (.ofRefusal (.cannotOpen name) refusal)

/-- Opens a file for writing; it is emptied or made at once. -/
def openOutputPort (name : String) : Action Value := do
  match (← get).files.openWrite name with
  | .ok (files, place) =>
    modify fun i => { i with files }
    addPort { name, place, channel := .output [] }
  | .error refusal => throw (.ofRefusal (.cannotOpen name) refusal)

/-- A port; a number that names none stands for a closed one. -/
def Interpreter.port (i : Interpreter) (id : PortId) : Port :=
  i.ports[id]?.getD { name := "", place := [], channel := .input {}, closed := true }

/-- The state with one port replaced. -/
def Interpreter.setPort (i : Interpreter) (id : PortId) (port : Port) : Interpreter :=
  { i with ports := i.ports.setIfInBounds id port }

/-- The files after what a port has collected is written to its file, as much as that can hold. -/
def FileTree.flush (files : FileTree) (port : Port) : FileTree :=
  if port.collected = [] then files else files.overlay port.place port.collected

/-- Strikes a port off the register. -/
def Interpreter.strikeOff (i : Interpreter) (id : PortId) : Interpreter :=
  { i with openPorts := i.openPorts.erase id }

/-- The state after an open port is closed. What its file could not hold stays behind with the port. -/
def Interpreter.close (i : Interpreter) (id : PortId) : Interpreter :=
  let port := i.port id
  let channel := if i.files.holds port.place port.collected.length then port.channel.emptied else port.channel
  { i.setPort id { port with channel, closed := true } with files := i.files.flush port }

/-- Closes a port, and fails if its file cannot hold what was written; closing a closed port does nothing. -/
def closeStream (id : PortId) : Action Unit := do
  let i ← get
  let port := i.port id
  if !port.closed then
    set (i.close id)
    if !i.files.holds port.place port.collected.length then throw .noRoom

/-- Closes a port, and strikes it off the register. -/
def closePort (id : PortId) : Action Unit := do
  closeStream id
  modify (·.strikeOff id)

/-- Strikes ports off the register and closes them, one after the other. -/
def closeEach : List PortId → Action Unit
  | [] => pure ()
  | id :: ids => do
    modify (·.strikeOff id)
    closeStream id
    closeEach ids

/-- Closes all ports that are registered, the newest first. -/
def closeAll : Action Unit := do
  closeEach (← get).openPorts.reverse

/-- Reads a line from a port, with its line feed; at the end of the file it is empty. -/
def readLineFrom (id : PortId) : Action (List Char) := do
  let i ← get
  let port := i.port id
  if port.closed then throw .closedPort
  match port.channel with
  | .output _ => throw .notReadable
  | .input reading =>
    let file := (i.files.contents? port.place).getD []
    match Reading.readLine file reading with
    | .ok line after =>
      set (i.setPort id { port with channel := .input after })
      return line
    | .error e after =>
      set (i.setPort id { port with channel := .input after })
      throw (.undecodable e)

/-- Reads a line from standard input, with its line feed; at the end it is empty. -/
def readLineIn : Action (List Char) := do
  let i ← get
  let (line, rest) := Text.takeLine i.console.input
  set { i with console.input := rest }
  return line

/-- Writes text to a port, which collects all of it until it is closed. A stream of the host would not keep back more than
    a block of it. -/
def writeTo (id : PortId) (text : List Char) : Action Unit := do
  let i ← get
  let port := i.port id
  if port.closed then throw .closedPort
  match port.channel with
  | .input _ => throw .notWritable
  | .output written => set (i.setPort id { port with channel := .output (text :: written) })

end SmallScheme
