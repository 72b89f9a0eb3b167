import SmallScheme.Fault
import SmallScheme.Heap
import SmallScheme.Port
import SmallScheme.Settings

/-
Module: SmallScheme.Interpreter
Purpose: The state of an interpreter and the actions on it. The state is plain data: memory, ports, files, settings and
  the three standard streams. An action takes the state, and ends with a value or a fault and a state; a fault
  undoes nothing.
Main exports: Console, Interpreter, Action, root, lookup, assign, define, bindPrimitives, note
-/

namespace SmallScheme

/-- The standard streams: the text still to be read, all that was written, and all diagnostics. -/
structure Console where
  input : List Char := []
  output : String := ""
  diagnostics : String := ""
  /-- Whether the steps of evaluation are recorded among the diagnostics. -/
  verbose : Bool := false
deriving DecidableEq, Repr, Inhabited

/-- The state of an interpreter. -/
structure Interpreter where
  heap : Heap := {}
  /-- Every port ever opened; its position here is its number. -/
  ports : Array Port := #[]
  /-- The register of the ports that are open, in the order of opening. -/
  openPorts : List PortId := []
  files : FileTree := {}
  settings : Settings := {}
  console : Console := {}
deriving DecidableEq, Repr, Inhabited

/-- What an interpreter does: it changes its state, and gives a value or stops with a fault. -/
abbrev Action := EStateM Fault Interpreter

/-- The scope in which programs run. -/
def root : ScopeId :=
  0

/-- The action of a computation that touches no state. -/
def Action.ofExcept {α : Type} : Except Fault α → Action α
  | .ok a => pure a
  | .error fault => throw fault

/-- Changes the memory. -/
def modifyHeap (f : Heap → Heap) : Action Unit :=
  modify fun i => { i with heap := f i.heap }

/-- The value of a name. -/
def lookup (s : ScopeId) (name : String) : Action Value := do
  match (← get).heap.lookup? s name with
  | some v => return v
  | none => throw (.unboundRead name)

/-- Assigns to a bound name, and gives the value. -/
def assign (s : ScopeId) (name : String) (v : Value) : Action Value := do
  match (← get).heap.cell? s name with
  | some c =>
    modifyHeap (·.write c v)
    return v
  | none => throw (.unboundWrite name)

/-- Defines a name, and gives the value. -/
def define (s : ScopeId) (name : String) (v : Value) : Action Value := do
  modifyHeap (·.define s name v)
  return v

/-- A memory with one scope, which binds the given procedures under their names. -/
def Heap.ofPrimitives (ps : List Primitive) : Heap :=
  let (h, s) := Heap.addScope {} {}
  h.defineAll s (ps.map fun p => (p.name, .prim p))

/-- A part of the interpreter that records its steps. -/
inductive Recorder where
  | evaluation
  | loading
  | prompting
deriving DecidableEq, Repr, Inhabited

/-- The name of a part in the record. -/
def Recorder.name : Recorder → String
  | .evaluation => "kappa.interpreter"
  | .loading => "kappa.modules.loader"
  | .prompting => "kappa.repl"

/-- Records a step, if steps are recorded. -/
def note (recorder : Recorder) (text : String) : Action Unit :=
  modify fun i =>
    if i.console.verbose then
      let line := "DEBUG:" ++ recorder.name ++ ":" ++ text ++ "\n"
      { i with console.diagnostics := i.console.diagnostics ++ line }
    else i

/-- Writes to standard output. -/
def printOut (text : String) : Action Unit :=
  modify fun i => { i with console.output := i.console.output ++ text }

/-- Writes a line of diagnostics. -/
def printDiagnostic (text : String) : Action Unit :=
  modify fun i => { i with console.diagnostics := i.console.diagnostics ++ text ++ "\n" }

end SmallScheme
