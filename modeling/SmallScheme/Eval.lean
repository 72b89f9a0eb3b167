import SmallScheme.Interpreter.Ports
import SmallScheme.Interpreter.Source
import SmallScheme.Library.Operations
import SmallScheme.SpecialForm

/-
Module: SmallScheme.Eval
Purpose: Evaluation and application. Each is defined one step at a time, over the evaluation and application of what is
  nested one level deeper; the evaluator of a depth limit ties the steps together and stops with a fault when the
  nesting exceeds the limit. Arguments are evaluated from left to right after the head, every form of a body in
  order, and nothing that a stopped evaluation did is undone.
Main exports: Evaluate, Apply, evalForm, evalStep, applyStep, eval, apply, maxDepth, evaluate
-/

namespace SmallScheme

/-- Evaluation of an expression in a scope. -/
abbrev Evaluate := ScopeId → Value → Action Value

/-- Application of a value to arguments. -/
abbrev Apply := Value → List Value → Action Value

/-- Evaluates expressions from left to right. -/
def evalEach (ev : Evaluate) (s : ScopeId) : List Value → Action (List Value)
  | [] => pure []
  | e :: es => do
    let v ← ev s e
    let vs ← evalEach ev s es
    return v :: vs

/-- Evaluates forms in order and gives the last value, or the value given if there is no form. -/
def evalSequence (ev : Evaluate) (s : ScopeId) (last : Value) : List Value → Action Value
  | [] => pure last
  | form :: forms => do
    let v ← ev s form
    evalSequence ev s v forms

/-- Only `#f` counts as false. -/
def isTrue : Value → Bool
  | .bool b => b
  | _ => true

/-- The closure with given parameters and body in a scope. -/
def Parameters.closure (params : Parameters) (body : List Value) (s : ScopeId) : Value :=
  .closure params.fixed params.rest? body s

/-- Evaluates a special form. -/
def evalForm (ev : Evaluate) (s : ScopeId) : SpecialForm → Action Value
  | .quote datum => pure datum
  | .choice test yes no => do
    let v ← ev s test
    if isTrue v then ev s yes else ev s no
  | .assignment name e => do
    let v ← ev s e
    assign s name v
  | .definition name e => do
    let v ← ev s e
    define s name v
  | .procedure name params body => define s name (params.closure body s)
  | .abstraction params body => pure (params.closure body s)
  | .loading file => do
    let forms ← loadForms file
    evalSequence ev s (.list []) forms

/-- The value of a name in the head of a call. -/
def lookupHead (s : ScopeId) (name : String) : Action Value := do
  match (← get).heap.lookup? s name with
  | some v => return v
  | none => throw (.unknownProcedure name)

/-- Evaluates an expression, its parts by `ev` and calls by `ap`. Data other than lists and symbols stand for
    themselves; a list is a special form or a call; dotted lists, the empty list, and values that no program text
    can hold are no expressions. -/
def evalStep (ev : Evaluate) (ap : Apply) (s : ScopeId) (e : Value) : Action Value :=
  match e with
  | .bool _ | .num _ | .str _ => pure e
  | .sym name => lookup s name
  | .list (.sym name :: args) =>
    match Keyword.ofName? name with
    | some k =>
      match SpecialForm.ofElements? k args with
      | some form => evalForm ev s form
      | none => throw (.badForm e)
    | none => do
      let f ← lookupHead s name
      let vs ← evalEach ev s args
      ap f vs
  | .list (head :: args) => do
    let f ← ev s head
    let vs ← evalEach ev s args
    ap f vs
  | _ => throw (.badForm e)

/-- The file name that is the only argument. -/
def fileName : List Value → Except Fault String
  | [.str name] => .ok name
  | [v] => .error (.wrongKind .string v)
  | args => .error (.argumentCount 1 args)

/-- Closes the port that is the only argument, and says whether the argument was one. -/
def callClose : List Value → Action Value
  | [.port id] => do
    closePort id
    return .bool true
  | [_] => return .bool false
  | args => throw (.argumentCount 1 args)

/-- Reads one value from a line of standard input or of a port. -/
def callRead (args : List Value) : Action Value := do
  let line ← match args with
    | [] => readLineIn
    | [.port id] => readLineFrom id
    | [v] => throw (.wrongKind .port v)
    | args => throw (.argumentCount 1 args)
  Action.ofExcept (read line)

/-- Writes a value and a line feed to standard output or to a port. -/
def callWrite : List Value → Action Value
  | [v] => do
    printOut (String.ofList (v.render ++ ['\n']))
    return .bool true
  | [v, .port id] => do
    writeTo id (v.render ++ ['\n'])
    return .bool true
  | [_, v] => throw (.wrongKind .port v)
  | args => throw (.argumentCount 1 args)

/-- A call of a built-in procedure with effects, which may call others by `ap`. -/
def Effect.call (ap : Apply) (e : Effect) (args : List Value) : Action Value :=
  match e with
  | .apply =>
    match args with
    | [f, .list vs] => ap f vs
    | f :: vs => ap f vs
    | [] => throw (.argumentCount 1 [])
  | .openInput => do openInputPort (← Action.ofExcept (fileName args))
  | .openOutput => do openOutputPort (← Action.ofExcept (fileName args))
  | .closeInput | .closeOutput => callClose args
  | .read => callRead args
  | .write => callWrite args
  | .readContents => do
    let text ← readFile (← Action.ofExcept (fileName args))
    return .str (String.ofList text)
  | .readAll => do
    let forms ← loadForms (← Action.ofExcept (fileName args))
    return .list forms

/-- Whether a count of arguments fits the parameters. -/
def fits (params : List String) (rest? : Option String) (count : Nat) : Bool :=
  if rest?.isSome then params.length ≤ count else count = params.length

/-- The names of a call frame and their values, in the order in which they are bound. -/
def frameBindings (params : List String) (rest? : Option String) (args : List Value) :
    List (String × Value) :=
  params.zip args ++ match rest? with
    | some rest => [(rest, .list (args.drop params.length))]
    | none => []

/-- A new call frame: the scope of a closure, as it is at the moment of the call, extended by the
    parameters. -/
def newFrame (s : ScopeId) (bindings : List (String × Value)) : Action ScopeId :=
  modifyGet fun i =>
    let (heap, frame) := i.heap.extend s bindings
    (frame, { i with heap })

/-- Applies a value to arguments, evaluating bodies by `ev` and further calls by `ap`. -/
def applyStep (ev : Evaluate) (ap : Apply) (f : Value) (args : List Value) : Action Value :=
  match f with
  | .prim (.operation op) => do Action.ofExcept (op.call (← get).heap args)
  | .prim (.effect e) => e.call ap args
  | .closure params rest? body s =>
    if !fits params rest? args.length then throw (.argumentCount params.length args)
    else if body.isEmpty then throw (.emptyBody params rest?)
    else do
      let frame ← newFrame s (frameBindings params rest? args)
      evalSequence ev frame (.list []) body
  | _ => throw (.notProcedure f)

mutual

/-- Evaluation with at most the given number of evaluations and applications inside one another. -/
def eval : Nat → Evaluate
  | 0 => fun _ _ => throw .depthExceeded
  | depth + 1 => evalStep (eval depth) (apply depth)

/-- Application with at most the given number of evaluations and applications inside one another. -/
def apply : Nat → Apply
  | 0 => fun _ _ => throw .depthExceeded
  | depth + 1 => applyStep (eval depth) (apply depth)

end

/-- The limit of nesting. Programs that recurse without end reach any limit; this one is well above what others
    need and well below what the native stack holds. -/
def maxDepth : Nat :=
  5000

/-- Evaluates an expression of a program. -/
def evaluate (s : ScopeId) (e : Value) : Action Value :=
  eval maxDepth s e

end SmallScheme
