import SmallScheme.Reader.Literal
import SmallScheme.Value.Pair

/-
Module: SmallScheme.Reader.Machine
Purpose: Tokens into values. The reader keeps a stack of what is open (a quote waiting for its datum, a list with the
  elements so far, a list waiting for the tail behind its dot) and takes one token at a time; a finished value
  goes to the innermost open frame, and to the outside when none is left. Nothing is ever taken back, so the
  first token that cannot be taken is the one that is reported.
Main exports: Frame, State, Step, State.step, State.atEnd, parse, next, Progress, parseAll
-/

namespace SmallScheme.Reader

/-- Something open that waits for a value. -/
inductive Frame where
  /-- A quote. -/
  | quote
  /-- A list, with the token that opened it and its elements so far, newest first. -/
  | items (opened : Token) (before : List Value)
  /-- A list with a dot behind its heads. -/
  | tail (heads : List Value)
deriving DecidableEq, Repr, Inhabited

/-- The state of the reader. -/
inductive State where
  /-- A value is expected, for the innermost frame first. -/
  | reading (stack : List Frame)
  /-- Behind the tail of a dotted list only its closing parenthesis may follow. -/
  | closing (heads : List Value) (tail : Value) (stack : List Frame)
deriving DecidableEq, Repr, Inhabited

/-- What a token leads to. -/
inductive Step where
  /-- Reading goes on. -/
  | more (state : State)
  /-- The token was the last of a value. -/
  | finished (value : Value)
deriving DecidableEq, Repr, Inhabited

/-- The list that a quote before a value stands for. -/
def quotation (v : Value) : Value :=
  .list [.sym "quote", v]

/-- Hands a finished value to the innermost frame. -/
def deliver (v : Value) : List Frame → Step
  | [] => .finished v
  | .quote :: stack => deliver (quotation v) stack
  | .items opened before :: stack => .more (.reading (.items opened (v :: before) :: stack))
  | .tail heads :: stack => .more (.closing heads v stack)

/-- Takes one token. -/
def State.step (state : State) (t : Token) : Except Failure Step :=
  match state with
  | .closing heads tail stack =>
    match t.lexeme with
    | .closeParen => .ok (deliver (Value.joinTail heads tail) stack)
    | _ => .error (.unreadable .expectedClose (some t))
  | .reading stack =>
    match t.lexeme with
    | .word chars => (wordValue t chars).map (deliver · stack)
    | .string body => (stringValue t body).map (deliver · stack)
    | .quote => .ok (.more (.reading (.quote :: stack)))
    | .openParen => .ok (.more (.reading (.items t [] :: stack)))
    | .closeParen =>
      match stack with
      | .items _ before :: outer => .ok (deliver (.list before.reverse) outer)
      | _ => .error (.unreadable .unexpectedClose (some t))
    | .dot =>
      match stack with
      | .items _ [] :: _ => .error (.unreadable .dotWithoutHead (some t))
      | .items _ before :: outer => .ok (.more (.reading (.tail before.reverse :: outer)))
      | _ => .error (.unreadable .unexpectedDot (some t))

/-- The failure when the tokens end in a state: an innermost open list is reported at its parenthesis, all else
    at the end of the text. -/
def State.atEnd : State → Failure
  | .closing .. => .unreadable .expectedClose none
  | .reading (.items opened _ :: _) => .unreadable .unmatchedOpen (some opened)
  | .reading _ => .unreadable .unexpectedEnd none

/-- Whether a refused token stays where it is: a missing closing parenthesis is noticed without taking the
    token that stands in its place. -/
def State.peeks : State → Bool
  | .closing .. => true
  | .reading _ => false

/-- Runs the reader to the end of one value. Gives also the tokens that are left. -/
def run : State → List Token → Except Failure Value × List Token
  | state, [] => (.error state.atEnd, [])
  | state, t :: ts =>
    match state.step t with
    | .ok (.finished v) => (.ok v, ts)
    | .ok (.more next) => run next ts
    | .error e => (.error e, if state.peeks then t :: ts else ts)

/-- Reads one value. -/
def parse (tokens : List Token) : Except Failure Value × List Token :=
  run (.reading []) tokens

/-- Takes the next token as it is. -/
def next : List Token → Except Failure Token × List Token
  | [] => (.error (.unreadable .unexpectedEnd none), [])
  | t :: ts => (.ok t, ts)

/-- How far a program has been read: the state inside the current form, and the forms before it, newest
    first. -/
structure Progress where
  state : State := .reading []
  forms : List Value := []
deriving DecidableEq, Repr, Inhabited

/-- Takes one token of a program. -/
def Progress.push (p : Progress) (t : Token) : Except Failure Progress :=
  match p.state.step t with
  | .ok (.more next) => .ok { p with state := next }
  | .ok (.finished v) => .ok { state := .reading [], forms := v :: p.forms }
  | .error e => .error e

/-- The end of a program: between two forms it is complete. -/
def Progress.finish (p : Progress) : Except Failure (List Value) :=
  match p.state with
  | .reading [] => .ok p.forms.reverse
  | state => .error state.atEnd

/-- Reads all values. -/
def parseAll (tokens : List Token) : Except Failure (List Value) := do
  let p ← tokens.foldlM Progress.push {}
  p.finish

end SmallScheme.Reader
