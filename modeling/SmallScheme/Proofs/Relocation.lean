import SmallScheme.Proofs.Except
import SmallScheme.Reader.Machine

/-
Module: SmallScheme.Proofs.Relocation
Purpose: Where tokens stand decides nothing but where failures are reported. If the offsets of all tokens are moved by any
  function, the reader goes through the same states up to the offsets in them, and a failure is moved in the same way. So
  whether a program can be read, and as what, depends on its lexemes alone.
Main exports: Token.moved, Failure.moved, State.step_moved, parseAll_moved, parseAll_of_lexemes_eq
-/

namespace SmallScheme

/-- The token with its offset moved. -/
def Token.moved (move : Nat → Nat) (t : Token) : Token :=
  { t with offset := move t.offset }

@[simp] theorem Token.lexeme_moved (move : Nat → Nat) (t : Token) : (t.moved move).lexeme = t.lexeme := rfl

namespace Reader

variable (move : Nat → Nat)

/-- The failure with the token that it names moved. -/
def Failure.moved : Failure → Failure
  | .unreadable problem token? => .unreadable problem (token?.map (Token.moved move))
  | .numeralTooLong digits => .numeralTooLong digits

/-- The frame with the token that opened it moved. -/
def Frame.moved : Frame → Frame
  | .items opened before => .items (opened.moved move) before
  | frame => frame

/-- The state with the tokens in it moved. -/
def State.moved : State → State
  | .reading stack => .reading (stack.map (Frame.moved move))
  | .closing heads tail stack => .closing heads tail (stack.map (Frame.moved move))

/-- The step with the tokens in it moved. -/
def Step.moved : Step → Step
  | .more state => .more (state.moved move)
  | .finished v => .finished v

/-- The progress with the tokens in it moved. -/
def Progress.moved (p : Progress) : Progress :=
  { p with state := p.state.moved move }

theorem deliver_moved (v : Value) (stack : List Frame) :
    deliver v (stack.map (Frame.moved move)) = (deliver v stack).moved move := by
  induction stack generalizing v with
  | nil => rfl
  | cons frame stack ih =>
      cases frame with
      | quote => exact ih (quotation v)
      | items | tail => rfl

theorem wordValue_moved (t : Token) (chars : List Char) :
    wordValue (t.moved move) chars = (wordValue t chars).mapError (Failure.moved move) := by
  unfold wordValue
  repeat' split
  all_goals rfl

theorem stringValue_moved (t : Token) (body : List Char) :
    stringValue (t.moved move) body = (stringValue t body).mapError (Failure.moved move) := by
  unfold stringValue
  cases unescape body <;> rfl

/-- A moved token does to a moved state what the token does to the state, moved. -/
theorem State.step_moved (state : State) (t : Token) :
    (state.moved move).step (t.moved move) = ((state.step t).map (Step.moved move)).mapError (Failure.moved move) := by
  cases state with
  | closing heads tail stack =>
      cases lexeme : t.lexeme with
      | closeParen => simp [State.moved, State.step, lexeme, deliver_moved, Except.map, Except.mapError]
      | _ => simp [State.moved, State.step, lexeme, Failure.moved, Except.map, Except.mapError]
  | reading stack =>
      cases lexeme : t.lexeme with
      | word chars =>
          simp only [State.moved, State.step, Token.lexeme_moved, lexeme, wordValue_moved]
          cases wordValue t chars with
          | error e => rfl
          | ok v => simp [Except.map, Except.mapError, deliver_moved]
      | string body =>
          simp only [State.moved, State.step, Token.lexeme_moved, lexeme, stringValue_moved]
          cases stringValue t body with
          | error e => rfl
          | ok v => simp [Except.map, Except.mapError, deliver_moved]
      | quote | openParen =>
          simp [State.moved, State.step, lexeme, Frame.moved, Step.moved, Except.map, Except.mapError]
      | closeParen =>
          rcases stack with - | ⟨- | ⟨opened, before⟩ | heads, stack⟩ <;>
            simp [State.moved, State.step, lexeme, Frame.moved, Failure.moved, deliver_moved, Except.map, Except.mapError]
      | dot =>
          rcases stack with - | ⟨- | ⟨opened, - | ⟨v, before⟩⟩ | heads, stack⟩ <;>
            simp [State.moved, State.step, lexeme, Frame.moved, Failure.moved, Step.moved, Except.map, Except.mapError]

theorem State.atEnd_moved (state : State) : (state.moved move).atEnd = state.atEnd.moved move := by
  rcases state with (- | ⟨- | ⟨opened, before⟩ | heads, stack⟩) | ⟨heads, tail, stack⟩ <;> rfl

theorem Progress.push_moved (p : Progress) (t : Token) :
    (p.moved move).push (t.moved move) = ((p.push t).map (Progress.moved move)).mapError (Failure.moved move) := by
  simp only [Progress.push, Progress.moved, State.step_moved]
  rcases p.state.step t with e | (next | v) <;> rfl

theorem Progress.finish_moved (p : Progress) : (p.moved move).finish = p.finish.mapError (Failure.moved move) := by
  rcases p with ⟨(- | ⟨frame, stack⟩) | ⟨heads, tail, stack⟩, forms⟩
  · rfl
  · exact congrArg Except.error (State.atEnd_moved move (.reading (frame :: stack)))
  · rfl

theorem parseAll_moved (ts : List Token) :
    parseAll (ts.map (Token.moved move)) = (parseAll ts).mapError (Failure.moved move) := by
  have taken := foldlM_map_of_step (Progress.push_moved move) ts {}
  have initial : Progress.moved move {} = {} := rfl
  rw [initial] at taken
  rw [parseAll, parseAll, taken]
  cases ts.foldlM Progress.push {} with
  | error e => rfl
  | ok p => exact Progress.finish_moved move p

/-- Two programs with the same lexemes are read alike. -/
theorem parseAll_of_lexemes_eq {ts us : List Token} {vs : List Value}
    (same : ts.map Token.lexeme = us.map Token.lexeme) (parsed : parseAll ts = .ok vs) : parseAll us = .ok vs := by
  -- Moving all tokens to one place leaves nothing of them but their lexemes, and does not change what is read.
  have atZero : ∀ ws : List Token, ws.map (Token.moved fun _ => 0) = (ws.map Token.lexeme).map fun l => ⟨l, 0⟩ := by
    intro ws
    rw [List.map_map]
    rfl
  have movedAlike :
      (parseAll us).mapError (Failure.moved fun _ => 0) = (parseAll ts).mapError (Failure.moved fun _ => 0) := by
    rw [← parseAll_moved, ← parseAll_moved, atZero, atZero, same]
  rw [parsed] at movedAlike
  cases outcome : parseAll us with
  | error e => simp [outcome, Except.mapError] at movedAlike
  | ok ws => simpa [outcome, Except.mapError] using movedAlike

end Reader

end SmallScheme
