import SmallScheme.Proofs.Acceptance
import SmallScheme.Proofs.Decomposition
import SmallScheme.Proofs.Places
import SmallScheme.Proofs.Relocation

/-
Module: SmallScheme.Proofs.Continuation
Purpose: A text continued behind a line feed. If the first text has tokens, the line feed ends whatever word or comment it
  ends in, so the tokens of the whole are those of the first text and then those of the second, further on. The same holds
  of the places of failures and, if the first text can be read, of the values: reading is compositional.
Main exports: Scanner.push_behind, lex_append_newline, tokenize_append_newline, Fault.below, parseAll_append,
  readAll_append_newline
-/

namespace SmallScheme

/-!
### Tokens

The scanner that has left the first text behind runs in step with one that starts on the second text: they are in the same
mode up to offsets, and the first has in addition what was found before.
-/

/-- The mode with the offset in it moved. -/
def Mode.moved (move : Nat → Nat) : Mode → Mode
  | .word start read => .word (move start) read
  | .string start read => .string (move start) read
  | .escape start read => .escape (move start) read
  | .broken start => .broken (move start)
  | mode => mode

/-- The scanner as it is behind so many characters in which tokens were found. -/
def Scanner.behind (length : Nat) (found : List Token) (s : Scanner) : Scanner where
  mode := s.mode.moved (length + ·)
  offset := length + s.offset
  found := s.found.map (Token.moved (length + ·)) ++ found

theorem meet_moved (move : Nat → Nat) (offset : Nat) (c : Char) :
    meet (move offset) c = ((meet offset c).1.map (Token.moved move), (meet offset c).2.moved move) := by
  unfold meet
  repeat' split
  all_goals rfl

theorem wordToken_moved (move : Nat → Nat) (start : Nat) (read : List Char) :
    wordToken (move start) read = (wordToken start read).moved move := rfl

theorem Mode.step_moved (move : Nat → Nat) (mode : Mode) (offset : Nat) (c : Char) :
    (mode.moved move).step (move offset) c =
      ((mode.step offset c).1.map (Token.moved move), (mode.step offset c).2.moved move) := by
  cases mode with
  | between => exact meet_moved move offset c
  | comment => by_cases newline : c = '\n' <;> simp [Mode.step, newline, Mode.moved]
  | word start read =>
      by_cases ends : endsWord c = true
      -- The character completes the word and is met as between tokens, so what it starts is moved as well.
      · have step : Mode.step (.word (move start) read) (move offset) c =
            ((meet (move offset) c).1 ++ [wordToken (move start) read], (meet (move offset) c).2) := by
          simp [Mode.step, ends]
        rw [Mode.moved, step, meet_moved, wordToken_moved]
        simp [Mode.step, ends]
      · simp [Mode.step, ends, Mode.moved]
  | string start read =>
      by_cases quote : c = '"'
      · simp [Mode.step, quote, Mode.moved, Token.moved]
      · by_cases backslash : c = '\\' <;> simp [Mode.step, quote, backslash, Mode.moved]
  | escape start read => by_cases newline : c = '\n' <;> simp [Mode.step, newline, Mode.moved]
  | broken start => rfl

theorem Scanner.push_behind (length : Nat) (found : List Token) (s : Scanner) (c : Char) :
    (s.behind length found).push c = (s.push c).behind length found := by
  simp only [Scanner.behind, Scanner.push, Mode.step_moved (length + ·), List.map_append, List.append_assoc,
    Nat.add_assoc]

theorem Scanner.foldl_push_behind (length : Nat) (found : List Token) (cs : List Char) (s : Scanner) :
    cs.foldl Scanner.push (s.behind length found) = (cs.foldl Scanner.push s).behind length found := by
  induction cs generalizing s with
  | nil => rfl
  | cons c cs ih => rw [List.foldl_cons, List.foldl_cons, Scanner.push_behind, ih]

theorem Scanner.finish_behind (length : Nat) (found : List Token) (s : Scanner) :
    (s.behind length found).finish =
      ⟨found.reverse ++ s.finish.tokens.map (Token.moved (length + ·)), s.finish.unclosed?.map (length + ·)⟩ := by
  rcases s with ⟨mode, offset, others⟩
  cases mode <;> simp [Scanner.behind, Scanner.finish, Mode.moved, wordToken_moved]

theorem Scanner.offset_foldl_push (cs : List Char) (s : Scanner) :
    (cs.foldl Scanner.push s).offset = s.offset + cs.length := by
  induction cs generalizing s with
  | nil => rfl
  | cons c cs ih =>
      rw [List.foldl_cons, ih]
      simp [Scanner.push, Nat.add_assoc, Nat.add_comm 1]

/-- A line feed ends a word and a comment. -/
theorem Scanner.push_newline {s : Scanner} {tokens : List Token} (complete : s.finish = ⟨tokens, none⟩) :
    s.push '\n' = .ready (s.offset + 1) tokens.reverse := by
  rcases s with ⟨mode, offset, found⟩
  cases mode with
  | between | comment | word =>
      cases complete
      simp [Scanner.push, Scanner.ready, Mode.step, meet, endsWord, Text.isBlank]
  | string | escape | broken => cases complete

/-- Behind a text with tokens and a line feed, the tokens of another text are the same further on. -/
theorem lex_append_newline {a : List Char} {tokens : List Token} (lexed : lex a = ⟨tokens, none⟩) (b : List Char) :
    lex (a ++ '\n' :: b) = ⟨tokens ++ (lex b).tokens.map (Token.moved (a.length + 1 + ·)),
      (lex b).unclosed?.map (a.length + 1 + ·)⟩ := by
  have newline := Scanner.push_newline lexed
  rw [Scanner.offset_foldl_push, Nat.zero_add] at newline
  have behind : Scanner.ready (a.length + 1) tokens.reverse = ({} : Scanner).behind (a.length + 1) tokens.reverse := rfl
  rw [lex, List.foldl_append, List.foldl_cons, newline, behind, Scanner.foldl_push_behind, Scanner.finish_behind,
    List.reverse_reverse]
  rfl

/-!
### Places and failures
-/

/-- The fault that a fault is in a text further down: the place of a text that cannot be read is on a later line. -/
def Fault.below (lines : Nat) : Fault → Fault
  | .unreadable problem place => .unreadable problem (place.below lines)
  | fault => fault

theorem Fault.ofReader_moved (a b : List Char) (failure : Reader.Failure) :
    Fault.ofReader (a ++ '\n' :: b) (failure.moved (a.length + 1 + ·)) =
      (Fault.ofReader b failure).below (a.count '\n' + 1) := by
  have behind := Text.Place.ofOffset_behind_newline a b
  cases failure with
  | numeralTooLong digits => rfl
  | unreadable problem token? =>
      cases token? with
      | some t => exact congrArg (Fault.unreadable problem) (behind t.offset)
      | none =>
          have ended : (a ++ '\n' :: b).length = a.length + 1 + b.length := by
            rw [List.length_append, List.length_cons]
            omega
          simp only [Reader.Failure.moved, Option.map_none, Fault.ofReader, Reader.placeOf, ended, behind, Fault.below]

theorem tokenize_append_newline {a : List Char} {tokens : List Token} (lexed : tokenize a = .ok tokens)
    (b : List Char) :
    tokenize (a ++ '\n' :: b) =
      ((tokenize b).map fun others => tokens ++ others.map (Token.moved (a.length + 1 + ·))).mapError
        (Fault.below (a.count '\n' + 1)) := by
  have whole := lex_append_newline (tokenize_eq_ok_iff.1 lexed) b
  simp only [tokenize, whole]
  cases (lex b).unclosed? with
  | none => rfl
  | some offset =>
      have place := Text.Place.ofOffset_behind_newline a b offset
      simp [Except.map, Except.mapError, Fault.below, place]

theorem tokenize_append_newline_ok {a b : List Char} {tokens others : List Token} (lexed : tokenize a = .ok tokens)
    (lexedBehind : tokenize b = .ok others) :
    tokenize (a ++ '\n' :: b) = .ok (tokens ++ others.map (Token.moved (a.length + 1 + ·))) := by
  rw [tokenize_append_newline lexed, lexedBehind]
  rfl

/-!
### Values
-/

namespace Reader

/-- The progress in a program that has more forms before it, newest first. -/
def Progress.after (forms : List Value) (p : Progress) : Progress :=
  { p with forms := p.forms ++ forms }

theorem Progress.push_after (forms : List Value) (p : Progress) (t : Token) :
    (p.after forms).push t = ((p.push t).map (Progress.after forms)).mapError id := by
  simp only [Progress.push, Progress.after]
  rcases p.state.step t with e | (next | v) <;> rfl

theorem Progress.finish_after (forms : List Value) (p : Progress) :
    (p.after forms).finish = p.finish.map (forms.reverse ++ ·) := by
  rcases p with ⟨(- | ⟨frame, stack⟩) | ⟨heads, tail, stack⟩, others⟩
  · simp [Progress.after, Progress.finish, Except.map]
  · rfl
  · rfl

/-- Behind the tokens of a program, the tokens of another are read as its values behind those of the first. -/
theorem parseAll_append {ts : List Token} {vs : List Value} (parsed : parseAll ts = .ok vs) (us : List Token) :
    parseAll (ts ++ us) = (parseAll us).map (vs ++ ·) := by
  rcases bind_eq_ok_iff.1 parsed with ⟨p, taken, finished⟩
  -- A program ends between forms, where another begins: nothing is left of the first but its forms.
  have start : p = Progress.after vs.reverse {} := Progress.finish_eq_ok_iff.1 finished
  have behind := foldlM_map_of_step (Progress.push_after vs.reverse) us {}
  rw [List.map_id'] at behind
  rw [parseAll, List.foldlM_append, taken, start]
  change us.foldlM Progress.push (Progress.after vs.reverse {}) >>= Progress.finish = _
  rw [behind, parseAll]
  cases us.foldlM Progress.push {} with
  | error e => rfl
  | ok q =>
      have finish := Progress.finish_after vs.reverse q
      rwa [List.reverse_reverse] at finish

end Reader

/-- Behind a text that can be read, a text is read as it is on its own, further down. -/
theorem readAll_continued {a : List Char} {vs : List Value} (success : readAll a = .ok vs) (b : List Char) :
    readAll (a ++ '\n' :: b) =
      ((readAll b).map (vs ++ ·)).mapError (Fault.below (a.count '\n' + 1)) := by
  rcases readAll_eq_ok_iff.1 success with ⟨tokens, lexed, derived⟩
  have parsed := Reader.parseAll_eq_ok_iff.2 derived
  cases lexedBehind : tokenize b with
  | error fault =>
      have whole := tokenize_append_newline lexed b
      rw [lexedBehind] at whole
      rw [readAll_of_tokenize_error whole, readAll_of_tokenize_error lexedBehind]
      rfl
  | ok others =>
      have whole := tokenize_append_newline_ok lexed lexedBehind
      rw [readAll_of_tokenize whole, readAll_of_tokenize lexedBehind, Reader.parseAll_append parsed, Reader.parseAll_moved]
      cases Reader.parseAll others with
      | error failure => exact congrArg Except.error (Fault.ofReader_moved a b failure)
      | ok ws => rfl

/-- Reading is compositional over text: behind a text that can be read and a line feed, another text has the values that it
    has on its own, behind those of the first text, or the same fault, further down by one line and those of the first
    text. -/
theorem readAll_append_newline (a b : List Char) (vs : List Value) (success : readAll a = .ok vs) :
    readAll (a ++ '\n' :: b) =
      match readAll b with
      | .ok ws => .ok (vs ++ ws)
      | .error fault => .error (fault.below (a.count '\n' + 1)) := by
  rw [readAll_continued success b]
  cases readAll b <;> rfl

/-- A text of two lines with a string in it that holds a semicolon, and a comment at its end. -/
def openCommentSample : List Char :=
  "(f\n \"x;y\")  ; open".toList

/-- A text whose second form has one datum too many behind a dot. -/
def badTailSample : List Char :=
  "b\n (1 . 2 3)".toList

theorem readAll_append_newline_openCommentSample :
    readAll openCommentSample = .ok [.list [.sym "f", .str "x;y"]] ∧
    readAll (openCommentSample ++ '\n' :: badTailSample) = .error (.unreadable .expectedClose ⟨4, 9⟩) := by
  have success : readAll openCommentSample = .ok [.list [.sym "f", .str "x;y"]] := by decide +kernel
  have alone : readAll badTailSample = .error (.unreadable .expectedClose ⟨2, 9⟩) := by decide +kernel
  have together := readAll_append_newline openCommentSample badTailSample _ success
  rw [alone] at together
  exact ⟨success, together⟩

end SmallScheme
