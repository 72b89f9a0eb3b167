import SmallScheme.Proofs.Continuation

/-
Module: SmallScheme.Proofs.FirstRefusal
Purpose: A failure of the reader is reported at the first token that cannot be continued. In every state of the reader there
  is a completion, lexemes that lead to the end of a program, and any lexemes can be written down as a text. So when the
  tokens run out, the text can be continued to a program; and when a token is refused, the tokens before it can be, but no
  text that goes on with this token can be read, and whatever follows changes nothing of the failure.
Main exports: State.completion, foldlM_push_completion, spelled, exists_scans_spelled, RanOut, RefusedAt,
  readAll_error_at_first_refusal
-/

namespace SmallScheme

namespace Reader

/-!
### Completions

A completion closes what is open, after an empty list where a value is missing. That it leads to the end of a program is
an induction on the stack along which the values are delivered.
-/

/-- The lexemes that close the frames of a stack to which a value has been delivered. -/
def closers : List Frame → List Lexeme
  | [] => []
  | .quote :: stack => closers stack
  | .items _ _ :: stack => .closeParen :: closers stack
  | .tail _ :: stack => .closeParen :: closers stack

/-- Lexemes that lead from a state to the end of a program. -/
def State.completion : State → List Lexeme
  | .reading [] => []
  | .reading (.items _ _ :: stack) => .closeParen :: closers stack
  | .reading stack => .openParen :: .closeParen :: closers stack
  | .closing _ _ stack => .closeParen :: closers stack

/-- The progress behind a step, with the forms that were read before it. -/
def Step.progress (forms : List Value) : Step → Progress
  | .more state => ⟨state, forms⟩
  | .finished v => ⟨.reading [], v :: forms⟩

theorem push_of_takes {state : State} {t : Token} {step : Step} (takes : state.Takes t step) (forms : List Value) :
    Progress.push ⟨state, forms⟩ t = .ok (step.progress forms) := by
  have taken := step_eq_ok_iff.2 takes
  cases step <;> simp [Progress.push, taken, Step.progress]

theorem foldlM_push_of_takes {state : State} {t : Token} {step : Step} (takes : state.Takes t step)
    (forms : List Value) (ts : List Token) :
    (t :: ts).foldlM Progress.push ⟨state, forms⟩ = ts.foldlM Progress.push (step.progress forms) := by
  rw [List.foldlM_cons, push_of_takes takes]
  rfl

/-- If a closing parenthesis delivers a value, and the program can be completed behind it, it can be completed before it. -/
theorem foldlM_push_close {state : State} {v : Value} {stack : List Frame} {ts : List Token} (forms : List Value)
    (closes : ∀ t : Token, t.lexeme = .closeParen → state.Takes t (deliver v stack))
    (onward : ∀ us : List Token, us.map Token.lexeme = closers stack →
      ∃ w, us.foldlM Progress.push ((deliver v stack).progress forms) = .ok ⟨.reading [], w :: forms⟩)
    (lexemes : ts.map Token.lexeme = .closeParen :: closers stack) :
    ∃ w, ts.foldlM Progress.push ⟨state, forms⟩ = .ok ⟨.reading [], w :: forms⟩ := by
  rcases List.map_eq_cons_iff.1 lexemes with ⟨t, others, rfl, lexeme, rest⟩
  rcases onward others rest with ⟨w, completed⟩
  exact ⟨w, (foldlM_push_of_takes (closes t lexeme) forms others).trans completed⟩

/-- A program can be completed behind the delivery of a value. -/
theorem foldlM_push_closers {stack : List Frame} {v : Value} {ts : List Token} {forms : List Value}
    (lexemes : ts.map Token.lexeme = closers stack) :
    ∃ w, ts.foldlM Progress.push ((deliver v stack).progress forms) = .ok ⟨.reading [], w :: forms⟩ := by
  induction stack generalizing v ts with
  | nil =>
      rw [closers, List.map_eq_nil_iff] at lexemes
      exact ⟨v, lexemes ▸ rfl⟩
  | cons frame stack ih =>
      cases frame with
      | quote => exact ih lexemes
      | items opened before => exact foldlM_push_close forms (fun _ => .closeItems) (fun _ => ih) lexemes
      | tail heads => exact foldlM_push_close forms (fun _ => .closeTail) (fun _ => ih) lexemes

/-- Where a value is expected, an empty list is one. -/
theorem foldlM_push_emptyList {stack : List Frame} {ts : List Token} (forms : List Value)
    (lexemes : ts.map Token.lexeme = .openParen :: .closeParen :: closers stack) :
    ∃ w, ts.foldlM Progress.push ⟨.reading stack, forms⟩ = .ok ⟨.reading [], w :: forms⟩ := by
  rcases List.map_eq_cons_iff.1 lexemes with ⟨t, others, rfl, lexeme, rest⟩
  rw [foldlM_push_of_takes (.openParen lexeme)]
  exact foldlM_push_close forms (fun _ => .closeItems) (fun _ => foldlM_push_closers) rest

/-- Every state can be completed. -/
theorem foldlM_push_completion {p : Progress} {ts : List Token} (lexemes : ts.map Token.lexeme = p.state.completion) :
    ∃ forms, ts.foldlM Progress.push p = .ok ⟨.reading [], forms⟩ := by
  rcases p with ⟨state, forms⟩
  cases state with
  | closing heads tail stack =>
      rcases foldlM_push_close forms (fun _ => .closeTail) (fun _ => foldlM_push_closers) lexemes with
        ⟨w, completed⟩
      exact ⟨w :: forms, completed⟩
  | reading stack =>
      cases stack with
      | nil =>
          rw [State.completion, List.map_eq_nil_iff] at lexemes
          exact ⟨forms, lexemes ▸ rfl⟩
      | cons frame stack =>
          cases frame with
          | quote | tail =>
              rcases foldlM_push_emptyList forms lexemes with ⟨w, completed⟩
              exact ⟨w :: forms, completed⟩
          | items opened before =>
              rcases foldlM_push_close forms (fun _ => .closeItems) (fun _ => foldlM_push_closers) lexemes
                with ⟨w, completed⟩
              exact ⟨w :: forms, completed⟩

theorem parseAll_completed {ts us : List Token} {p : Progress} (taken : ts.foldlM Progress.push {} = .ok p)
    (lexemes : us.map Token.lexeme = p.state.completion) : ∃ vs, parseAll (ts ++ us) = .ok vs := by
  rcases foldlM_push_completion lexemes with ⟨forms, completed⟩
  have whole : (ts ++ us).foldlM Progress.push {} = .ok ⟨.reading [], forms⟩ := by
    rw [List.foldlM_append]
    exact bind_eq_ok_iff.2 ⟨p, taken, completed⟩
  exact ⟨forms.reverse, bind_eq_ok_iff.2 ⟨_, whole, rfl⟩⟩

/-!
### Failures

A program fails at its end, or at a token that the state before it refuses.
-/

/-- A failure that names the token, and is not one of the two that only the end of the tokens brings about. -/
def Failure.At (t : Token) : Failure → Prop
  | .unreadable problem token? => token? = some t ∧ problem ≠ .unmatchedOpen ∧ problem ≠ .unexpectedEnd
  | .numeralTooLong _ => True

theorem at_of_wordValue_eq_error {t : Token} {chars : List Char} {e : Failure}
    (failed : wordValue t chars = .error e) : e.At t := by
  unfold wordValue at failed
  repeat' split at failed
  all_goals cases failed
  all_goals simp [Failure.At]

theorem at_of_stringValue_eq_error {t : Token} {body : List Char} {e : Failure}
    (failed : stringValue t body = .error e) : e.At t := by
  unfold stringValue at failed
  split at failed <;> cases failed
  simp [Failure.At]

/-- A refused token is where the failure stands. -/
theorem at_of_step_eq_error {state : State} {t : Token} {e : Failure} (refused : state.step t = .error e) : e.At t := by
  cases state with
  | closing heads tail stack =>
      simp only [State.step] at refused
      split at refused <;> cases refused
      simp [Failure.At]
  | reading stack =>
      cases lexeme : t.lexeme with
      | word chars =>
          simp only [State.step, lexeme, map_eq_error_iff] at refused
          exact at_of_wordValue_eq_error refused
      | string body =>
          simp only [State.step, lexeme, map_eq_error_iff] at refused
          exact at_of_stringValue_eq_error refused
      | quote | openParen => simp [State.step, lexeme] at refused
      | closeParen | dot =>
          simp only [State.step, lexeme] at refused
          split at refused <;> cases refused <;> simp [Failure.At]

theorem push_eq_error_iff {p : Progress} {t : Token} {e : Failure} :
    p.push t = .error e ↔ p.state.step t = .error e := by
  unfold Progress.push
  split <;> simp_all

theorem finish_eq_error {p : Progress} {e : Failure} (failed : p.finish = .error e) : e = p.state.atEnd := by
  unfold Progress.finish at failed
  split at failed <;> cases failed
  rfl

/-- A program fails at its end, or at a token that is refused behind tokens that are taken. -/
theorem parseAll_eq_error {ts : List Token} {e : Failure} (failed : parseAll ts = .error e) :
    (∃ p, ts.foldlM Progress.push {} = .ok p ∧ e = p.state.atEnd) ∨
      ∃ before t after p, ts = before ++ t :: after ∧ before.foldlM Progress.push {} = .ok p ∧
        p.state.step t = .error e := by
  rcases bind_eq_error_iff.1 failed with inside | ⟨p, taken, atEnd⟩
  · rcases exists_of_foldlM_eq_error inside with ⟨before, t, after, p, split, taken, refused⟩
    exact .inr ⟨before, t, after, p, split, taken, push_eq_error_iff.1 refused⟩
  · exact .inl ⟨p, taken, finish_eq_error atEnd⟩

/-- Tokens that begin with a refused one behind tokens that are taken fail at it, whatever comes behind. -/
theorem parseAll_of_refused {before : List Token} {p : Progress} {t : Token} {e : Failure}
    (taken : before.foldlM Progress.push {} = .ok p) (refused : p.state.step t = .error e) (after : List Token) :
    parseAll (before ++ t :: after) = .error e := by
  refine bind_eq_error_iff.2 (.inl ?_)
  rw [List.foldlM_append]
  refine bind_eq_error_iff.2 (.inr ⟨p, taken, ?_⟩)
  rw [List.foldlM_cons]
  exact bind_eq_error_iff.2 (.inl (push_eq_error_iff.2 refused))

end Reader

/-!
### Texts
-/

/-- The lexemes written down one after the other, with a blank behind each. -/
def spelled (lexemes : List Lexeme) : List Char :=
  lexemes.flatMap fun lexeme => lexeme.chars ++ [' ']

/-- What is written down has the lexemes that were written. -/
theorem exists_scansShut_spelled {lexemes : List Lexeme} (valid : ∀ lexeme ∈ lexemes, lexeme.Valid) (offset : Nat) :
    ∃ ts, ts.map Token.lexeme = lexemes ∧ ScansShut offset (spelled lexemes) ts := by
  induction lexemes generalizing offset with
  | nil => exact ⟨[], rfl, scansShut_nil⟩
  | cons lexeme lexemes ih =>
      rcases List.forall_mem_cons.1 valid with ⟨first, others⟩
      rcases ih others (offset + lexeme.chars.length + 1) with ⟨ts, same, scans⟩
      have behind : ScansShut (offset + lexeme.chars.length) (' ' :: spelled lexemes) ts :=
        (scansShut_blank (c := ' ') rfl).append scans
      refine ⟨⟨lexeme, offset⟩ :: ts, by rw [List.map_cons, same], ?_⟩
      rw [spelled, List.flatMap_cons, List.append_assoc]
      exact (first.scans offset).append_shut behind rfl

theorem exists_tokenize_spelled {lexemes : List Lexeme} (valid : ∀ lexeme ∈ lexemes, lexeme.Valid) :
    ∃ ts, ts.map Token.lexeme = lexemes ∧ tokenize (spelled lexemes) = .ok ts := by
  rcases exists_scansShut_spelled valid 0 with ⟨ts, same, scans⟩
  exact ⟨ts, same, tokenize_eq_ok_iff.2 (lex_of_scans scans.scans)⟩

theorem Reader.valid_of_mem_closers (stack : List Frame) : ∀ lexeme ∈ closers stack, lexeme.Valid := by
  induction stack with
  | nil => simp [closers]
  | cons frame stack ih =>
      cases frame with
      | quote => exact ih
      | items | tail => exact List.forall_mem_cons.2 ⟨trivial, ih⟩

theorem Reader.State.valid_of_mem_completion (state : State) : ∀ lexeme ∈ state.completion, lexeme.Valid := by
  have closed : ∀ stack, ∀ lexeme ∈ Lexeme.closeParen :: closers stack, lexeme.Valid :=
    fun stack => List.forall_mem_cons.2 ⟨trivial, valid_of_mem_closers stack⟩
  cases state with
  | closing heads tail stack => exact closed stack
  | reading stack =>
      cases stack with
      | nil => simp [completion]
      | cons frame stack =>
          cases frame with
          | items opened before => exact closed stack
          | quote => exact List.forall_mem_cons.2 ⟨trivial, closed (.quote :: stack)⟩
          | tail heads => exact List.forall_mem_cons.2 ⟨trivial, closed (.tail heads :: stack)⟩

/-!
### Where programs fail
-/

/-- The text is a program. -/
def Readable (text : List Char) : Prop :=
  ∃ vs, readAll text = .ok vs

/-- The text has tokens that begin with the lexemes of these. -/
def Continues (tokens : List Token) (text : List Char) : Prop :=
  ∃ us, tokenize text = .ok us ∧ tokens.map Token.lexeme <+: us.map Token.lexeme

/-- The problem, at its place in the source, is that the tokens ran out. -/
def RanOut (source : List Char) (problem : Reader.Problem) (place : Text.Place) : Prop :=
  problem = .unmatchedOpen ∨ problem = .unexpectedEnd ∨
    problem = .expectedClose ∧ place = Text.Place.ofOffset source source.length

instance (source : List Char) (problem : Reader.Problem) (place : Text.Place) : Decidable (RanOut source problem place) :=
  inferInstanceAs (Decidable (_ ∨ _ ∨ _ ∧ _))

/-- The problem stands at the first token of the source that cannot be continued. -/
structure RefusedAt (source : List Char) (tokens : List Token) (problem : Reader.Problem) (place : Text.Place)
    (before : List Token) (t : Token) : Prop where
  split : ∃ after, tokens = before ++ t :: after
  place_eq : place = Text.Place.ofOffset source t.offset
  continuable : ∃ text, Continues before text ∧ Readable text
  final : ∀ text, Continues (before ++ [t]) text → ¬ Readable text
  settled : ∀ behind others, tokenize behind = .ok others →
    readAll (source ++ '\n' :: behind) = .error (.unreadable problem place)

theorem readable_of_parseAll {text : List Char} {ts : List Token} {vs : List Value} (lexed : tokenize text = .ok ts)
    (parsed : Reader.parseAll ts = .ok vs) : Readable text :=
  ⟨vs, readAll_eq_ok_iff.2 ⟨ts, lexed, Reader.parseAll_eq_ok_iff.1 parsed⟩⟩

/-- A parse error is a failure of the reader at a token, or at the end. -/
theorem exists_failure_of_readAll_eq_error {source : List Char} {tokens : List Token} {problem : Reader.Problem}
    {place : Text.Place} (lexed : tokenize source = .ok tokens)
    (fails : readAll source = .error (.unreadable problem place)) :
    ∃ token?, Reader.parseAll tokens = .error (.unreadable problem token?) ∧ place = Reader.placeOf source token? := by
  rw [readAll_of_tokenize lexed] at fails
  cases parsed : Reader.parseAll tokens with
  | ok vs =>
      rw [parsed] at fails
      cases fails
  | error failure =>
      rw [parsed] at fails
      cases failure with
      | numeralTooLong digits => cases fails
      | unreadable problem token? =>
          cases fails
          exact ⟨token?, rfl, rfl⟩

theorem ranOut_of_atEnd {state : Reader.State} {problem : Reader.Problem} {token? : Option Token}
    (atEnd : .unreadable problem token? = state.atEnd) (source : List Char) :
    RanOut source problem (Reader.placeOf source token?) := by
  rcases state with (- | ⟨- | ⟨opened, before⟩ | heads, stack⟩) | ⟨heads, tail, stack⟩ <;> cases atEnd
  · exact .inr (.inl rfl)
  · exact .inr (.inl rfl)
  · exact .inl rfl
  · exact .inr (.inl rfl)
  · exact .inr (.inr ⟨rfl, rfl⟩)

theorem not_ranOut_of_at {source : List Char} {t : Token} {problem : Reader.Problem} {token? : Option Token}
    (refused : (Reader.Failure.unreadable problem token?).At t) (within : t.offset < source.length) :
    ¬ RanOut source problem (Reader.placeOf source token?) := by
  rcases refused with ⟨rfl, notUnmatched, notUnexpected⟩
  rintro (unmatched | unexpected | ⟨_, atEnd⟩)
  · exact notUnmatched unmatched
  · exact notUnexpected unexpected
  · have same := Text.Place.ofOffset_injective (Nat.le_of_lt within) (Nat.le_refl _) atEnd
    omega

/-- A text whose tokens are all taken can be continued to a program. -/
theorem exists_readable_continuation {source : List Char} {tokens : List Token} {p : Reader.Progress}
    (lexed : tokenize source = .ok tokens) (taken : tokens.foldlM Reader.Progress.push {} = .ok p) :
    ∃ behind, Readable (source ++ '\n' :: behind) := by
  rcases exists_tokenize_spelled p.state.valid_of_mem_completion with ⟨us, same, lexedBehind⟩
  have whole := tokenize_append_newline_ok lexed lexedBehind
  have lexemes : (us.map (Token.moved (source.length + 1 + ·))).map Token.lexeme = p.state.completion := by
    rw [List.map_map, ← same]
    rfl
  rcases Reader.parseAll_completed taken lexemes with ⟨vs, parsed⟩
  exact ⟨_, readable_of_parseAll whole parsed⟩

/-- Lexemes that are taken are those at the beginning of a program. -/
theorem exists_readable_continues {before : List Token} {p : Reader.Progress}
    (valid : ∀ t ∈ before, t.lexeme.Valid) (taken : before.foldlM Reader.Progress.push {} = .ok p) :
    ∃ text, Continues before text ∧ Readable text := by
  have allValid : ∀ lexeme ∈ before.map Token.lexeme ++ p.state.completion, lexeme.Valid := by
    intro lexeme member
    rcases List.mem_append.1 member with inside | completing
    · rcases List.mem_map.1 inside with ⟨t, inBefore, rfl⟩
      exact valid t inBefore
    · exact p.state.valid_of_mem_completion lexeme completing
  rcases exists_tokenize_spelled allValid with ⟨us, same, lexed⟩
  -- The tokens of the written text stand elsewhere than those that are taken, but have the same lexemes.
  let completing : List Token := p.state.completion.map fun lexeme => ⟨lexeme, 0⟩
  have lexemes : completing.map Token.lexeme = p.state.completion := by
    simp [completing, Function.comp_def]
  rcases Reader.parseAll_completed taken lexemes with ⟨vs, parsed⟩
  have alike : (before ++ completing).map Token.lexeme = us.map Token.lexeme := by
    rw [List.map_append, lexemes, same]
  refine ⟨_, ⟨us, lexed, ?_⟩, readable_of_parseAll lexed (Reader.parseAll_of_lexemes_eq alike parsed)⟩
  rw [same]
  exact List.prefix_append _ _

/-- No program begins with a refused lexeme behind lexemes that are taken. -/
theorem not_readable_of_refused {before : List Token} {p : Reader.Progress} {t : Token} {e : Reader.Failure}
    (taken : before.foldlM Reader.Progress.push {} = .ok p) (refused : p.state.step t = .error e) {text : List Char}
    (continues : Continues (before ++ [t]) text) : ¬ Readable text := by
  rintro ⟨vs, success⟩
  rcases continues with ⟨us, lexed, rest, split⟩
  rw [readAll_of_tokenize lexed] at success
  -- Only the lexemes of the rest are known, and the reader sees no more of them.
  let behind : List Token := rest.map fun lexeme => ⟨lexeme, 0⟩
  have lexemes : us.map Token.lexeme = (before ++ t :: behind).map Token.lexeme := by
    rw [← split]
    simp [behind, Function.comp_def]
  have failed := Reader.parseAll_of_refused taken refused behind
  cases parsed : Reader.parseAll us with
  | error failure =>
      rw [parsed] at success
      cases success
  | ok ws =>
      rw [Reader.parseAll_of_lexemes_eq lexemes parsed] at failed
      cases failed

/-- A refused token is the first that cannot be continued. -/
theorem refusedAt_of_step {source : List Char} {before after : List Token} {p : Reader.Progress} {t : Token}
    {problem : Reader.Problem} (lexed : tokenize source = .ok (before ++ t :: after))
    (taken : before.foldlM Reader.Progress.push {} = .ok p)
    (refused : p.state.step t = .error (.unreadable problem (some t))) :
    RefusedAt source (before ++ t :: after) problem (Text.Place.ofOffset source t.offset) before t where
  split := ⟨after, rfl⟩
  place_eq := rfl
  continuable := by
    refine exists_readable_continues (fun u member => ?_) taken
    exact (valid_and_offset_lt_of_tokenize lexed u (List.mem_append_left _ member)).1
  final _ continues := not_readable_of_refused taken refused continues
  settled := by
    intro behind others lexedBehind
    have within := (valid_and_offset_lt_of_tokenize lexed t (by simp)).2
    have whole := tokenize_append_newline_ok lexed lexedBehind
    have failed := Reader.parseAll_of_refused taken refused
      (after ++ others.map (Token.moved (source.length + 1 + ·)))
    rw [readAll_of_tokenize whole, List.append_assoc, List.cons_append, failed]
    have place := Text.Place.ofOffset_append (Nat.le_of_lt within) ('\n' :: behind)
    exact congrArg (fun place => Except.error (Fault.unreadable problem place)) place

/-- Parse errors are reported at the first token that cannot be continued. If the tokens of a text ran out, the text can be
    continued to a program. Otherwise the error stands at a token such that the tokens before it can be continued to a
    program, those up to it cannot, and any further text leaves the error as it is. -/
theorem readAll_error_at_first_refusal (source : List Char) (tokens : List Token) (problem : Reader.Problem)
    (place : Text.Place) (lexed : tokenize source = .ok tokens)
    (fails : readAll source = .error (.unreadable problem place)) :
    (RanOut source problem place → ∃ behind, Readable (source ++ '\n' :: behind)) ∧
    (¬ RanOut source problem place → ∃ before t, RefusedAt source tokens problem place before t) := by
  rcases exists_failure_of_readAll_eq_error lexed fails with ⟨token?, failed, rfl⟩
  rcases Reader.parseAll_eq_error failed with ⟨p, taken, atEnd⟩ | ⟨before, t, after, p, rfl, taken, refused⟩
  · refine ⟨fun _ => exists_readable_continuation lexed taken, fun notRanOut => ?_⟩
    exact absurd (ranOut_of_atEnd atEnd source) notRanOut
  · have standsAt := Reader.at_of_step_eq_error refused
    have within := (valid_and_offset_lt_of_tokenize lexed t (by simp)).2
    refine ⟨fun ranOut => absurd ranOut (not_ranOut_of_at standsAt within), fun _ => ⟨before, t, ?_⟩⟩
    rcases standsAt with ⟨rfl, _, _⟩
    exact refusedAt_of_step lexed taken refused

/-- A dotted list with a quoted tail and, on the next line, one datum too many; more follows. -/
def twoTailsSample : List Char :=
  "(a . 'b\n c d) (e".toList

theorem readAll_error_at_first_refusal_twoTailsSample :
    tokenize twoTailsSample = .ok (lex twoTailsSample).tokens ∧
    readAll twoTailsSample = .error (.unreadable .expectedClose ⟨2, 2⟩) ∧
    ¬ RanOut twoTailsSample .expectedClose ⟨2, 2⟩ ∧
    ∃ before t, RefusedAt twoTailsSample (lex twoTailsSample).tokens .expectedClose ⟨2, 2⟩ before t := by
  have lexed : tokenize twoTailsSample = .ok (lex twoTailsSample).tokens := by decide +kernel
  have fails : readAll twoTailsSample = .error (.unreadable .expectedClose ⟨2, 2⟩) := by decide +kernel
  have going : ¬ RanOut twoTailsSample .expectedClose ⟨2, 2⟩ := by decide +kernel
  exact ⟨lexed, fails, going, (readAll_error_at_first_refusal _ _ _ _ lexed fails).2 going⟩

end SmallScheme
