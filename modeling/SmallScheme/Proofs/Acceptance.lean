import Mathlib.Data.Set.Subsingleton
import SmallScheme.Proofs.Grammar
import SmallScheme.Reader

/-
Module: SmallScheme.Proofs.Acceptance
Purpose: The reader accepts exactly the grammar. What has been read is related to the tokens that were taken: the frames
  of the stack partition them, each frame having been opened by its own tokens and filled by tokens that derive what it
  holds. A token keeps this relation, so a finished value is derived by all tokens taken for it; with the completeness
  of the reader it follows that from any token on there is at most one derivation.
Main exports: Opens, Leads, Step.follows_of_takes, derives_of_run, parse_eq_ok_iff, Progress.Covers, parseAll_eq_ok_iff,
  DerivesBetween, read_eq_ok_iff, readAll_eq_ok_iff, accepts_exactly_grammar
-/

namespace SmallScheme

namespace Reader

/-!
### Soundness

The invariant is a relation between tokens and states, by one rule for each kind of frame. Delivering a value follows the
stack downwards, so it is an induction on the relation for the stack.
-/

/-- The tokens have opened the frames of a stack and filled them, those of the innermost frame last. -/
inductive Opens : List Token → List Frame → Prop where
  | nil : Opens [] []
  | quote {ts : List Token} {stack : List Frame} {t : Token} (outer : Opens ts stack) (lexeme : t.lexeme = .quote) :
      Opens (ts ++ [t]) (.quote :: stack)
  | items {ts us : List Token} {stack : List Frame} {opened : Token} {before : List Value} (outer : Opens ts stack)
      (openLexeme : opened.lexeme = .openParen) (derived : DerivesAll us before.reverse) :
      Opens (ts ++ opened :: us) (.items opened before :: stack)
  | tail {ts us : List Token} {stack : List Frame} {opened dot : Token} {heads : List Value} (outer : Opens ts stack)
      (openLexeme : opened.lexeme = .openParen) (derived : DerivesAll us heads) (nonempty : heads ≠ [])
      (dotLexeme : dot.lexeme = .dot) : Opens (ts ++ opened :: (us ++ [dot])) (.tail heads :: stack)

/-- The tokens lead from the start of a value to a state. -/
inductive Leads : List Token → State → Prop where
  | reading {ts : List Token} {stack : List Frame} (opens : Opens ts stack) : Leads ts (.reading stack)
  | closing {ts us : List Token} {heads : List Value} {tail : Value} {stack : List Frame}
      (opens : Opens ts (.tail heads :: stack)) (derived : Derives us tail) : Leads (ts ++ us) (.closing heads tail stack)

/-- A step is right for the tokens taken so far: they lead to its state, or they derive its value. -/
def Step.Follows (ts : List Token) : Step → Prop
  | .more state => Leads ts state
  | .finished v => Derives ts v

theorem DerivesAll.append : ∀ {ts us : List Token} {vs ws : List Value}, DerivesAll ts vs → DerivesAll us ws →
    DerivesAll (ts ++ us) (vs ++ ws)
  | _, _, _, _, .nil, second => second
  | _, _, _, _, .cons first others, second => by
      rw [List.append_assoc]
      exact .cons first (others.append second)

theorem DerivesAll.snoc {ts us : List Token} {vs : List Value} {v : Value} (derived : DerivesAll ts vs)
    (last : Derives us v) : DerivesAll (ts ++ us) (vs ++ [v]) := by
  have single : DerivesAll (us ++ []) [v] := .cons last .nil
  rw [List.append_nil] at single
  exact derived.append single

theorem follows_deliver {ts us : List Token} {stack : List Frame} {v : Value} (opens : Opens ts stack)
    (derived : Derives us v) : (deliver v stack).Follows (ts ++ us) := by
  induction opens generalizing us v with
  | nil => exact derived
  | quote outer lexeme ih =>
      -- The quoted value is delivered to the next frame at once, so the induction goes on with the tokens of both.
      rw [List.append_assoc, List.singleton_append]
      exact ih (.quote lexeme derived)
  | @items ts filled stack opened before outer openLexeme held ih =>
      have more : DerivesAll (filled ++ us) (v :: before).reverse := by
        rw [List.reverse_cons]
        exact held.snoc derived
      rw [List.append_assoc, List.cons_append]
      exact .reading (.items outer openLexeme more)
  | tail outer openLexeme held nonempty dotLexeme ih =>
      exact .closing (.tail outer openLexeme held nonempty dotLexeme) derived

theorem Leads.opens {ts : List Token} {stack : List Frame} (leads : Leads ts (.reading stack)) : Opens ts stack := by
  cases leads with
  | reading opens => exact opens

/-- A token that is taken keeps states and tokens related. -/
theorem Step.follows_of_takes {ts : List Token} {state : State} {t : Token} {step : Step} (leads : Leads ts state)
    (takes : state.Takes t step) : step.Follows (ts ++ [t]) := by
  cases takes with
  | word lexeme denotes => exact follows_deliver leads.opens (.word lexeme denotes)
  | string lexeme denotes => exact follows_deliver leads.opens (.string lexeme denotes)
  | quote lexeme => exact .reading (.quote leads.opens lexeme)
  | openParen lexeme => exact .reading (.items leads.opens lexeme .nil)
  | closeItems lexeme =>
      cases leads.opens with
      | items outer openLexeme derived =>
          rw [List.append_assoc, List.cons_append]
          exact follows_deliver outer (.list openLexeme derived lexeme)
  | dot lexeme nonempty =>
      cases leads.opens with
      | items outer openLexeme derived =>
          rw [List.append_assoc, List.cons_append]
          exact .reading (.tail outer openLexeme derived (by simpa using nonempty) lexeme)
  | closeTail lexeme =>
      cases leads with
      | closing opens tailDerived =>
          cases opens with
          | tail outer openLexeme headsDerived nonempty dotLexeme =>
              have derived := Derives.dotted openLexeme headsDerived nonempty dotLexeme tailDerived lexeme
              simpa using follows_deliver outer derived

/-- A finished value is derived by all tokens that were taken for it. -/
theorem derives_of_run {ts us rest : List Token} {state : State} {v : Value} (leads : Leads ts state)
    (finished : run state us = (.ok v, rest)) : ∃ taken, us = taken ++ rest ∧ Derives (ts ++ taken) v := by
  induction us generalizing ts state with
  | nil => simp [run] at finished
  | cons t us ih =>
      rw [run] at finished
      split at finished
      · rename_i w taken
        cases finished
        exact ⟨[t], rfl, Step.follows_of_takes leads (step_eq_ok_iff.1 taken)⟩
      · rename_i next taken
        have onward : Leads (ts ++ [t]) next := Step.follows_of_takes leads (step_eq_ok_iff.1 taken)
        rcases ih onward finished with ⟨more, rfl, derived⟩
        rw [List.append_assoc] at derived
        exact ⟨t :: more, rfl, derived⟩
      · cases finished

theorem leads_initial : Leads [] (.reading []) :=
  .reading .nil

/-- One value is read from the front of the tokens exactly if the tokens that are taken derive it. -/
theorem parse_eq_ok_iff {us rest : List Token} {v : Value} :
    parse us = (.ok v, rest) ↔ ∃ taken, us = taken ++ rest ∧ Derives taken v := by
  constructor
  · exact fun finished => derives_of_run leads_initial finished
  · rintro ⟨taken, rfl, derived⟩
    exact derived.run [] rest

/-!
### Whole programs

A program is read form by form: the tokens so far are those of the finished forms and, behind them, those of the form
that is being read.
-/

/-- The tokens of a program so far: those of its finished forms, then those that lead into the current one. -/
def Progress.Covers (ts : List Token) (p : Progress) : Prop :=
  ∃ done current, ts = done ++ current ∧ DerivesAll done p.forms.reverse ∧ Leads current p.state

theorem Progress.covers_of_push {ts : List Token} {t : Token} {before after : Progress} (covers : before.Covers ts)
    (pushed : before.push t = .ok after) : after.Covers (ts ++ [t]) := by
  rcases covers with ⟨done, current, rfl, derived, leads⟩
  unfold Progress.push at pushed
  split at pushed <;> cases pushed
  · rename_i next taken
    have onward : Leads (current ++ [t]) next := Step.follows_of_takes leads (step_eq_ok_iff.1 taken)
    exact ⟨done, current ++ [t], List.append_assoc .., derived, onward⟩
  · rename_i v taken
    have form : Derives (current ++ [t]) v := Step.follows_of_takes leads (step_eq_ok_iff.1 taken)
    refine ⟨done ++ (current ++ [t]), [], by simp, ?_, leads_initial⟩
    simpa using derived.snoc form

theorem Progress.covers_of_foldlM {ts us : List Token} {before after : Progress} (covers : before.Covers ts)
    (taken : us.foldlM push before = .ok after) : after.Covers (ts ++ us) := by
  induction us generalizing ts before with
  | nil =>
      cases taken
      simpa using covers
  | cons u us ih =>
      rw [List.foldlM_cons] at taken
      rcases bind_eq_ok_iff.1 taken with ⟨next, pushed, others⟩
      simpa using ih (covers_of_push covers pushed) others

/-- A value that is read is one more form of the program around it. -/
theorem foldlM_push_of_run {state : State} {us rest : List Token} {v : Value}
    (finished : run state us = (.ok v, rest)) (forms : List Value) :
    ∃ taken, us = taken ++ rest ∧ taken.foldlM Progress.push ⟨state, forms⟩ = .ok ⟨.reading [], v :: forms⟩ := by
  induction us generalizing state with
  | nil => simp [run] at finished
  | cons t us ih =>
      rw [run] at finished
      split at finished
      · rename_i w taken
        cases finished
        refine ⟨[t], rfl, ?_⟩
        rw [List.foldlM_cons, Progress.push, taken]
        rfl
      · rename_i next taken
        rcases ih finished with ⟨more, rfl, pushed⟩
        refine ⟨t :: more, rfl, ?_⟩
        rw [List.foldlM_cons, Progress.push, taken]
        exact pushed
      · cases finished

theorem Derives.foldlM_push {ts : List Token} {v : Value} (derived : Derives ts v) (forms : List Value) :
    ts.foldlM Progress.push ⟨.reading [], forms⟩ = .ok ⟨.reading [], v :: forms⟩ := by
  have finished : Reader.run (.reading []) (ts ++ []) = (.ok v, []) := derived.run [] []
  rcases foldlM_push_of_run finished forms with ⟨taken, same, pushed⟩
  simp only [List.append_nil] at same
  exact same ▸ pushed

theorem DerivesAll.foldlM_push : ∀ {ts : List Token} {vs : List Value}, DerivesAll ts vs → ∀ forms : List Value,
    ts.foldlM Progress.push ⟨.reading [], forms⟩ = .ok ⟨.reading [], vs.reverse ++ forms⟩
  | _, _, .nil, _ => rfl
  | _, _, @DerivesAll.cons ts us v vs first others, forms => by
      rw [List.foldlM_append, first.foldlM_push, List.reverse_cons, List.append_assoc]
      exact others.foldlM_push (v :: forms)

theorem Progress.finish_eq_ok_iff {p : Progress} {vs : List Value} :
    p.finish = .ok vs ↔ p = ⟨.reading [], vs.reverse⟩ := by
  rcases p with ⟨state, forms⟩
  cases state with
  | closing => simp [finish]
  | reading stack =>
      cases stack with
      | nil => simp [finish, List.reverse_eq_iff]
      | cons => simp [finish]

/-- A program is read exactly if its tokens derive its forms one after the other. -/
theorem parseAll_eq_ok_iff {ts : List Token} {vs : List Value} : parseAll ts = .ok vs ↔ DerivesAll ts vs := by
  constructor
  · intro parsed
    rcases bind_eq_ok_iff.1 parsed with ⟨p, taken, finished⟩
    have start : Progress.Covers [] {} := ⟨[], [], rfl, .nil, leads_initial⟩
    rcases Progress.covers_of_foldlM start taken with ⟨done, current, rfl, derived, leads⟩
    cases Progress.finish_eq_ok_iff.1 finished
    cases leads.opens with
    | nil => simpa using derived
  · intro derived
    refine bind_eq_ok_iff.2 ⟨_, derived.foldlM_push [], ?_⟩
    exact Progress.finish_eq_ok_iff.2 (by simp)

/-!
### Positions

A cursor is a position in the tokens, and what is left are the tokens from there on.
-/

/-- The tokens from one position up to another, which is not beyond the end, derive a value. -/
def DerivesBetween (tokens : List Token) (i j : Nat) (v : Value) : Prop :=
  j ≤ tokens.length ∧ Derives (tokens.extract i j) v

theorem Derives.ne_nil {ts : List Token} {v : Value} (derived : Derives ts v) : ts ≠ [] := by
  cases derived <;> exact List.cons_ne_nil _ _

theorem drop_eq_append_drop_iff {tokens taken : List Token} {i j : Nat} (within : j ≤ tokens.length)
    (nonempty : taken ≠ []) : tokens.drop i = taken ++ tokens.drop j ↔ tokens.extract i j = taken := by
  rw [List.extract_eq_take_drop]
  constructor
  · intro split
    have lengths := congrArg List.length split
    simp only [List.length_drop, List.length_append] at lengths
    have count : taken.length = j - i := by omega
    rw [split, ← count, List.take_left]
  · rintro rfl
    -- Tokens are taken only if the first position is before the second; subtraction is exact then.
    have forward : i + (j - i) = j := by
      have positive := List.length_pos_iff.2 nonempty
      rw [List.length_take] at positive
      omega
    conv_rhs => rw [← forward, ← List.drop_drop]
    rw [forward]
    exact (List.take_append_drop _ _).symm

/-- One value is read from a position, and the cursor left at another, exactly if the tokens between derive it. -/
theorem parse_drop_eq_ok_iff {tokens : List Token} {i j : Nat} {v : Value} :
    (parse (tokens.drop i) = (.ok v, tokens.drop j) ∧ j ≤ tokens.length) ↔ DerivesBetween tokens i j v := by
  constructor
  · rintro ⟨parsed, within⟩
    rcases parse_eq_ok_iff.1 parsed with ⟨taken, split, derived⟩
    have same := (drop_eq_append_drop_iff within derived.ne_nil).1 split
    exact ⟨within, same ▸ derived⟩
  · rintro ⟨within, derived⟩
    have split := (drop_eq_append_drop_iff within derived.ne_nil).2 rfl
    exact ⟨parse_eq_ok_iff.2 ⟨_, split, derived⟩, within⟩

/-- From a position on, the value and the end of its tokens are determined. -/
theorem derivesBetween_unique {tokens : List Token} {i j k : Nat} {v w : Value}
    (first : DerivesBetween tokens i j v) (second : DerivesBetween tokens i k w) : v = w ∧ j = k := by
  rcases parse_drop_eq_ok_iff.2 first with ⟨toFirst, firstWithin⟩
  rcases parse_drop_eq_ok_iff.2 second with ⟨toSecond, secondWithin⟩
  simp only [toFirst, Prod.mk.injEq, Except.ok.injEq] at toSecond
  have lengths := congrArg List.length toSecond.2
  simp only [List.length_drop] at lengths
  exact ⟨toSecond.1, by omega⟩

end Reader

open Reader (Derives DerivesAll DerivesBetween)

theorem readAll_of_tokenize {source : List Char} {tokens : List Token} (lexed : tokenize source = .ok tokens) :
    readAll source = (Reader.parseAll tokens).mapError (Fault.ofReader source) := by
  simp only [readAll, lexed, bind, Except.bind]
  cases Reader.parseAll tokens <;> rfl

theorem readAll_of_tokenize_error {source : List Char} {fault : Fault} (broken : tokenize source = .error fault) :
    readAll source = .error fault := by
  rw [readAll, broken]
  rfl

/-- A text is one value exactly if all its tokens together derive it. -/
theorem read_eq_ok_iff {source : List Char} {v : Value} :
    read source = .ok v ↔ ∃ tokens, tokenize source = .ok tokens ∧ Derives tokens v := by
  refine bind_eq_ok_iff.trans (exists_congr fun tokens => and_congr_right fun _ => ?_)
  have whole : Derives tokens v ↔ Reader.parse tokens = (.ok v, []) := by
    simp [Reader.parse_eq_ok_iff]
  rw [whole]
  split <;> simp_all [pure, Except.pure, throw, throwThe, MonadExceptOf.throw]

/-- A text is a program exactly if its tokens derive the forms of the program one after the other. -/
theorem readAll_eq_ok_iff {source : List Char} {vs : List Value} :
    readAll source = .ok vs ↔ ∃ tokens, tokenize source = .ok tokens ∧ DerivesAll tokens vs := by
  refine bind_eq_ok_iff.trans (exists_congr fun tokens => and_congr_right fun _ => ?_)
  rw [← Reader.parseAll_eq_ok_iff]
  cases Reader.parseAll tokens <;> simp [pure, Except.pure, throw, throwThe, MonadExceptOf.throw]

/-- The reader accepts exactly its grammar. From any position of any tokens it reads a value, and stops at a position,
    exactly if the tokens between derive the value; value and position are unique; a text is read as one value exactly if
    all its tokens derive this value, and as a program exactly if they derive its values in order. The last four parts say
    which values the quoted and the dotted forms of the grammar have. -/
theorem accepts_exactly_grammar :
    (∀ tokens i j v,
      (Reader.parse (tokens.drop i) = (.ok v, tokens.drop j) ∧ j ≤ tokens.length) ↔ DerivesBetween tokens i j v) ∧
    (∀ tokens i, {p : Value × Nat | DerivesBetween tokens i p.2 p.1}.Subsingleton) ∧
    (∀ source v, read source = .ok v ↔ ∃ tokens, tokenize source = .ok tokens ∧ Derives tokens v) ∧
    (∀ source vs, readAll source = .ok vs ↔ ∃ tokens, tokenize source = .ok tokens ∧ DerivesAll tokens vs) ∧
    (∀ v, Reader.quotation v = .list [.sym "quote", v]) ∧
    (∀ heads items, Value.joinTail heads (.list items) = .list (heads ++ items)) ∧
    (∀ heads more tail, Value.joinTail heads (.dotted more tail) = .dotted (heads ++ more) tail) ∧
    (∀ heads tail, tail.IsList ∨ Value.joinTail heads tail = .dotted heads tail) := by
  refine ⟨fun _ _ _ _ => Reader.parse_drop_eq_ok_iff, ?_, fun _ _ => read_eq_ok_iff, fun _ _ => readAll_eq_ok_iff,
    fun _ => rfl, fun _ _ => rfl, fun _ _ _ => rfl, ?_⟩
  · intro tokens i p first q second
    rcases Reader.derivesBetween_unique first second with ⟨sameValue, sameEnd⟩
    exact Prod.ext sameValue sameEnd
  · intro heads tail
    by_cases isList : tail.IsList
    · exact .inl isList
    · exact .inr (Value.joinTail_of_not_isList isList)

end SmallScheme
