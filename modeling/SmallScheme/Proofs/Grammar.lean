import SmallScheme.Proofs.Data
import SmallScheme.Proofs.Except
import SmallScheme.Reader.Machine

/-
Module: SmallScheme.Proofs.Grammar
Purpose: The grammar of program texts, as a relation between tokens and values, and the completeness of the reader
  for it: tokens that derive a value are taken one after the other, whatever is open around them and whatever
  follows, and lead to the delivery of this value. Words and string literals have relations of their own, which
  decide what the reader makes of a single token.
Main exports: WordDenotes, BodyDenotes, Derives, DerivesAll, wordValue_eq_ok_iff, unescape_eq_ok_iff, State.Takes,
  step_eq_ok_iff, Derives.run
-/

namespace SmallScheme.Reader

open Number (InRange Numeral)

/-- What a word denotes. -/
inductive WordDenotes : List Char → Value → Prop where
  | truth : WordDenotes ['#', 't'] (.bool true)
  | falsity : WordDenotes ['#', 'f'] (.bool false)
  | number {chars : List Char} {numeral : Numeral} (written : numeral.Written chars)
      (short : numeral.digits.length ≤ Number.maxDigits) (fits : InRange numeral.value) :
      WordDenotes chars (.num numeral.value)
  | symbol {chars : List Char} (word : SymbolWord chars) : WordDenotes chars (.sym (String.ofList chars))

/-- What the body of a string literal denotes: characters that are no backslash stand for themselves, and an escape
    for one character. -/
inductive BodyDenotes : List Char → List Char → Prop where
  | nil : BodyDenotes [] []
  | plain {c : Char} {cs text : List Char} (plain : c ≠ '\\') (rest : BodyDenotes cs text) :
      BodyDenotes (c :: cs) (c :: text)
  | escape {c d : Char} {cs text : List Char} (known : escapeValue? c = some d) (rest : BodyDenotes cs text) :
      BodyDenotes ('\\' :: c :: cs) (d :: text)

mutual

/-- The tokens derive the value. -/
inductive Derives : List Token → Value → Prop where
  | word {t : Token} {chars : List Char} {v : Value} (lexeme : t.lexeme = .word chars)
      (denotes : WordDenotes chars v) : Derives [t] v
  | string {t : Token} {body text : List Char} (lexeme : t.lexeme = .string body)
      (denotes : BodyDenotes body text) : Derives [t] (.str (String.ofList text))
  | quote {t : Token} {ts : List Token} {v : Value} (lexeme : t.lexeme = .quote) (datum : Derives ts v) :
      Derives (t :: ts) (quotation v)
  | list {opened closed : Token} {ts : List Token} {items : List Value} (openLexeme : opened.lexeme = .openParen)
      (derived : DerivesAll ts items) (closeLexeme : closed.lexeme = .closeParen) :
      Derives (opened :: (ts ++ [closed])) (.list items)
  | dotted {opened dot closed : Token} {ts us : List Token} {heads : List Value} {tail : Value}
      (openLexeme : opened.lexeme = .openParen) (headsDerived : DerivesAll ts heads) (nonempty : heads ≠ [])
      (dotLexeme : dot.lexeme = .dot) (tailDerived : Derives us tail) (closeLexeme : closed.lexeme = .closeParen) :
      Derives (opened :: (ts ++ dot :: (us ++ [closed]))) (Value.joinTail heads tail)

/-- The tokens derive the values, one after the other. -/
inductive DerivesAll : List Token → List Value → Prop where
  | nil : DerivesAll [] []
  | cons {ts us : List Token} {v : Value} {vs : List Value} (first : Derives ts v) (rest : DerivesAll us vs) :
      DerivesAll (ts ++ us) (v :: vs)

end

/-!
### Single tokens
-/

/-- A word is read as a value exactly if it denotes this value. -/
theorem wordValue_eq_ok_iff {t : Token} {chars : List Char} {v : Value} :
    wordValue t chars = .ok v ↔ WordDenotes chars v := by
  constructor
  · intro read
    unfold wordValue at read
    split at read
    · rename_i isTrue
      cases read
      exact isTrue ▸ .truth
    split at read
    · rename_i isFalse
      cases read
      exact isFalse ▸ .falsity
    split at read
    · rename_i neTrue neFalse numeral recognised
      split at read
      · rename_i n converted
        cases read
        rcases Numeral.toNumber_eq_ok_iff.1 converted with ⟨short, fits, rfl⟩
        exact .number (Numeral.ofChars?_eq_some_iff.1 recognised) short fits
      · cases read
      · cases read
    · rename_i neTrue neFalse _ unrecognised
      split at read
      · rename_i atom
        cases read
        exact .symbol ⟨atom, neTrue, neFalse, Numeral.ofChars?_eq_none_iff.1 unrecognised⟩
      · cases read
  · intro denotes
    cases denotes with
    | truth => rfl
    | falsity => rfl
    | @number chars numeral written short fits =>
        have recognised := Numeral.ofChars?_eq_some_iff.2 written
        have neTrue : chars ≠ ['#', 't'] := by rintro rfl; cases recognised
        have neFalse : chars ≠ ['#', 'f'] := by rintro rfl; cases recognised
        simp [wordValue, neTrue, neFalse, recognised, Numeral.toNumber_eq_ok_iff.2 ⟨short, fits, rfl⟩]
    | symbol word =>
        have unrecognised := Numeral.ofChars?_eq_none_iff.2 word.not_numeral
        simp [wordValue, word.ne_true, word.ne_false, unrecognised, word.atom]

/-- The body of a string literal is read as a text exactly if it denotes this text. -/
theorem unescape_eq_ok_iff {body text : List Char} : unescape body = .ok text ↔ BodyDenotes body text := by
  fun_induction unescape body generalizing text with
  | case1 =>
      constructor
      · rintro ⟨⟩
        exact .nil
      · rintro ⟨⟩
        rfl
  | case2 =>
      constructor
      · rintro ⟨⟩
      · intro denotes
        cases denotes with
        | plain plain => exact absurd rfl plain
  | case3 c cs unknown =>
      constructor
      · rintro ⟨⟩
      · intro denotes
        cases denotes with
        | plain plain => exact absurd rfl plain
        | escape known => simp [unknown] at known
  | case4 c cs d known ih =>
      constructor
      · intro read
        rcases map_eq_ok_iff.1 read with ⟨rest, restRead, rfl⟩
        exact .escape known (ih.1 restRead)
      · intro denotes
        cases denotes with
        | plain plain => exact absurd rfl plain
        | escape known' rest =>
            rw [ih.2 rest]
            simp_all [Except.map]
  | case5 c cs notAlone notEscape ih =>
      have plain : c ≠ '\\' := by
        rintro rfl
        cases cs with
        | nil => exact notAlone rfl rfl
        | cons d ds => exact notEscape d ds rfl rfl
      constructor
      · intro read
        rcases map_eq_ok_iff.1 read with ⟨rest, restRead, rfl⟩
        exact .plain plain (ih.1 restRead)
      · intro denotes
        cases denotes with
        | plain _ rest =>
            rw [ih.2 rest]
            rfl
        | escape => exact absurd rfl plain

theorem stringValue_eq_ok_iff {t : Token} {body : List Char} {v : Value} :
    stringValue t body = .ok v ↔ ∃ text, BodyDenotes body text ∧ .str (String.ofList text) = v := by
  unfold stringValue
  cases read : unescape body with
  | ok text => simp [← unescape_eq_ok_iff, read]
  | error c => simp [← unescape_eq_ok_iff, read]

/-!
### Single steps

Everything that a token can do, one rule for each way in which the reader takes it.
-/

/-- The reader takes a token in a state, and this is what it leads to. -/
inductive State.Takes : State → Token → Step → Prop where
  | word {stack : List Frame} {t : Token} {chars : List Char} {v : Value} (lexeme : t.lexeme = .word chars)
      (denotes : WordDenotes chars v) : Takes (.reading stack) t (deliver v stack)
  | string {stack : List Frame} {t : Token} {body text : List Char} (lexeme : t.lexeme = .string body)
      (denotes : BodyDenotes body text) : Takes (.reading stack) t (deliver (.str (String.ofList text)) stack)
  | quote {stack : List Frame} {t : Token} (lexeme : t.lexeme = .quote) :
      Takes (.reading stack) t (.more (.reading (.quote :: stack)))
  | openParen {stack : List Frame} {t : Token} (lexeme : t.lexeme = .openParen) :
      Takes (.reading stack) t (.more (.reading (.items t [] :: stack)))
  | closeItems {opened : Token} {before : List Value} {stack : List Frame} {t : Token}
      (lexeme : t.lexeme = .closeParen) :
      Takes (.reading (.items opened before :: stack)) t (deliver (.list before.reverse) stack)
  | dot {opened : Token} {before : List Value} {stack : List Frame} {t : Token} (lexeme : t.lexeme = .dot)
      (nonempty : before ≠ []) :
      Takes (.reading (.items opened before :: stack)) t (.more (.reading (.tail before.reverse :: stack)))
  | closeTail {heads : List Value} {tail : Value} {stack : List Frame} {t : Token} (lexeme : t.lexeme = .closeParen) :
      Takes (.closing heads tail stack) t (deliver (Value.joinTail heads tail) stack)

/-- A step succeeds exactly by one of the rules. -/
theorem step_eq_ok_iff {state : State} {t : Token} {step : Step} :
    state.step t = .ok step ↔ state.Takes t step := by
  constructor
  · intro taken
    cases state with
    | closing heads tail stack =>
        cases lexeme : t.lexeme <;> simp only [State.step, lexeme, Except.ok.injEq, reduceCtorEq] at taken
        subst taken
        exact .closeTail lexeme
    | reading stack =>
        cases lexeme : t.lexeme with
        | word chars =>
            simp only [State.step, lexeme] at taken
            rcases map_eq_ok_iff.1 taken with ⟨v, read, rfl⟩
            exact .word lexeme (wordValue_eq_ok_iff.1 read)
        | string body =>
            simp only [State.step, lexeme] at taken
            rcases map_eq_ok_iff.1 taken with ⟨v, read, rfl⟩
            rcases stringValue_eq_ok_iff.1 read with ⟨text, denotes, rfl⟩
            exact .string lexeme denotes
        | quote =>
            simp only [State.step, lexeme, Except.ok.injEq] at taken
            exact taken ▸ .quote lexeme
        | openParen =>
            simp only [State.step, lexeme, Except.ok.injEq] at taken
            exact taken ▸ .openParen lexeme
        | closeParen =>
            simp only [State.step, lexeme] at taken
            split at taken <;> cases taken
            exact .closeItems lexeme
        | dot =>
            simp only [State.step, lexeme] at taken
            split at taken <;> cases taken
            rename_i notEmpty
            exact .dot lexeme notEmpty
  · intro takes
    cases takes with
    | word lexeme denotes => simp [State.step, lexeme, wordValue_eq_ok_iff.2 denotes, Except.map]
    | string lexeme denotes =>
        simp [State.step, lexeme, stringValue_eq_ok_iff.2 ⟨_, denotes, rfl⟩, Except.map]
    | @dot opened before stack t lexeme nonempty =>
        cases before with
        | nil => exact absurd rfl nonempty
        | cons v before => simp [State.step, lexeme]
    | quote lexeme | openParen lexeme | closeItems lexeme | closeTail lexeme => simp [State.step, lexeme]

/-!
### Completeness

The tokens of a value lead from any stack to the delivery of the value to that stack, and those of several values
move them all into the innermost open list. The two statements hold by induction on the derivation; the dotted form is
where both are needed, first for the heads and then, with the heads set aside, for the tail.
-/

/-- Goes on after a step with the tokens that are left. -/
def resume : Step → List Token → Except Failure Value × List Token
  | .finished v, rest => (.ok v, rest)
  | .more state, rest => run state rest

theorem run_cons_of_takes {state : State} {t : Token} {step : Step} (takes : state.Takes t step)
    (rest : List Token) : run state (t :: rest) = resume step rest := by
  have taken := step_eq_ok_iff.2 takes
  cases step <;> simp [run, taken, resume]

mutual

/-- Tokens that derive a value are read as this value. -/
theorem Derives.run : ∀ {ts : List Token} {v : Value}, Derives ts v → ∀ (stack : List Frame) (rest : List Token),
    Reader.run (.reading stack) (ts ++ rest) = resume (deliver v stack) rest
  | _, _, .word lexeme denotes, _, rest => run_cons_of_takes (.word lexeme denotes) rest
  | _, _, .string lexeme denotes, _, rest => run_cons_of_takes (.string lexeme denotes) rest
  | _, _, .quote lexeme datum, stack, rest => by
      rw [List.cons_append, run_cons_of_takes (.quote lexeme), resume, Derives.run datum, deliver]
  | _, _, @Derives.list opened closed ts items openLexeme derived closeLexeme, stack, rest => by
      have ended : State.Takes (.reading (.items opened (items.reverse ++ []) :: stack)) closed
          (deliver (.list items) stack) := by
        simpa using @State.Takes.closeItems opened items.reverse stack closed closeLexeme
      rw [List.cons_append, run_cons_of_takes (.openParen openLexeme), resume, List.append_assoc,
        DerivesAll.run derived, List.singleton_append, run_cons_of_takes ended]
  | _, _, @Derives.dotted opened dot closed ts us heads tail openLexeme headsDerived nonempty dotLexeme tailDerived
      closeLexeme, stack, rest => by
      have dotted : State.Takes (.reading (.items opened (heads.reverse ++ []) :: stack)) dot
          (.more (.reading (.tail heads :: stack))) := by
        simpa using @State.Takes.dot opened heads.reverse stack dot dotLexeme (by simpa using nonempty)
      rw [List.cons_append, run_cons_of_takes (.openParen openLexeme), resume, List.append_assoc,
        DerivesAll.run headsDerived, List.cons_append, run_cons_of_takes dotted, resume, List.append_assoc,
        Derives.run tailDerived, deliver, resume, List.singleton_append,
        run_cons_of_takes (.closeTail closeLexeme)]

/-- Tokens that derive values add these values to the innermost open list. -/
theorem DerivesAll.run : ∀ {ts : List Token} {vs : List Value}, DerivesAll ts vs →
    ∀ {opened : Token} {before : List Value} {stack : List Frame} {rest : List Token},
      Reader.run (.reading (.items opened before :: stack)) (ts ++ rest) =
        Reader.run (.reading (.items opened (vs.reverse ++ before) :: stack)) rest
  | _, _, .nil, _, _, _, _ => by simp
  | _, _, @DerivesAll.cons ts us v vs first others, _, before, _, _ => by
      rw [List.append_assoc, Derives.run first, deliver, resume, DerivesAll.run others, List.reverse_cons,
        List.append_assoc, List.singleton_append]

end

end SmallScheme.Reader
