import SmallScheme.Proofs.FirstRefusal

/-
Module: SmallScheme.Proofs.Landmarks
Purpose: Where parse errors stand. Whatever the reader has open was opened by a token it has taken, so a failure names one
  of the tokens of the text, or none and is reported at the end; and the scanner fails at a double quote that opens a
  string. A place identifies such an offset: counted off in the lines of the text it gives back the offset, and of two
  offsets the later has the later place.
Main exports: Failure.Among, among_of_run, among_of_parseAll, Landmark, Landmark.exists_of_among,
  places_identify_offsets
-/

namespace SmallScheme

namespace Reader

/-- A failure that names no token but one of these. -/
def Failure.Among (ts : List Token) : Failure → Prop
  | .unreadable _ (some t) => t ∈ ts
  | .unreadable _ none | .numeralTooLong _ => True

theorem Failure.Among.mono {ts us : List Token} {e : Failure} (among : e.Among ts) (more : ts ⊆ us) : e.Among us := by
  cases e with
  | numeralTooLong digits => trivial
  | unreadable problem token? =>
      cases token? with
      | none => trivial
      | some t => exact more among

theorem among_of_at {ts : List Token} {t : Token} {e : Failure} (standsAt : e.At t) (member : t ∈ ts) : e.Among ts := by
  cases e with
  | numeralTooLong digits => trivial
  | unreadable problem token? =>
      obtain ⟨rfl, -, -⟩ := standsAt
      exact member

/-- When the tokens run out, the innermost open list is reported, which one of them has opened. -/
theorem among_atEnd {ts : List Token} {state : State} (leads : Leads ts state) : state.atEnd.Among ts := by
  cases leads with
  | closing opens derived => trivial
  | reading opens =>
      cases opens with
      | nil | quote | tail => trivial
      | items outer openLexeme derived => exact List.mem_append_right _ List.mem_cons_self

/-- Reading one value fails at one of the tokens, or at their end. -/
theorem among_of_run {ts us rest : List Token} {state : State} {e : Failure} (leads : Leads ts state)
    (failed : run state us = (.error e, rest)) : e.Among (ts ++ us) := by
  induction us generalizing ts state with
  | nil =>
      cases failed
      rw [List.append_nil]
      exact among_atEnd leads
  | cons t us ih =>
      rw [run] at failed
      split at failed
      · cases failed
      · rename_i next taken
        have onward : Leads (ts ++ [t]) next := Step.follows_of_takes leads (step_eq_ok_iff.1 taken)
        simpa using ih onward failed
      · rename_i refused
        cases failed
        exact among_of_at (at_of_step_eq_error refused) (by simp)

/-- Reading a program fails at one of its tokens, or at their end. -/
theorem among_of_parseAll {ts : List Token} {e : Failure} (failed : parseAll ts = .error e) : e.Among ts := by
  rcases parseAll_eq_error failed with ⟨p, taken, rfl⟩ | ⟨before, t, after, p, rfl, taken, refused⟩
  · have start : Progress.Covers [] {} := ⟨[], [], rfl, .nil, leads_initial⟩
    obtain ⟨done, current, rfl, derived, leads⟩ := Progress.covers_of_foldlM start taken
    exact (among_atEnd leads).mono (List.subset_append_right done current)
  · exact among_of_at (at_of_step_eq_error refused) (by simp)

end Reader

/-!
### Places in a text
-/

/-- The offsets at which parse errors stand. -/
inductive Landmark (source : List Char) : Nat → Prop where
  /-- The start of a token. -/
  | token {before after : List Char} {lexeme : Lexeme} (split : source = before ++ (lexeme.chars ++ after))
      (valid : lexeme.Valid) (found : ⟨lexeme, before.length⟩ ∈ (lex source).tokens) : Landmark source before.length
  /-- The double quote that opens a string which is not terminated. -/
  | openQuote {before rest : List Char} (split : source = before ++ '"' :: rest) (never : ¬ Closes rest)
      (unclosed : (lex source).unclosed? = some before.length) : Landmark source before.length
  /-- The end of the text. -/
  | finish : Landmark source source.length

namespace Landmark

variable {source : List Char} {offset : Nat}

theorem le (landmark : Landmark source offset) : offset ≤ source.length := by
  cases landmark with
  | token split | openQuote split =>
      rw [split, List.length_append]
      exact Nat.le_add_right ..
  | finish => exact Nat.le_refl _

theorem of_mem_lex {t : Token} (found : t ∈ (lex source).tokens) : Landmark source t.offset := by
  obtain ⟨valid, before, after, split, place⟩ := valid_and_text_at_of_mem_lex found
  obtain ⟨lexeme, offset⟩ := t
  cases place
  exact .token split valid found

theorem of_unclosed (unclosed : (lex source).unclosed? = some offset) : Landmark source offset := by
  cases lexed : lex source with
  | mk tokens unclosed? =>
      rw [lexed] at unclosed
      cases unclosed
      obtain ⟨before, rest, split, tiling, rfl, never⟩ := lex_eq_iff_breaksOff.1 lexed
      exact .openQuote split never (by rw [lexed])

/-- A failure among the tokens of a text is reported at a landmark of it. -/
theorem exists_of_among {e : Reader.Failure} {problem : Reader.Problem} {place : Text.Place}
    (among : e.Among (lex source).tokens) (same : Fault.ofReader source e = .unreadable problem place) :
    ∃ offset, Landmark source offset ∧ place = Text.Place.ofOffset source offset := by
  cases e with
  | numeralTooLong digits => cases same
  | unreadable problem token? =>
      cases same
      cases token? with
      | none => exact ⟨source.length, .finish, rfl⟩
      | some t => exact ⟨t.offset, .of_mem_lex among, rfl⟩

end Landmark

theorem exists_landmark_of_tokenize {source : List Char} {problem : Reader.Problem} {place : Text.Place}
    (fails : tokenize source = .error (.unreadable problem place)) :
    ∃ offset, Landmark source offset ∧ place = Text.Place.ofOffset source offset := by
  obtain ⟨tokens, offset, lexed, same⟩ := tokenize_eq_error_iff.1 fails
  cases same
  exact ⟨offset, .of_unclosed (by rw [lexed]), rfl⟩

theorem exists_landmark_of_read {source : List Char} {problem : Reader.Problem} {place : Text.Place}
    (fails : read source = .error (.unreadable problem place)) :
    ∃ offset, Landmark source offset ∧ place = Text.Place.ofOffset source offset := by
  rcases bind_eq_error_iff.1 fails with broken | ⟨tokens, lexed, parsed⟩
  · exact exists_landmark_of_tokenize broken
  · have found : (lex source).tokens = tokens := by rw [tokenize_eq_ok_iff.1 lexed]
    split at parsed
    · rename_i failure rest failed
      have among := Reader.among_of_run Reader.leads_initial failed
      exact Landmark.exists_of_among (found ▸ among) (Except.error.inj parsed)
    · cases parsed
    · rename_i v t rest finished
      obtain ⟨taken, rfl, -⟩ := Reader.parse_eq_ok_iff.1 finished
      cases parsed
      exact ⟨t.offset, .of_mem_lex (by simp [found]), rfl⟩

theorem exists_landmark_of_readAll {source : List Char} {problem : Reader.Problem} {place : Text.Place}
    (fails : readAll source = .error (.unreadable problem place)) :
    ∃ offset, Landmark source offset ∧ place = Text.Place.ofOffset source offset := by
  rcases bind_eq_error_iff.1 fails with broken | ⟨tokens, lexed, _⟩
  · exact exists_landmark_of_tokenize broken
  · obtain ⟨token?, failed, rfl⟩ := exists_failure_of_readAll_eq_error lexed fails
    have among := Reader.among_of_parseAll failed
    have found : (lex source).tokens = tokens := by rw [tokenize_eq_ok_iff.1 lexed]
    exact Landmark.exists_of_among (found ▸ among) rfl

/-- Places identify offsets. The place of every offset of a text, whose line and column are at least one, counted off in the
    lines of the text gives back the offset, and it is the only place that does; of two offsets the later has the later
    place, on a later line or in a later column of the same line; and every parse error of the scanner or the reader stands
    at the place of an offset of the text, where a token starts, or a string begins that is not terminated, or the text
    ends. -/
theorem places_identify_offsets (source : List Char) :
    (∀ offset, offset ≤ source.length →
      1 ≤ (Text.Place.ofOffset source offset).line ∧ 1 ≤ (Text.Place.ofOffset source offset).column ∧
        ∀ place : Text.Place, place.offset? source = some offset ↔ place = Text.Place.ofOffset source offset) ∧
    (∀ p q, p < q → q ≤ source.length →
      (Text.Place.ofOffset source p).line < (Text.Place.ofOffset source q).line ∨
        (Text.Place.ofOffset source p).line = (Text.Place.ofOffset source q).line ∧
          (Text.Place.ofOffset source p).column < (Text.Place.ofOffset source q).column) ∧
    ∀ problem place,
      tokenize source = .error (.unreadable problem place) ∨ read source = .error (.unreadable problem place) ∨
        readAll source = .error (.unreadable problem place) →
      ∃ offset, offset ≤ source.length ∧ Landmark source offset ∧ place = Text.Place.ofOffset source offset := by
  refine ⟨fun offset within => ⟨Nat.le_add_left .., Nat.le_add_left .., fun place => ?_⟩,
    fun p q earlier within => Text.Place.ofOffset_lt earlier within, fun problem place fails => ?_⟩
  · rw [Text.Place.offset?_eq_some_iff]
    exact and_iff_right within
  · have stands : ∃ offset, Landmark source offset ∧ place = Text.Place.ofOffset source offset := by
      rcases fails with broken | refused | refused
      · exact exists_landmark_of_tokenize broken
      · exact exists_landmark_of_read refused
      · exact exists_landmark_of_readAll refused
    obtain ⟨offset, landmark, same⟩ := stands
    exact ⟨offset, landmark.le, landmark, same⟩

/-- Two lists that are not closed, the inner one on the second line. -/
def openListsSample : List Char :=
  "(a\n (b c".toList

theorem places_identify_offsets_openListsSample :
    readAll openListsSample = .error (.unreadable .unmatchedOpen ⟨2, 2⟩) ∧
    (∃ offset, offset ≤ openListsSample.length ∧ Landmark openListsSample offset ∧
      (⟨2, 2⟩ : Text.Place) = Text.Place.ofOffset openListsSample offset) ∧
    4 ≤ openListsSample.length ∧ (∀ place : Text.Place, place.offset? openListsSample = some 4 ↔ place = ⟨2, 2⟩) ∧
    (Text.Place.ofOffset openListsSample 2).line < (Text.Place.ofOffset openListsSample 4).line := by
  obtain ⟨identified, ordered, reported⟩ := places_identify_offsets openListsSample
  have fails : readAll openListsSample = .error (.unreadable .unmatchedOpen ⟨2, 2⟩) := by decide +kernel
  have within : 4 ≤ openListsSample.length := by decide
  have sameColumn : Text.Place.ofOffset openListsSample 4 = ⟨2, 2⟩ := by decide
  refine ⟨fails, reported _ _ (.inr (.inr fails)), within, sameColumn ▸ (identified 4 within).2.2, ?_⟩
  exact (ordered 2 4 (by decide) within).resolve_right (by decide)

end SmallScheme
