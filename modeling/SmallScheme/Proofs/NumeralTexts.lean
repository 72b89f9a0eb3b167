import SmallScheme.Proofs.Coercions
import SmallScheme.Proofs.RoundTrip

/-
Module: SmallScheme.Proofs.NumeralTexts
Purpose: The texts of numbers. The reader reads a text as a number exactly if the text is one numeral with white space and
  comments around it; a numeric procedure takes a string as a number exactly if the string is one numeral with white space
  around it. In texts without semicolons there are no comments, so the two agree.
Main exports: Gap.blank_iff, read_eq_num_iff, toNumber_str_eq_ok_iff, toNumber_str_iff_read
-/

namespace SmallScheme

open Number (InRange Numeral)
open Reader (Derives WordDenotes)

/-!
### Between tokens
-/

/-- Without semicolons there are no comments, and a gap is white space. -/
theorem Gap.blank_iff {cs : List Char} (plain : ';' ∉ cs) : Gap cs ↔ ∀ c ∈ cs, Text.isBlank c = true := by
  constructor
  · intro between
    induction between with
    | nil => simp
    | blank blank rest ih =>
        rw [List.mem_cons, not_or] at plain
        exact List.forall_mem_cons.2 ⟨blank, ih plain.2⟩
    | comment oneLine rest ih => exact absurd List.mem_cons_self plain
  · intro blank
    clear plain
    induction cs with
    | nil => exact .nil
    | cons c cs ih =>
        obtain ⟨first, others⟩ := List.forall_mem_cons.1 blank
        exact .blank first (ih others)

/-- A gap ends the word before it. -/
theorem Gap.startsApart {gap : List Char} (between : Gap gap) : StartsApart gap := by
  cases between with
  | nil => simp [StartsApart]
  | blank blank rest =>
      rintro c ⟨⟩
      simp [endsWord, blank]
  | comment oneLine rest =>
      rintro c ⟨⟩
      rfl

/-- A text is tiled with one token exactly if it has gaps on both sides of a valid lexeme, and a word ends where it must. -/
theorem tiling_singleton_iff {cs : List Char} {t : Token} :
    Tiling 0 cs [t] ↔ t.lexeme.Valid ∧ ∃ before after, cs = before ++ (t.lexeme.chars ++ after) ∧ Gap before ∧
      Gap after ∧ t.offset = before.length := by
  constructor
  · intro tiling
    cases tiling with
    | @token _ before after _ _ between valid place maximal apart others =>
        cases others with
        | gap following => exact ⟨valid, before, after, rfl, between, following, by simpa using place⟩
  · rintro ⟨valid, before, after, rfl, between, following, place⟩
    exact .token between valid (by simpa using place) (fun _ => following.startsApart) (by simp) (.gap following)

/-!
### Numerals
-/

/-- The words that denote a number are its numerals that are short enough to be converted. -/
theorem Reader.wordDenotes_num_iff {chars : List Char} {n : Int} :
    WordDenotes chars (.num n) ↔ ∃ numeral : Numeral, numeral.Written chars ∧
      numeral.digits.length ≤ Number.maxDigits ∧ InRange numeral.value ∧ numeral.value = n := by
  constructor
  · intro denotes
    cases denotes with
    | number written short fits => exact ⟨_, written, short, fits, rfl⟩
  · rintro ⟨numeral, written, short, fits, rfl⟩
    exact .number written short fits

/-- A number is derived by a word alone. -/
theorem Reader.derives_num_iff {ts : List Token} {n : Int} :
    Derives ts (.num n) ↔ ∃ t chars, ts = [t] ∧ t.lexeme = .word chars ∧ WordDenotes chars (.num n) := by
  constructor
  · generalize number : Value.num n = v
    intro derived
    cases derived with
    | word lexeme denotes => exact ⟨_, _, rfl, lexeme, denotes⟩
    | string | quote | list => cases number
    | @dotted _ _ _ _ _ heads tail => cases tail <;> cases number
  · rintro ⟨t, chars, rfl, lexeme, denotes⟩
    exact .word lexeme denotes

/-- A text is read as a number exactly if it is a word that denotes this number, between gaps, and perhaps a comment
    without end behind them. -/
theorem read_eq_num_iff {source : List Char} {n : Int} :
    read source = .ok (.num n) ↔ ∃ before chars after last, source = before ++ (chars ++ after) ++ last ∧
      WordDenotes chars (.num n) ∧ Gap before ∧ Gap after ∧ OpenEnd last := by
  simp only [read_eq_ok_iff, tokenize_eq_ok_iff, lex_eq_iff_decomposition, Reader.derives_num_iff]
  constructor
  · rintro ⟨_, ⟨tiled, last, rfl, tiling, ending⟩, t, chars, rfl, lexeme, denotes⟩
    obtain ⟨-, before, after, rfl, between, following, -⟩ := tiling_singleton_iff.1 tiling
    rw [lexeme]
    exact ⟨before, chars, after, last, rfl, denotes, between, following, ending⟩
  · rintro ⟨before, chars, after, last, rfl, denotes, between, following, ending⟩
    let t : Token := ⟨.word chars, before.length⟩
    have tiling : Tiling 0 (before ++ (chars ++ after)) [t] := tiling_singleton_iff.2
      ⟨Lexeme.valid_of_wordDenotes denotes, before, after, rfl, between, following, rfl⟩
    exact ⟨[t], ⟨_, last, rfl, tiling, ending⟩, t, chars, rfl, rfl, denotes⟩

/-- A string is taken as a number exactly if it is, without the white space at its ends, a word that denotes this
    number. -/
theorem toNumber_str_eq_ok_iff {s : String} {n : Int} :
    toNumber (.str s) = .ok n ↔ WordDenotes (Text.trim s.toList) (.num n) := by
  rw [toNumber_eq_ok_iff, Reader.wordDenotes_num_iff]
  constructor
  · intro taken
    cases taken with
    | text written short fits => exact ⟨_, written, short, fits, rfl⟩
  · rintro ⟨numeral, written, short, fits, rfl⟩
    exact .text written short fits

/-- A string without semicolons is taken as a number by the numeric procedures exactly if the reader reads it as this
    number. -/
theorem toNumber_str_iff_read (s : String) (plain : ';' ∉ s.toList) (n : Int) :
    toNumber (.str s) = .ok n ↔ read s.toList = .ok (.num n) := by
  rw [toNumber_str_eq_ok_iff, read_eq_num_iff]
  constructor
  · intro denotes
    obtain ⟨before, after, split, blankBefore, blankAfter⟩ := Text.exists_append_trim s.toList
    rw [split] at plain
    simp only [List.mem_append, not_or] at plain
    refine ⟨before, _, after, [], by simpa using split, denotes, ?_, ?_, .inl rfl⟩
    · exact (Gap.blank_iff plain.1).2 blankBefore
    · exact (Gap.blank_iff plain.2.2).2 blankAfter
  · rintro ⟨before, chars, after, last, split, denotes, between, following, rfl | ⟨text, rfl, -⟩⟩
    · rw [split] at plain
      simp only [List.append_nil, List.mem_append, not_or] at plain
      have visible : ∀ c ∈ chars, Text.isBlank c = false := fun c member =>
        isBlank_of_not_endsWord ((Lexeme.valid_of_wordDenotes denotes).2.2 c member)
      have trimmed : Text.trim s.toList = chars := (Text.trim_eq_iff visible).2
        ⟨before, after, by simpa using split, (Gap.blank_iff plain.1).1 between, (Gap.blank_iff plain.2.2).1 following⟩
      rwa [trimmed]
    · exact absurd (by simp [split]) plain

/-- The least number between an ideographic blank and a line separator, with leading zeros, and a digit that is no ASCII
    digit. -/
theorem toNumber_str_iff_read_blanksSample :
    (';' ∉ "\u3000-009223372036854775808\n\u2028".toList ∧
      toNumber (.str "\u3000-009223372036854775808\n\u2028") = .ok Number.least ∧
      read "\u3000-009223372036854775808\n\u2028".toList = .ok (.num Number.least)) ∧
    ';' ∉ "\u0663".toList ∧ read "\u0663".toList ≠ .ok (.num 3) := by
  have plain : ';' ∉ "\u3000-009223372036854775808\n\u2028".toList := by decide
  have taken : toNumber (.str "\u3000-009223372036854775808\n\u2028") = .ok Number.least := by rfl
  have noSemicolon : ';' ∉ "\u0663".toList := by decide
  refine ⟨⟨plain, taken, (toNumber_str_iff_read _ plain _).1 taken⟩, noSemicolon, fun found => ?_⟩
  exact nomatch (toNumber_str_iff_read _ noSemicolon 3).2 found

end SmallScheme
