import Mathlib.Logic.ExistsUnique
import SmallScheme.Proofs.Scanning
import SmallScheme.Reader

/-
Module: SmallScheme.Proofs.Decomposition
Purpose: The tokens of a text are its only decomposition. A text is tiled by gaps and tokens in turn: a gap is white space
  and finished comments, a token has a text that is valid for its kind, a word goes on for as long as it can, and two words
  have a gap between them. Every text has a tiled part, behind which there is either the end, perhaps in a comment, or a
  double quote from which no string literal starts. The scanner finds the tokens of any tiling, so there is only one.
Main exports: Gap, Lexeme.Valid, Tiling, Decomposition, BreaksOff, Front, front, exists_tiling, Tiling.scans,
  lex_eq_iff_decomposition, lex_eq_iff_breaksOff, lex_computes_decomposition
-/

namespace SmallScheme

/-!
### Tilings
-/

/-- White space and comments, each comment ended by its line feed. -/
inductive Gap : List Char → Prop where
  | nil : Gap []
  | blank {c : Char} {cs : List Char} (blank : Text.isBlank c = true) (rest : Gap cs) : Gap (c :: cs)
  | comment {text cs : List Char} (oneLine : '\n' ∉ text) (rest : Gap cs) : Gap (';' :: (text ++ '\n' :: cs))

/-- What may be left of a text behind its last token and gap: nothing, or a comment that has no end. -/
def OpenEnd (cs : List Char) : Prop :=
  cs = [] ∨ ∃ text, cs = ';' :: text ∧ '\n' ∉ text

/-- The text behind a double quote completes a string literal. -/
def Closes (cs : List Char) : Prop :=
  ∃ body more, cs = body ++ '"' :: more ∧ StringBody body

/-- A word or the dot. -/
def Lexeme.IsWord : Lexeme → Prop
  | .word _ | .dot => True
  | _ => False

/-- The lexemes whose text is valid for their kind: what stands between double quotes is the body of a string, and a word
    other than the dot consists of characters none of which ends a word. -/
def Lexeme.Valid : Lexeme → Prop
  | .string body => StringBody body
  | .word chars => chars ≠ [] ∧ chars ≠ ['.'] ∧ ∀ c ∈ chars, endsWord c = false
  | _ => True

/-- A text at an offset consists of gaps and these tokens in turn. A word ends only where it must, and there is a gap
    between two words. -/
inductive Tiling : Nat → List Char → List Token → Prop where
  | gap {offset : Nat} {gap : List Char} (between : Gap gap) : Tiling offset gap []
  | token {offset : Nat} {gap rest : List Char} {t : Token} {ts : List Token} (between : Gap gap)
      (valid : t.lexeme.Valid) (place : t.offset = offset + gap.length)
      (maximal : t.lexeme.IsWord → StartsApart rest)
      (apart : t.lexeme.IsWord → ∀ u ∈ ts.head?, u.lexeme.IsWord → t.stop < u.offset)
      (others : Tiling t.stop rest ts) : Tiling offset (gap ++ (t.lexeme.chars ++ rest)) (t :: ts)

/-- The whole text consists of gaps and these tokens in turn, the last gap perhaps ending in a comment that has no end. -/
def Decomposition (source : List Char) (tokens : List Token) : Prop :=
  ∃ tiled last, source = tiled ++ last ∧ Tiling 0 tiled tokens ∧ OpenEnd last

/-- The text consists of gaps and these tokens in turn up to an offset, where there is a double quote from which no string
    literal starts. -/
def BreaksOff (source : List Char) (tokens : List Token) (offset : Nat) : Prop :=
  ∃ tiled rest, source = tiled ++ '"' :: rest ∧ Tiling 0 tiled tokens ∧ offset = tiled.length ∧ ¬ Closes rest

theorem Gap.append {gap cs : List Char} (first : Gap gap) (second : Gap cs) : Gap (gap ++ cs) := by
  induction first with
  | nil => exact second
  | blank blank rest ih => exact .blank blank ih
  | comment oneLine rest ih =>
      rw [List.cons_append, List.append_assoc, List.cons_append]
      exact .comment oneLine ih

theorem Tiling.gap_append {offset : Nat} {gap cs : List Char} {ts : List Token} (first : Gap gap)
    (tiling : Tiling (offset + gap.length) cs ts) : Tiling offset (gap ++ cs) ts := by
  cases tiling with
  | gap between => exact .gap (first.append between)
  | token between valid place maximal apart others =>
      rw [← List.append_assoc]
      refine .token (first.append between) valid ?_ maximal apart others
      rw [place, List.length_append, Nat.add_assoc]

theorem Lexeme.Valid.chars_ne_nil {lexeme : Lexeme} (valid : lexeme.Valid) : lexeme.chars ≠ [] := by
  cases lexeme with
  | word chars => exact valid.1
  | _ => exact List.cons_ne_nil _ _

theorem StartsApart.of_append {cs rest : List Char} (starts : StartsApart (cs ++ rest)) : StartsApart cs := by
  intro c first
  exact starts c (by simp [List.head?_append, Option.mem_def.1 first])

/-- A valid word starts with a character that may go on with a word before it. -/
theorem Lexeme.not_startsApart {lexeme : Lexeme} (valid : lexeme.Valid) (isWord : lexeme.IsWord) (rest : List Char) :
    ¬ StartsApart (lexeme.chars ++ rest) := by
  intro starts
  cases lexeme with
  | word chars =>
      cases chars with
      | nil => exact valid.1 rfl
      | cons c chars =>
          have inside := valid.2.2 c List.mem_cons_self
          rw [starts c rfl] at inside
          cases inside
  | dot => exact absurd (starts '.' rfl) (by decide)
  | _ => exact isWord

/-- A word that ends only where it must has a gap before the next word. -/
theorem Tiling.apart_of_startsApart {offset : Nat} {cs : List Char} {ts : List Token} (tiling : Tiling offset cs ts)
    (starts : StartsApart cs) : ∀ u ∈ ts.head?, u.lexeme.IsWord → offset < u.offset := by
  cases tiling with
  | gap => simp
  | @token offset gap rest t ts between valid place maximal apart others =>
      rintro u ⟨⟩ isWord
      cases gap with
      | nil => exact absurd starts (Lexeme.not_startsApart valid isWord rest)
      | cons c gap =>
          rw [place, List.length_cons]
          omega

/-- The tokens of a tiled text lie in it and have valid lexemes. -/
theorem Tiling.valid_and_offset_lt {offset : Nat} {cs : List Char} {ts : List Token} (tiling : Tiling offset cs ts) :
    ∀ t ∈ ts, t.lexeme.Valid ∧ t.offset < offset + cs.length := by
  induction tiling with
  | gap => simp
  | @token offset gap rest t ts between valid place maximal apart others ih =>
      have nonempty := List.length_pos_iff.2 valid.chars_ne_nil
      refine List.forall_mem_cons.2 ⟨⟨valid, ?_⟩, fun u member => ⟨(ih u member).1, ?_⟩⟩
      · simp only [place, List.length_append]
        omega
      · have := (ih u member).2
        simp only [Token.stop, place, List.length_append] at this ⊢
        omega

/-- The text of each token of a tiled text stands at its offset. -/
theorem Tiling.exists_text_at {offset : Nat} {cs : List Char} {ts : List Token} (tiling : Tiling offset cs ts) :
    ∀ t ∈ ts, ∃ before after, cs = before ++ (t.lexeme.chars ++ after) ∧ t.offset = offset + before.length := by
  induction tiling with
  | gap => simp
  | @token offset gap rest t ts between valid place maximal apart others ih =>
      refine List.forall_mem_cons.2 ⟨⟨gap, rest, rfl, place⟩, fun u member => ?_⟩
      obtain ⟨before, after, rfl, further⟩ := ih u member
      refine ⟨gap ++ (t.lexeme.chars ++ before), after, by simp, ?_⟩
      simp only [further, Token.stop, place, List.length_append, Nat.add_assoc]

/-!
### Every text has a tiling

At a place where a token may start, a text can only begin in one of a few ways. In particular the one character from which
neither a gap nor a token may start is a double quote.
-/

/-- What a text can begin with at a place where a token may start. -/
inductive Front : List Char → Prop where
  | done {cs : List Char} (last : OpenEnd cs) : Front cs
  | gap {gap cs : List Char} (between : Gap gap) (nonempty : gap ≠ []) : Front (gap ++ cs)
  | token (lexeme : Lexeme) {cs : List Char} (valid : lexeme.Valid) (maximal : lexeme.IsWord → StartsApart cs) :
      Front (lexeme.chars ++ cs)
  | unclosed {cs : List Char} (never : ¬ Closes cs) : Front ('"' :: cs)

theorem startsApart_dropWhile (cs : List Char) : StartsApart (cs.dropWhile (!endsWord ·)) := by
  intro c first
  have stopped := List.head?_dropWhile_not (!endsWord ·) cs
  rw [first] at stopped
  simpa using stopped

theorem front_word {c : Char} {cs : List Char} (inside : endsWord c = false) : Front (c :: cs) := by
  let chars := (c :: cs).takeWhile (!endsWord ·)
  have split : chars ++ (c :: cs).dropWhile (!endsWord ·) = c :: cs := List.takeWhile_append_dropWhile
  have maximal := startsApart_dropWhile (c :: cs)
  have nonempty : chars ≠ [] := by simp [chars, inside]
  have allInside : ∀ d ∈ chars, endsWord d = false := by
    intro d member
    simpa using List.all_eq_true.1 List.all_takeWhile d member
  rw [← split]
  by_cases dot : chars = ['.']
  · rw [dot]
    exact .token .dot trivial fun _ => maximal
  · exact .token (.word chars) ⟨nonempty, dot, allInside⟩ fun _ => maximal

theorem front_comment (cs : List Char) : Front (';' :: cs) := by
  by_cases broken : '\n' ∈ cs
  · rcases List.eq_append_cons_of_mem broken with ⟨text, rest, rfl, oneLine⟩
    have whole : ';' :: (text ++ '\n' :: rest) = ';' :: (text ++ '\n' :: []) ++ rest := by simp
    rw [whole]
    exact .gap (.comment oneLine .nil) (List.cons_ne_nil _ _)
  · exact .done (.inr ⟨cs, rfl, broken⟩)

theorem front_string (cs : List Char) : Front ('"' :: cs) := by
  by_cases closes : Closes cs
  · rcases closes with ⟨body, more, rfl, units⟩
    have whole : '"' :: (body ++ '"' :: more) = (Lexeme.string body).chars ++ more := by simp [Lexeme.chars]
    rw [whole]
    exact .token (.string body) units fun isWord => isWord.elim
  · exact .unclosed closes

theorem front (cs : List Char) : Front cs := by
  cases cs with
  | nil => exact .done (.inl rfl)
  | cons c cs =>
      by_cases blank : Text.isBlank c = true
      · have between : Gap [c] := .blank blank .nil
        exact .gap between (List.cons_ne_nil _ _)
      by_cases comment : c = ';'
      · exact comment ▸ front_comment cs
      by_cases openParen : c = '('
      · exact openParen ▸ .token .openParen trivial fun isWord => isWord.elim
      by_cases closeParen : c = ')'
      · exact closeParen ▸ .token .closeParen trivial fun isWord => isWord.elim
      by_cases quote : c = '\''
      · exact quote ▸ .token .quote trivial fun isWord => isWord.elim
      by_cases string : c = '"'
      · exact string ▸ front_string cs
      exact front_word (by simp [endsWord, blank, comment, openParen, closeParen, quote, string])

/-- Every text is tiled up to its end, or up to a double quote from which no string literal starts. -/
theorem exists_tiling (cs : List Char) (offset : Nat) : ∃ tiled rest ts, cs = tiled ++ rest ∧ Tiling offset tiled ts ∧
    (OpenEnd rest ∨ ∃ more, rest = '"' :: more ∧ ¬ Closes more) := by
  -- A token takes several characters at once, so the induction is on the length: what is behind it is shorter.
  induction length : cs.length using Nat.strongRecOn generalizing cs offset with
  | ind n ih =>
      cases front cs with
      | done last => exact ⟨[], cs, [], rfl, .gap .nil, .inl last⟩
      | @unclosed more never => exact ⟨[], '"' :: more, [], rfl, .gap .nil, .inr ⟨more, rfl, never⟩⟩
      | @gap gap cs between nonempty =>
          have shorter : cs.length < n := by
            have := List.length_pos_iff.2 nonempty
            simp only [← length, List.length_append]
            omega
          rcases ih cs.length shorter cs (offset + gap.length) rfl with ⟨tiled, rest, ts, rfl, tiling, stops⟩
          exact ⟨gap ++ tiled, rest, ts, (List.append_assoc ..).symm, tiling.gap_append between, stops⟩
      | @token lexeme cs valid maximal =>
          let t : Token := ⟨lexeme, offset⟩
          have shorter : cs.length < n := by
            have := List.length_pos_iff.2 valid.chars_ne_nil
            simp only [← length, List.length_append]
            omega
          rcases ih cs.length shorter cs t.stop rfl with ⟨tiled, rest, ts, rfl, tiling, stops⟩
          -- The text behind the token is tiled only in part, and a word must end where this part begins.
          have ends : lexeme.IsWord → StartsApart tiled := fun isWord => (maximal isWord).of_append
          have tokenTiling : Tiling offset (lexeme.chars ++ tiled) (t :: ts) :=
            .token .nil valid rfl ends (fun isWord => tiling.apart_of_startsApart (ends isWord)) tiling
          exact ⟨lexeme.chars ++ tiled, rest, t :: ts, (List.append_assoc ..).symm, tokenTiling, stops⟩

/-!
### The scanner finds the tokens of a tiling
-/

/-- A gap has no tokens, and the scanner is between tokens behind it. -/
theorem Gap.scansShut {gap : List Char} (between : Gap gap) (offset : Nat) : ScansShut offset gap [] := by
  induction between generalizing offset with
  | nil => exact scansShut_nil
  | blank blank rest ih => exact (scansShut_blank blank).append (ih _)
  | @comment text cs oneLine rest ih =>
      have whole : ';' :: (text ++ '\n' :: cs) = ';' :: (text ++ ['\n']) ++ cs := by simp
      rw [whole]
      exact (scansShut_comment oneLine offset).append (ih _)

/-- The text of a lexeme other than a word is one token at once. -/
theorem Lexeme.Valid.scansShut {lexeme : Lexeme} (valid : lexeme.Valid) (notWord : ¬ lexeme.IsWord) (offset : Nat) :
    ScansShut offset lexeme.chars [⟨lexeme, offset⟩] := by
  cases lexeme with
  | openParen => exact scansShut_openParen
  | closeParen => exact scansShut_closeParen
  | quote => exact fun _ => rfl
  | string body => exact scansShut_string offset valid
  | word | dot => exact absurd trivial notWord

/-- The text of a word is one token as soon as it ends. -/
theorem Lexeme.Valid.scans {lexeme : Lexeme} (valid : lexeme.Valid) (offset : Nat) :
    Scans offset lexeme.chars [⟨lexeme, offset⟩] := by
  cases lexeme with
  | word chars =>
      rcases valid with ⟨nonempty, notDot, inside⟩
      have word : Scans offset chars _ := scans_word nonempty inside
      have reversed : chars.reverse ≠ ['.'] := by simpa [List.reverse_eq_iff] using notDot
      simpa [wordToken, reversed, Lexeme.chars] using word
  | dot =>
      have inside : ∀ c ∈ ['.'], endsWord c = false := List.forall_mem_singleton.2 rfl
      exact scans_word (List.cons_ne_nil _ _) inside
  | openParen | closeParen | quote | string => exact (Lexeme.Valid.scansShut valid id offset).scans

/-- The scanner finds the tokens of a tiling. -/
theorem Tiling.scans {offset : Nat} {cs : List Char} {ts : List Token} (tiling : Tiling offset cs ts) :
    Scans offset cs ts := by
  induction tiling with
  | gap between => exact (between.scansShut _).scans
  | @token offset gap rest t ts between valid place maximal apart others ih =>
      -- A word is not complete before the next character, any other token is: the two go on by different rules.
      have found : Scans t.offset (t.lexeme.chars ++ rest) (t :: ts) := by
        by_cases isWord : t.lexeme.IsWord
        · exact (valid.scans t.offset).append ih (maximal isWord)
        · exact (valid.scansShut isWord t.offset).append_scans ih
      rw [place] at found
      exact (between.scansShut offset).append_scans found

theorem lex_of_decomposition {source : List Char} {tokens : List Token} (whole : Decomposition source tokens) :
    lex source = ⟨tokens, none⟩ := by
  rcases whole with ⟨tiled, last, rfl, tiling, rfl | ⟨text, rfl, oneLine⟩⟩
  · rw [List.append_nil]
    exact lex_of_scans tiling.scans
  · have apart : StartsApart (';' :: text) := by rintro c ⟨⟩; rfl
    have start : Scanner.push (.ready tiled.length tokens.reverse) ';' =
        ⟨.comment, tiled.length + 1, tokens.reverse⟩ := rfl
    rw [lex_append_of_scans tiling.scans apart, List.foldl_cons, start, Scanner.foldl_push_comment oneLine]
    simp [Scanner.finish]

theorem closes_quote (cs : List Char) : Closes ('"' :: cs) :=
  ⟨[], cs, rfl, .nil⟩

theorem Closes.plain {c : Char} {cs : List Char} (notQuote : c ≠ '"') (notBackslash : c ≠ '\\') (closes : Closes cs) :
    Closes (c :: cs) := by
  rcases closes with ⟨body, more, rfl, units⟩
  exact ⟨c :: body, more, rfl, .plain notQuote notBackslash units⟩

theorem Closes.escape {c : Char} {cs : List Char} (sameLine : c ≠ '\n') (closes : Closes cs) :
    Closes ('\\' :: c :: cs) := by
  rcases closes with ⟨body, more, rfl, units⟩
  exact ⟨'\\' :: c :: body, more, rfl, .escape sameLine units⟩

/-- The scanner never leaves a string that is not closed. The recursion follows the units of the body, so a backslash takes
    the character behind it with it. -/
theorem finish_foldl_push_of_not_closes (start : Nat) (found : List Token) :
    ∀ {cs : List Char}, ¬ Closes cs → ∀ (read : List Char) (offset : Nat),
      (cs.foldl Scanner.push ⟨.string start read, offset, found⟩).finish = ⟨found.reverse, some start⟩
  | [], _, _, _ => rfl
  | [c], never, read, offset => by
      have notQuote : c ≠ '"' := fun quote => never (quote ▸ closes_quote [])
      by_cases backslash : c = '\\' <;> simp [Scanner.push, Mode.step, Scanner.finish, notQuote, backslash]
  | c :: d :: cs, never, read, offset => by
      have notQuote : c ≠ '"' := fun quote => never (quote ▸ closes_quote (d :: cs))
      by_cases backslash : c = '\\'
      · subst backslash
        have escaped : Scanner.push ⟨.string start read, offset, found⟩ '\\' =
            ⟨.escape start read, offset + 1, found⟩ := rfl
        rw [List.foldl_cons, escaped, List.foldl_cons]
        -- A line feed behind a backslash breaks the string for good, though the text may have further double quotes.
        by_cases newLine : d = '\n'
        · have broken : Scanner.push ⟨.escape start read, offset + 1, found⟩ d =
              ⟨.broken start, offset + 1 + 1, found⟩ := by
            simp [Scanner.push, Mode.step, newLine]
          rw [broken, Scanner.foldl_push_of_stays fun _ _ _ => rfl]
          rfl
        · have unit : Scanner.push ⟨.escape start read, offset + 1, found⟩ d =
              ⟨.string start (d :: '\\' :: read), offset + 1 + 1, found⟩ := by
            simp [Scanner.push, Mode.step, newLine]
          rw [unit]
          exact finish_foldl_push_of_not_closes start found (fun closes => never (closes.escape newLine)) _ _
      · have unit : Scanner.push ⟨.string start read, offset, found⟩ c =
            ⟨.string start (c :: read), offset + 1, found⟩ := by
          simp [Scanner.push, Mode.step, notQuote, backslash]
        rw [List.foldl_cons, unit]
        exact finish_foldl_push_of_not_closes start found (fun closes => never (closes.plain notQuote backslash)) _ _

theorem lex_of_breaksOff {source : List Char} {tokens : List Token} {offset : Nat}
    (broken : BreaksOff source tokens offset) : lex source = ⟨tokens, some offset⟩ := by
  rcases broken with ⟨tiled, rest, rfl, tiling, rfl, never⟩
  have apart : StartsApart ('"' :: rest) := by rintro c ⟨⟩; rfl
  have start : Scanner.push (.ready tiled.length tokens.reverse) '"' =
      ⟨.string tiled.length [], tiled.length + 1, tokens.reverse⟩ := rfl
  rw [lex_append_of_scans tiling.scans apart, List.foldl_cons, start, finish_foldl_push_of_not_closes _ _ never,
    List.reverse_reverse]

/-- Every text has a decomposition, or breaks off. -/
theorem decomposition_or_breaksOff (source : List Char) :
    (∃ tokens, Decomposition source tokens) ∨ ∃ tokens offset, BreaksOff source tokens offset := by
  rcases exists_tiling source 0 with ⟨tiled, rest, ts, rfl, tiling, last | ⟨more, rfl, never⟩⟩
  · exact .inl ⟨ts, tiled, rest, rfl, tiling, last⟩
  · exact .inr ⟨ts, tiled.length, tiled, more, rfl, tiling, rfl, never⟩

theorem lex_eq_iff_decomposition {source : List Char} {tokens : List Token} :
    lex source = ⟨tokens, none⟩ ↔ Decomposition source tokens := by
  refine ⟨fun lexed => ?_, lex_of_decomposition⟩
  rcases decomposition_or_breaksOff source with ⟨others, whole⟩ | ⟨others, offset, broken⟩
  · cases (lex_of_decomposition whole).symm.trans lexed
    exact whole
  · cases (lex_of_breaksOff broken).symm.trans lexed

theorem lex_eq_iff_breaksOff {source : List Char} {tokens : List Token} {offset : Nat} :
    lex source = ⟨tokens, some offset⟩ ↔ BreaksOff source tokens offset := by
  refine ⟨fun lexed => ?_, lex_of_breaksOff⟩
  rcases decomposition_or_breaksOff source with ⟨others, whole⟩ | ⟨others, place, broken⟩
  · cases (lex_of_decomposition whole).symm.trans lexed
  · cases (lex_of_breaksOff broken).symm.trans lexed
    exact broken

/-!
### Tokens of a program text
-/

theorem tokenize_eq_ok_iff {source : List Char} {tokens : List Token} :
    tokenize source = .ok tokens ↔ lex source = ⟨tokens, none⟩ := by
  unfold tokenize
  cases lexed : lex source with
  | mk found unclosed? => cases unclosed? <;> simp

theorem tokenize_eq_error_iff {source : List Char} {fault : Fault} :
    tokenize source = .error fault ↔ ∃ tokens offset, lex source = ⟨tokens, some offset⟩ ∧
      fault = .unreadable .unterminatedString (Text.Place.ofOffset source offset) := by
  unfold tokenize
  cases lexed : lex source with
  | mk found unclosed? =>
      cases unclosed? with
      | none => simp
      | some stop =>
          constructor
          · rintro ⟨⟩
            exact ⟨found, stop, rfl, rfl⟩
          · rintro ⟨_, _, ⟨⟩, rfl⟩
            rfl

theorem valid_and_offset_lt_of_tokenize {source : List Char} {tokens : List Token} (lexed : tokenize source = .ok tokens) :
    ∀ t ∈ tokens, t.lexeme.Valid ∧ t.offset < source.length := by
  rcases lex_eq_iff_decomposition.1 (tokenize_eq_ok_iff.1 lexed) with ⟨tiled, last, rfl, tiling, _⟩
  intro t member
  rcases tiling.valid_and_offset_lt t member with ⟨valid, within⟩
  refine ⟨valid, ?_⟩
  rw [List.length_append]
  omega

/-- The tokens of a text, also of one that breaks off behind them, are valid and their texts stand at their offsets. -/
theorem valid_and_text_at_of_mem_lex {source : List Char} {t : Token} (found : t ∈ (lex source).tokens) :
    t.lexeme.Valid ∧ ∃ before after, source = before ++ (t.lexeme.chars ++ after) ∧ t.offset = before.length := by
  have tiled : ∃ cs rest, source = cs ++ rest ∧ Tiling 0 cs (lex source).tokens := by
    rcases decomposition_or_breaksOff source with ⟨tokens, whole⟩ | ⟨tokens, offset, broken⟩
    · rw [lex_of_decomposition whole]
      obtain ⟨cs, last, split, tiling, _⟩ := whole
      exact ⟨cs, last, split, tiling⟩
    · rw [lex_of_breaksOff broken]
      obtain ⟨cs, rest, split, tiling, _⟩ := broken
      exact ⟨cs, '"' :: rest, split, tiling⟩
  obtain ⟨cs, rest, split, tiling⟩ := tiled
  obtain ⟨before, after, here, place⟩ := tiling.exists_text_at t found
  refine ⟨(tiling.valid_and_offset_lt t found).1, before, after ++ rest, ?_, by rw [place, Nat.zero_add]⟩
  rw [split, here, List.append_assoc, List.append_assoc]

/-- The decomposition is unique, and so is the place where a text breaks off. -/
theorem existsUnique_decomposition_or_breaksOff (source : List Char) :
    (∃! tokens, Decomposition source tokens) ∨ ∃! stop : List Token × Nat, BreaksOff source stop.1 stop.2 := by
  rcases decomposition_or_breaksOff source with ⟨tokens, whole⟩ | ⟨tokens, offset, broken⟩
  · refine .inl ⟨tokens, whole, fun others also => ?_⟩
    cases (lex_of_decomposition whole).symm.trans (lex_of_decomposition also)
    rfl
  · refine .inr ⟨⟨tokens, offset⟩, broken, fun ⟨others, place⟩ also => ?_⟩
    cases (lex_of_breaksOff broken).symm.trans (lex_of_breaksOff also)
    rfl

/-- A token starts at every character that neither starts a gap nor is a double quote. -/
theorem starts_gap_or_quote_or_lexeme (c : Char) (rest : List Char) :
    Text.isBlank c = true ∨ c = ';' ∨ c = '"' ∨
      ∃ lexeme : Lexeme, lexeme.Valid ∧ ∃ more, c :: rest = lexeme.chars ++ more := by
  generalize whole : c :: rest = cs
  cases front cs with
  | done last =>
      rcases last with rfl | ⟨text, rfl, oneLine⟩
      · cases whole
      · exact .inr (.inl (List.cons.inj whole).1)
  | gap between nonempty =>
      cases between with
      | nil => exact absurd rfl nonempty
      | blank blank => exact .inl ((List.cons.inj whole).1 ▸ blank)
      | comment => exact .inr (.inl (List.cons.inj whole).1)
  | token lexeme valid maximal => exact .inr (.inr (.inr ⟨lexeme, valid, _, rfl⟩))
  | unclosed never => exact .inr (.inr (.inl (List.cons.inj whole).1))

/-- The scanner computes the unique decomposition of a text. It succeeds with some tokens exactly if the text decomposes
    into them, and it fails behind some tokens at an offset exactly if the text breaks off there, which is reported as a
    string that is not terminated. One of the two holds of every text, and uniquely; in particular no character other than
    a double quote stops the scanner. -/
theorem lex_computes_decomposition (source : List Char) :
    (∀ tokens, lex source = ⟨tokens, none⟩ ↔ Decomposition source tokens) ∧
    (∀ tokens offset, lex source = ⟨tokens, some offset⟩ ↔ BreaksOff source tokens offset) ∧
    ((∃! tokens, Decomposition source tokens) ∨ ∃! stop : List Token × Nat, BreaksOff source stop.1 stop.2) ∧
    (∀ tokens, tokenize source = .ok tokens ↔ Decomposition source tokens) ∧
    (∀ fault, tokenize source = .error fault ↔ ∃ tokens offset, BreaksOff source tokens offset ∧
      fault = .unreadable .unterminatedString (Text.Place.ofOffset source offset)) ∧
    Reader.Problem.unterminatedString.reason = "unterminated string literal" ∧
    (∀ c rest, Text.isBlank c = true ∨ c = ';' ∨ c = '"' ∨
      ∃ lexeme : Lexeme, lexeme.Valid ∧ ∃ more, c :: rest = lexeme.chars ++ more) := by
  refine ⟨fun _ => lex_eq_iff_decomposition, fun _ _ => lex_eq_iff_breaksOff,
    existsUnique_decomposition_or_breaksOff source, fun tokens => ?_, fun fault => ?_, rfl,
    starts_gap_or_quote_or_lexeme⟩
  · exact tokenize_eq_ok_iff.trans lex_eq_iff_decomposition
  · simp only [← lex_eq_iff_breaksOff]
    exact tokenize_eq_error_iff

end SmallScheme
