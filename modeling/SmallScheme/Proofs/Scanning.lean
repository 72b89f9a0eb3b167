import SmallScheme.Token.Lexer

/-
Module: SmallScheme.Proofs.Scanning
Purpose: What the scanner makes of a piece of text that it meets between tokens. A piece may leave a word unfinished, which
  the end of the text or the next character that ends a word completes; two pieces scan one after the other if the
  second starts with such a character, or if the first has left nothing unfinished.
Main exports: Scanner.settle, Scans, ScansShut, Scans.append, Scans.append_shut, Scanner.foldl_push_of_stays,
  scans_word, scansShut_comment, StringBody, scansShut_string, lex_append_of_scans
-/

namespace SmallScheme

/-- The scanner between tokens. -/
def Scanner.ready (offset : Nat) (found : List Token) : Scanner :=
  { mode := .between, offset, found }

/-- The scanner with the word that it is in, if any, completed. -/
def Scanner.settle (s : Scanner) : Scanner :=
  match s.mode with
  | .word start read => .ready s.offset (wordToken start read :: s.found)
  | _ => s

/-- A piece of text at an offset has these tokens, the last of which may be a word not yet completed. -/
def Scans (offset : Nat) (cs : List Char) (ts : List Token) : Prop :=
  ∀ found, (cs.foldl Scanner.push (.ready offset found)).settle = .ready (offset + cs.length) (ts.reverse ++ found)

/-- A piece of text at an offset has these tokens, and leaves nothing unfinished. -/
def ScansShut (offset : Nat) (cs : List Char) (ts : List Token) : Prop :=
  ∀ found, cs.foldl Scanner.push (.ready offset found) = .ready (offset + cs.length) (ts.reverse ++ found)

/-- A text that does not go on with a word begun before it. -/
def StartsApart (cs : List Char) : Prop :=
  ∀ c ∈ cs.head?, endsWord c = true

namespace Scanner

@[simp] theorem settle_settle (s : Scanner) : s.settle.settle = s.settle := by
  obtain ⟨mode, offset, found⟩ := s
  cases mode <;> rfl

/-- The end of the text completes a word. -/
theorem finish_settle (s : Scanner) : s.settle.finish = s.finish := by
  obtain ⟨mode, offset, found⟩ := s
  cases mode <;> rfl

/-- A character that ends a word completes it. -/
theorem push_settle (s : Scanner) {c : Char} (ends : endsWord c = true) : s.settle.push c = s.push c := by
  obtain ⟨mode, offset, found⟩ := s
  cases mode with
  | word start read => simp [settle, ready, push, Mode.step, ends]
  | _ => rfl

theorem foldl_push_settle (s : Scanner) {c : Char} (cs : List Char) (ends : endsWord c = true) :
    (c :: cs).foldl push s.settle = (c :: cs).foldl push s := by
  rw [List.foldl_cons, List.foldl_cons, push_settle s ends]

end Scanner

section Pieces

variable {offset : Nat} {cs ds : List Char} {ts us : List Token}

theorem ScansShut.scans (shut : ScansShut offset cs ts) : Scans offset cs ts := by
  intro found
  rw [shut found]
  rfl

theorem ScansShut.append (first : ScansShut offset cs ts) (second : ScansShut (offset + cs.length) ds us) :
    ScansShut offset (cs ++ ds) (ts ++ us) := by
  intro found
  rw [List.foldl_append, first, second, List.length_append, Nat.add_assoc, List.reverse_append, List.append_assoc]

theorem ScansShut.append_scans (first : ScansShut offset cs ts) (second : Scans (offset + cs.length) ds us) :
    Scans offset (cs ++ ds) (ts ++ us) := by
  intro found
  rw [List.foldl_append, first, second, List.length_append, Nat.add_assoc, List.reverse_append, List.append_assoc]

theorem Scans.append (first : Scans offset cs ts) (second : Scans (offset + cs.length) ds us)
    (apart : StartsApart ds) : Scans offset (cs ++ ds) (ts ++ us) := by
  intro found
  have settled : ∀ s : Scanner, (ds.foldl Scanner.push s).settle = (ds.foldl Scanner.push s.settle).settle := by
    intro s
    cases ds with
    | nil => simp
    | cons d ds => rw [Scanner.foldl_push_settle s ds (apart d rfl)]
  rw [List.foldl_append, settled, first, second, List.length_append, Nat.add_assoc, List.reverse_append,
    List.append_assoc]

/-- What follows a word and leaves nothing unfinished shuts the whole. -/
theorem Scans.append_shut {d : Char} (first : Scans offset cs ts)
    (second : ScansShut (offset + cs.length) (d :: ds) us) (ends : endsWord d = true) :
    ScansShut offset (cs ++ d :: ds) (ts ++ us) := by
  intro found
  rw [List.foldl_append, ← Scanner.foldl_push_settle _ ds ends, first, second, List.length_append, Nat.add_assoc,
    List.reverse_append, List.append_assoc]

theorem scansShut_nil : ScansShut offset [] [] :=
  fun _ => rfl

theorem scansShut_openParen : ScansShut offset ['('] [⟨.openParen, offset⟩] :=
  fun _ => rfl

theorem scansShut_closeParen : ScansShut offset [')'] [⟨.closeParen, offset⟩] :=
  fun _ => rfl

theorem scansShut_blank {c : Char} (blank : Text.isBlank c = true) : ScansShut offset [c] [] := by
  intro found
  simp [Scanner.push, Scanner.ready, Mode.step, meet, blank]

theorem scansShut_dot : ScansShut offset " . ".toList [⟨.dot, offset + 1⟩] :=
  fun _ => rfl

end Pieces

/-!
### Comments, words and strings

These are loops of the scanner that stay in one mode. In a word and in a string the mode holds the characters already read,
so what they do is an induction on the characters that generalises over those.
-/

/-- Characters that leave the scanner in its mode, and complete no token, are passed over. -/
theorem Scanner.foldl_push_of_stays {mode : Mode} {cs : List Char}
    (stays : ∀ c ∈ cs, ∀ offset, mode.step offset c = ([], mode)) (offset : Nat) (found : List Token) :
    cs.foldl Scanner.push ⟨mode, offset, found⟩ = ⟨mode, offset + cs.length, found⟩ := by
  induction cs generalizing offset with
  | nil => rfl
  | cons c cs ih =>
      rcases List.forall_mem_cons.1 stays with ⟨first, others⟩
      have step : Scanner.push ⟨mode, offset, found⟩ c = ⟨mode, offset + 1, found⟩ := by
        rw [Scanner.push, first offset]
        rfl
      rw [List.foldl_cons, step, ih others, List.length_cons, Nat.add_assoc, Nat.add_comm 1]

/-- White space ends a word. -/
theorem isBlank_of_not_endsWord {c : Char} (inside : endsWord c = false) : Text.isBlank c = false := by
  simp only [endsWord, Bool.or_eq_false_iff] at inside
  exact inside.1.1.1.1.1

theorem meet_of_not_endsWord {c : Char} (inside : endsWord c = false) (offset : Nat) :
    meet offset c = ([], .word offset [c]) := by
  simp only [endsWord, Bool.or_eq_false_iff, beq_eq_false_iff_ne] at inside
  simp [meet, inside]

private theorem foldl_push_word (start : Nat) (found : List Token) {cs : List Char}
    (inside : ∀ c ∈ cs, endsWord c = false) (read : List Char) (offset : Nat) :
    cs.foldl Scanner.push ⟨.word start read, offset, found⟩ =
      ⟨.word start (cs.reverse ++ read), offset + cs.length, found⟩ := by
  induction cs generalizing read offset with
  | nil => rfl
  | cons c cs ih =>
      have step : Scanner.push ⟨.word start read, offset, found⟩ c = ⟨.word start (c :: read), offset + 1, found⟩ := by
        simp [Scanner.push, Mode.step, inside c List.mem_cons_self]
      rw [List.foldl_cons, step, ih fun d member => inside d (List.mem_cons_of_mem _ member)]
      simp [Nat.add_assoc, Nat.add_comm 1]

/-- Characters none of which ends a word are one word. -/
theorem scans_word {offset : Nat} {cs : List Char} (nonempty : cs ≠ []) (inside : ∀ c ∈ cs, endsWord c = false) :
    Scans offset cs [wordToken offset cs.reverse] := by
  intro found
  cases cs with
  | nil => exact absurd rfl nonempty
  | cons c cs =>
      have start : Scanner.push (.ready offset found) c = ⟨.word offset [c], offset + 1, found⟩ := by
        simp [Scanner.push, Scanner.ready, Mode.step, meet_of_not_endsWord (inside c List.mem_cons_self)]
      rw [List.foldl_cons, start, foldl_push_word offset found fun d member => inside d (List.mem_cons_of_mem _ member)]
      simp [Scanner.settle, Nat.add_assoc, Nat.add_comm 1]

theorem Scanner.foldl_push_comment {text : List Char} (oneLine : '\n' ∉ text) (offset : Nat) (found : List Token) :
    text.foldl Scanner.push ⟨.comment, offset, found⟩ = ⟨.comment, offset + text.length, found⟩ := by
  refine Scanner.foldl_push_of_stays (fun c member _ => ?_) offset found
  have sameLine : c ≠ '\n' := fun newline => oneLine (newline ▸ member)
  simp [Mode.step, sameLine]

/-- A comment with its line feed has no tokens. -/
theorem scansShut_comment {text : List Char} (oneLine : '\n' ∉ text) (offset : Nat) :
    ScansShut offset (';' :: (text ++ ['\n'])) [] := by
  intro found
  have start : Scanner.push (.ready offset found) ';' = ⟨.comment, offset + 1, found⟩ := rfl
  rw [List.foldl_cons, start, List.foldl_append, Scanner.foldl_push_comment oneLine]
  simp [Scanner.push, Mode.step, Scanner.ready, Nat.add_assoc, Nat.add_comm 1]

/-- The body of a string literal: characters that are neither double quotes nor backslashes, and backslashes each of
    which takes a character other than a line feed with it. -/
inductive StringBody : List Char → Prop where
  | nil : StringBody []
  | plain {c : Char} {cs : List Char} (notQuote : c ≠ '"') (notBackslash : c ≠ '\\') (rest : StringBody cs) :
      StringBody (c :: cs)
  | escape {c : Char} {cs : List Char} (sameLine : c ≠ '\n') (rest : StringBody cs) : StringBody ('\\' :: c :: cs)

theorem foldl_push_string (start : Nat) (found : List Token) {body : List Char} (units : StringBody body)
    (read : List Char) (offset : Nat) :
    body.foldl Scanner.push ⟨.string start read, offset, found⟩ =
      ⟨.string start (body.reverse ++ read), offset + body.length, found⟩ := by
  induction units generalizing read offset with
  | nil => rfl
  | @plain c cs notQuote notBackslash rest ih =>
      have unit : Scanner.push ⟨.string start read, offset, found⟩ c = ⟨.string start (c :: read), offset + 1, found⟩ := by
        simp [Scanner.push, Mode.step, notQuote, notBackslash]
      rw [List.foldl_cons, unit, ih]
      simp [Nat.add_assoc, Nat.add_comm 1]
  | @escape c cs sameLine rest ih =>
      have unit : Scanner.push (Scanner.push ⟨.string start read, offset, found⟩ '\\') c =
          ⟨.string start (c :: '\\' :: read), offset + 1 + 1, found⟩ := by
        simp [Scanner.push, Mode.step, sameLine]
      rw [List.foldl_cons, List.foldl_cons, unit, ih]
      simp [Nat.add_assoc, Nat.add_comm 2]

/-- A string literal is one token. -/
theorem scansShut_string (offset : Nat) {body : List Char} (units : StringBody body) :
    ScansShut offset ('"' :: body ++ ['"']) [⟨.string body, offset⟩] := by
  intro found
  have start : Scanner.push (.ready offset found) '"' = ⟨.string offset [], offset + 1, found⟩ := rfl
  rw [List.cons_append, List.foldl_cons, start, List.foldl_append, foldl_push_string offset found units]
  simp [Scanner.push, Mode.step, Scanner.ready, Nat.add_assoc, Nat.add_comm 1]

/-- The tokens of a piece are found in the whole text as they are in the piece, if the piece is followed by what ends a
    word. -/
theorem lex_append_of_scans {cs rest : List Char} {ts : List Token} (scans : Scans 0 cs ts)
    (apart : StartsApart rest) :
    lex (cs ++ rest) = (rest.foldl Scanner.push (.ready cs.length ts.reverse)).finish := by
  have settled : (cs.foldl Scanner.push (.ready 0 [])).settle = .ready cs.length ts.reverse := by
    simpa using scans []
  change ((cs ++ rest).foldl Scanner.push (.ready 0 [])).finish = _
  rw [List.foldl_append, ← settled]
  cases rest with
  | nil => exact (Scanner.finish_settle _).symm
  | cons c rest => rw [Scanner.foldl_push_settle _ rest (apart c rfl)]

/-- The tokens of a piece that is the whole text. -/
theorem lex_of_scans {cs : List Char} {ts : List Token} (scans : Scans 0 cs ts) :
    lex cs = { tokens := ts, unclosed? := none } := by
  have whole : lex (cs ++ []) = _ := lex_append_of_scans scans (by simp [StartsApart])
  rw [List.append_nil] at whole
  simp [whole, Scanner.ready, Scanner.finish]

end SmallScheme
