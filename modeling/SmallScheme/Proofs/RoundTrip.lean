import SmallScheme.Proofs.Acceptance
import SmallScheme.Proofs.Decomposition
import SmallScheme.Value.Printer

/-
Module: SmallScheme.Proofs.RoundTrip
Purpose: What is written is read back. The written form of canonical data has tokens that derive the very same data, so
  reading it gives the value that was written, however deep it is nested. The tokens come from the scanner, piece
  by piece along the structure of the value; that the reader makes the value of them is its completeness.
Main exports: exists_derives_render, read_render, read_text
-/

namespace SmallScheme

open Reader (Derives DerivesAll WordDenotes BodyDenotes isSymbolStart isSymbolPart symbolMarks)

/-!
### Words
-/

private theorem isBlank_of_visible {c : Char} (low : 0x21 ≤ c.toNat) (high : c.toNat ≤ 0x7E) :
    Text.isBlank c = false := by
  simp only [Text.isBlank, Bool.or_eq_false_iff, Bool.and_eq_false_iff, decide_eq_false_iff_not,
    beq_eq_false_iff_ne]
  omega

private theorem visible_of_isSymbolPart {c : Char} (part : isSymbolPart c = true) :
    0x21 ≤ c.toNat ∧ c.toNat ≤ 0x7E := by
  simp only [isSymbolPart, isSymbolStart, Bool.or_eq_true] at part
  rcases part with (letter | mark) | digit
  · change (decide ('A'.val ≤ c.val ∧ c.val ≤ 'Z'.val) || ('a'.val ≤ c.val && c.val ≤ 'z'.val)) = true at letter
    simp only [Bool.or_eq_true, Bool.and_eq_true, decide_eq_true_eq, UInt32.le_iff_toNat_le, Char.toNat_val,
      Char.reduceToNat] at letter
    omega
  · have marks : symbolMarks.all (fun d => decide (0x21 ≤ d.toNat ∧ d.toNat ≤ 0x7E)) = true := by decide
    exact of_decide_eq_true (List.all_eq_true.1 marks c (by simpa using mark))
  · simp only [Char.isDigit_iff_toNat, Char.reduceToNat] at digit
    omega

/-- What may stand in a symbol neither ends a word nor is the dot. -/
theorem endsWord_of_isSymbolPart {c : Char} (part : isSymbolPart c = true) : endsWord c = false ∧ c ≠ '.' := by
  rcases visible_of_isSymbolPart part with ⟨low, high⟩
  simp only [endsWord, isBlank_of_visible low high, Bool.or_eq_false_iff, beq_eq_false_iff_ne, ne_eq, true_and]
  refine ⟨⟨⟨⟨⟨?_, ?_⟩, ?_⟩, ?_⟩, ?_⟩, ?_⟩ <;> rintro rfl <;> exact absurd part (by decide)

/-- Characters that may stand in a symbol make a valid word. -/
theorem Lexeme.valid_word_of_parts {cs : List Char} (nonempty : cs ≠ []) (parts : ∀ c ∈ cs, isSymbolPart c = true) :
    (Lexeme.word cs).Valid := by
  refine ⟨nonempty, ?_, fun c member => (endsWord_of_isSymbolPart (parts c member)).1⟩
  rintro rfl
  exact (endsWord_of_isSymbolPart (parts '.' List.mem_cons_self)).2 rfl

theorem parts_of_written {cs : List Char} {n : Number.Numeral} (written : n.Written cs) :
    cs ≠ [] ∧ ∀ c ∈ cs, isSymbolPart c = true := by
  have digits : ∀ {ds : List Char}, Number.DigitRun ds → ∀ c ∈ ds, isSymbolPart c = true := by
    intro ds run c member
    simp [isSymbolPart, run.2 c member]
  cases written with
  | bare run => exact ⟨run.1, digits run⟩
  | plus run | minus run =>
      refine ⟨List.cons_ne_nil _ _, ?_⟩
      rintro c (_ | ⟨_, member⟩)
      · decide
      · exact digits run c member

theorem parts_of_symbolWord {cs : List Char} (word : SymbolWord cs) :
    cs ≠ [] ∧ ∀ c ∈ cs, isSymbolPart c = true := by
  have atom := word.atom
  cases cs with
  | nil => cases atom
  | cons c cs =>
      simp only [Reader.isSymbolName, Bool.and_eq_true, List.all_eq_true] at atom
      refine ⟨List.cons_ne_nil _ _, ?_⟩
      rintro d (_ | ⟨_, member⟩)
      · simp [isSymbolPart, atom.1]
      · exact atom.2 d member

/-- A word that denotes something is valid. -/
theorem Lexeme.valid_of_wordDenotes {cs : List Char} {v : Value} (denotes : WordDenotes cs v) :
    (Lexeme.word cs).Valid := by
  have parts : cs ≠ [] ∧ ∀ c ∈ cs, isSymbolPart c = true := by
    cases denotes with
    | truth | falsity => exact ⟨List.cons_ne_nil _ _, List.all_eq_true.1 (by decide)⟩
    | number written => exact parts_of_written written
    | symbol word => exact parts_of_symbolWord word
  exact valid_word_of_parts parts.1 parts.2

/-- A word is one token, which derives what the word denotes. -/
theorem scans_of_wordDenotes {cs : List Char} {v : Value} (denotes : WordDenotes cs v) (offset : Nat) :
    ∃ ts, Derives ts v ∧ Scans offset cs ts :=
  ⟨[⟨.word cs, offset⟩], .word rfl denotes, (Lexeme.valid_of_wordDenotes denotes).scans offset⟩

/-- The body of a string in written form denotes the string. -/
theorem bodyDenotes_renderChar (text : List Char) : BodyDenotes (text.flatMap Value.renderChar) text := by
  induction text with
  | nil => exact .nil
  | cons c text ih =>
      rw [List.flatMap_cons]
      unfold Value.renderChar
      split
      · rename_i special
        have known : Reader.escapeValue? c = some c := by
          rcases special with rfl | rfl <;> rfl
        exact .escape known ih
      · rename_i ordinary
        exact .plain (fun backslash => ordinary (.inr backslash)) ih

/-- The written form of a string is the body of a literal, whatever characters the string has. -/
theorem stringBody_renderChar (text : List Char) : StringBody (text.flatMap Value.renderChar) := by
  induction text with
  | nil => exact .nil
  | cons c text ih =>
      rw [List.flatMap_cons]
      unfold Value.renderChar
      split
      · rename_i special
        have sameLine : c ≠ '\n' := by
          rcases special with rfl | rfl <;> decide
        exact .escape sameLine ih
      · rename_i ordinary
        rw [not_or] at ordinary
        exact .plain ordinary.1 ordinary.2 ih

/-!
### Values

The scanner meets every part of a value between tokens, and a part is followed by a blank, a parenthesis or the end, each
of which completes a word. So the parts can be scanned one after the other, by induction on the value.
-/

theorem startsApart_renderMore (vs : List Value) : StartsApart (Value.renderMore vs) := by
  cases vs with
  | nil => simp [StartsApart, Value.renderMore]
  | cons v vs =>
      intro c first
      cases first
      decide

/-- A dotted list in written form, in normal form or not, has tokens that derive its heads joined to its tail. -/
theorem exists_derives_dotted {heads : List Value} {tail : Value} (nonempty : heads ≠ [])
    (headsTokens : ∀ offset, ∃ ts, DerivesAll ts heads ∧ Scans offset (Value.renderAll heads) ts)
    (tailTokens : ∀ offset, ∃ ts, Derives ts tail ∧ Scans offset tail.render ts) (offset : Nat) :
    ∃ ts, Derives ts (Value.joinTail heads tail) ∧ Scans offset (Value.dotted heads tail).render ts := by
  rcases headsTokens (offset + 1) with ⟨ts, headsDerive, headsScan⟩
  let dotOffset := offset + 1 + (Value.renderAll heads).length
  let tailOffset := dotOffset + " . ".toList.length
  rcases tailTokens tailOffset with ⟨us, tailDerives, tailScans⟩
  let closed : Token := ⟨.closeParen, tailOffset + tail.render.length⟩
  have ending : ScansShut dotOffset (" . ".toList ++ (tail.render ++ [')']))
      (⟨.dot, dotOffset + 1⟩ :: (us ++ [closed])) :=
    scansShut_dot.append (tailScans.append_shut scansShut_closeParen (by decide))
  have shut : ScansShut offset (.dotted heads tail : Value).render
      (⟨.openParen, offset⟩ :: (ts ++ ⟨.dot, dotOffset + 1⟩ :: (us ++ [closed]))) :=
    scansShut_openParen.append (headsScan.append_shut ending (by decide))
  exact ⟨_, .dotted rfl headsDerive nonempty rfl tailDerives rfl, shut.scans⟩

mutual

/-- The written form of canonical data has tokens that derive the data. -/
theorem exists_derives_render : ∀ {v : Value}, Value.Canonical v → ∀ offset,
    ∃ ts, Derives ts v ∧ Scans offset v.render ts
  | .bool true, _, offset => scans_of_wordDenotes .truth offset
  | .bool false, _, offset => scans_of_wordDenotes .falsity offset
  | .num n, data, offset => by
      rcases Number.Numeral.written_decimal data with ⟨numeral, written, converted⟩
      rcases Number.Numeral.toNumber_eq_ok_iff.1 converted with ⟨short, fits, rfl⟩
      exact scans_of_wordDenotes (.number written short fits) offset
  | .sym name, data, offset => by
      have denotes : WordDenotes name.toList (.sym name) := by
        simpa using WordDenotes.symbol data
      exact scans_of_wordDenotes denotes offset
  | .str s, _, offset => by
      have derives := @Derives.string ⟨.string (s.toList.flatMap Value.renderChar), offset⟩ _ _ rfl
        (bodyDenotes_renderChar s.toList)
      rw [String.ofList_toList] at derives
      exact ⟨_, derives, (scansShut_string offset (stringBody_renderChar s.toList)).scans⟩
  | .list items, data, offset => by
      rcases exists_derives_renderAll data (offset + 1) with ⟨ts, derive, scan⟩
      let closed : Token := ⟨.closeParen, offset + 1 + (Value.renderAll items).length⟩
      have shut : ScansShut offset (.list items : Value).render (⟨.openParen, offset⟩ :: (ts ++ [closed])) :=
        scansShut_openParen.append (scan.append_shut scansShut_closeParen (by decide))
      exact ⟨_, .list rfl derive rfl, shut.scans⟩
  | .dotted heads tail, data, offset => by
      rcases data with ⟨nonempty, headsData, plain, tailData⟩
      have joined := exists_derives_dotted nonempty (exists_derives_renderAll headsData)
        (exists_derives_render tailData) offset
      rwa [Value.joinTail_of_not_isList plain] at joined
  | .closure .., data, _ | .prim _, data, _ | .port _, data, _ => data.elim

theorem exists_derives_renderAll : ∀ {vs : List Value}, Value.BuiltAll Value.DataLeaf vs → ∀ offset,
    ∃ ts, DerivesAll ts vs ∧ Scans offset (Value.renderAll vs) ts
  | [], _, _ => ⟨[], .nil, scansShut_nil.scans⟩
  | v :: vs, data, offset => by
      rcases exists_derives_render data.1 offset with ⟨ts, derives, scan⟩
      rcases exists_derives_renderMore data.2 (offset + v.render.length) with ⟨us, othersDerive, othersScan⟩
      exact ⟨ts ++ us, .cons derives othersDerive, scan.append othersScan (startsApart_renderMore vs)⟩

theorem exists_derives_renderMore : ∀ {vs : List Value}, Value.BuiltAll Value.DataLeaf vs → ∀ offset,
    ∃ ts, DerivesAll ts vs ∧ Scans offset (Value.renderMore vs) ts
  | [], _, _ => ⟨[], .nil, scansShut_nil.scans⟩
  | v :: vs, data, offset => by
      rcases exists_derives_render data.1 (offset + 1) with ⟨ts, derives, scan⟩
      rcases exists_derives_renderMore data.2 (offset + 1 + v.render.length) with ⟨us, othersDerive, othersScan⟩
      have both := scan.append othersScan (startsApart_renderMore vs)
      exact ⟨ts ++ us, .cons derives othersDerive, (scansShut_blank rfl).append_scans both⟩

end

/-- Reading the written form of canonical data succeeds and gives the data. -/
theorem read_render {v : Value} (data : v.Canonical) : read v.render = .ok v := by
  rcases exists_derives_render data 0 with ⟨ts, derives, scans⟩
  exact read_eq_ok_iff.2 ⟨ts, tokenize_eq_ok_iff.2 (lex_of_scans scans), derives⟩

/-- What the printer shows of canonical data, the reader turns back into exactly these data. -/
theorem read_text (v : Value) (data : v.Canonical) : read v.text.toList = .ok v := by
  rw [Value.text, String.toList_ofList]
  exact read_render data

/-- A list with the least number, a string of quotes, backslashes, line feeds and delimiters, and a nested dotted list
    that ends in the greatest number. -/
def roundTripSample : Value :=
  .list [.num Number.least, .str "say \"a\\b\";\n(c . d)'", .list [],
    .dotted [.sym "->x!", .bool false, .list [.sym "quote", .str ""]] (.num Number.greatest)]

theorem read_text_roundTripSample :
    roundTripSample.Canonical ∧ read roundTripSample.text.toList = .ok roundTripSample := by
  have data : roundTripSample.Canonical := by decide +kernel
  exact ⟨data, read_text roundTripSample data⟩

end SmallScheme
