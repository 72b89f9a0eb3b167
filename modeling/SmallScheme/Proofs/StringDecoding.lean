import Mathlib.Data.List.Induction
import SmallScheme.Proofs.Decomposition
import SmallScheme.Proofs.Except

/-
Module: SmallScheme.Proofs.StringDecoding
Purpose: Strings are decoded within their bodies. The scanner takes the body of a string in units, a backslash always with
  the character behind it. A loop that looks at one position of the body after the other, and at the next one from a
  backslash, stands only where units start, so it never looks behind the body; it gives what the reader gives, and for
  a body without a backslash the body itself.
Main exports: BodyUnit, spread, exists_units_of_stringBody, spread_injective, round, Stands, loopFrom, decode,
  stands_iff, loopFrom_spread, strings_decoded_in_bounds
-/

namespace SmallScheme

namespace Reader

/-!
### Units
-/

/-- A unit of the body of a string. -/
inductive BodyUnit where
  /-- A character that stands for itself. -/
  | plain (c : Char)
  /-- A backslash and the character behind it. -/
  | escape (c : Char)
deriving DecidableEq, Repr

/-- The characters that may stand behind a backslash. -/
def escapes : List Char :=
  ['"', '\\', 'n', 't', 'r']

namespace BodyUnit

/-- The characters of a unit. -/
def chars : BodyUnit → List Char
  | .plain c => [c]
  | .escape c => ['\\', c]

/-- What the scanner takes as a unit. -/
def Valid : BodyUnit → Prop
  | .plain c => c ≠ '"' ∧ c ≠ '\\'
  | .escape c => c ≠ '\n'

/-- The unit stands for a character. -/
def Known : BodyUnit → Prop
  | .plain _ => True
  | .escape c => c ∈ escapes

instance : DecidablePred Known
  | .plain _ => inferInstanceAs (Decidable True)
  | .escape c => inferInstanceAs (Decidable (c ∈ escapes))

/-- The character that replaces a unit which stands for one. -/
def replacement : BodyUnit → Char
  | .escape 'n' => '\n'
  | .escape 't' => '\t'
  | .escape 'r' => '\r'
  | .plain c | .escape c => c

theorem exists_escape_of_not_known {unit : BodyUnit} (unknown : ¬ unit.Known) : ∃ c, unit = .escape c ∧ c ∉ escapes := by
  cases unit with
  | plain c => exact absurd trivial unknown
  | escape c => exact ⟨c, rfl, unknown⟩

theorem length_chars_pos (unit : BodyUnit) : 0 < unit.chars.length := by
  cases unit <;> exact Nat.zero_lt_succ _

end BodyUnit

/-- The body that consists of units. -/
def spread (units : List BodyUnit) : List Char :=
  units.flatMap BodyUnit.chars

theorem spread_cons (unit : BodyUnit) (units : List BodyUnit) : spread (unit :: units) = unit.chars ++ spread units :=
  rfl

theorem spread_append (before after : List BodyUnit) : spread (before ++ after) = spread before ++ spread after :=
  List.flatMap_append

/-- The scanner takes a body in units. -/
theorem exists_units_of_stringBody {body : List Char} (taken : StringBody body) :
    ∃ units : List BodyUnit, (∀ unit ∈ units, unit.Valid) ∧ spread units = body := by
  induction taken with
  | nil => exact ⟨[], by simp, rfl⟩
  | @plain c cs notQuote notBackslash rest ih =>
      obtain ⟨units, valid, rfl⟩ := ih
      exact ⟨.plain c :: units, List.forall_mem_cons.2 ⟨⟨notQuote, notBackslash⟩, valid⟩, rfl⟩
  | @escape c cs sameLine rest ih =>
      obtain ⟨units, valid, rfl⟩ := ih
      exact ⟨.escape c :: units, List.forall_mem_cons.2 ⟨sameLine, valid⟩, rfl⟩

/-- A body has only one division into units, since the first character of a unit tells its kind. -/
theorem spread_injective {units others : List BodyUnit} (valid : ∀ unit ∈ units, unit.Valid)
    (othersValid : ∀ unit ∈ others, unit.Valid) (same : spread units = spread others) : units = others := by
  induction units generalizing others with
  | nil =>
      cases others with
      | nil => rfl
      | cons other others => cases other <;> cases same
  | cons unit units ih =>
      obtain ⟨first, rest⟩ := List.forall_mem_cons.1 valid
      cases others with
      | nil => cases unit <;> cases same
      | cons other others =>
          obtain ⟨otherFirst, otherRest⟩ := List.forall_mem_cons.1 othersValid
          cases unit with
          | plain c =>
              cases other with
              | plain d =>
                  obtain ⟨rfl, behind⟩ := List.cons.inj same
                  rw [ih rest otherRest behind]
              | escape d => exact absurd (List.cons.inj same).1 first.2
          | escape c =>
              cases other with
              | plain d => exact absurd (List.cons.inj same).1.symm otherFirst.2
              | escape d =>
                  obtain ⟨rfl, behind⟩ := List.cons.inj (List.cons.inj same).2
                  rw [ih rest otherRest behind]

/-!
### The reader, unit by unit
-/

theorem escapeValue?_of_mem {c : Char} (known : c ∈ escapes) :
    escapeValue? c = some (BodyUnit.escape c).replacement := by
  simp only [escapes, List.mem_cons, List.not_mem_nil, or_false] at known
  rcases known with rfl | rfl | rfl | rfl | rfl <;> rfl

theorem escapeValue?_of_not_mem {c : Char} (unknown : c ∉ escapes) : escapeValue? c = none := by
  simp only [escapes, List.mem_cons, List.not_mem_nil, or_false, not_or] at unknown
  unfold escapeValue?
  split <;> simp_all

theorem unescape_plain {c : Char} (notBackslash : c ≠ '\\') (cs : List Char) :
    unescape (c :: cs) = (unescape cs).map (c :: ·) := by
  conv_lhs => unfold unescape
  split <;> simp_all

theorem unescape_known {unit : BodyUnit} (valid : unit.Valid) (known : unit.Known) (cs : List Char) :
    unescape (unit.chars ++ cs) = (unescape cs).map (unit.replacement :: ·) := by
  cases unit with
  | plain c => exact unescape_plain valid.2 cs
  | escape c => simp [BodyUnit.chars, unescape, escapeValue?_of_mem known]

theorem unescape_unknown {c : Char} (unknown : c ∉ escapes) (cs : List Char) :
    unescape (BodyUnit.chars (.escape c) ++ cs) = .error c := by
  simp [BodyUnit.chars, unescape, escapeValue?_of_not_mem unknown]

/-- Units that stand for characters are replaced by them. -/
theorem unescape_spread_append {units : List BodyUnit} (valid : ∀ unit ∈ units, unit.Valid)
    (known : ∀ unit ∈ units, unit.Known) (cs : List Char) :
    unescape (spread units ++ cs) = (unescape cs).map (units.map BodyUnit.replacement ++ ·) := by
  induction units with
  | nil => cases read : unescape cs <;> simp [spread, read, Except.map]
  | cons unit units ih =>
      obtain ⟨firstValid, restValid⟩ := List.forall_mem_cons.1 valid
      obtain ⟨firstKnown, restKnown⟩ := List.forall_mem_cons.1 known
      rw [spread_cons, List.append_assoc, unescape_known firstValid firstKnown, ih restValid restKnown]
      cases unescape cs <;> rfl

/-!
### The loop over the positions
-/

/-- Why the loop stops inside a body. -/
inductive Halt where
  /-- The character behind a backslash is not known. -/
  | unknown (c : Char)
  /-- The position behind a backslash is behind the body. -/
  | beyond
deriving DecidableEq, Repr

/-- One round of the loop, at a position of the body: the character that is put out, and the next position. -/
def round (body : List Char) (i : Nat) (inside : i < body.length) : Except Halt (Char × Nat) :=
  if body[i] = '\\' then
    match body[i + 1]? with
    | none => .error .beyond
    | some c =>
      match escapeValue? c with
      | none => .error (.unknown c)
      | some d => .ok (d, i + 2)
  else .ok (body[i], i + 1)

theorem lt_of_round {body : List Char} {i : Nat} {inside : i < body.length} {d : Char} {next : Nat}
    (taken : round body i inside = .ok (d, next)) : i < next := by
  unfold round at taken
  repeat' split at taken
  all_goals cases taken
  all_goals omega

/-- The loop from a position on, with what has been put out so far. -/
def loopFrom (body : List Char) (i : Nat) (out : List Char) : Except Halt (List Char) :=
  if inside : i < body.length then
    match taken : round body i inside with
    | .error halt => .error halt
    | .ok (d, next) =>
      have : i < next := lt_of_round taken
      loopFrom body next (out ++ [d])
  else .ok out
termination_by body.length - i

theorem loopFrom_of_round_ok {body : List Char} {i : Nat} {inside : i < body.length} {d : Char} {next : Nat}
    (taken : round body i inside = .ok (d, next)) (out : List Char) :
    loopFrom body i out = loopFrom body next (out ++ [d]) := by
  rw [loopFrom, dif_pos inside]
  split
  · rename_i halted
    cases halted.symm.trans taken
  · rename_i same
    cases same.symm.trans taken
    rfl

theorem loopFrom_of_round_error {body : List Char} {i : Nat} {inside : i < body.length} {halt : Halt}
    (halts : round body i inside = .error halt) (out : List Char) : loopFrom body i out = .error halt := by
  rw [loopFrom, dif_pos inside]
  split
  · rename_i same
    cases same.symm.trans halts
    rfl
  · rename_i taken
    cases taken.symm.trans halts

/-- The text that a body denotes: the body itself if it has no backslash, and otherwise what the loop puts out. -/
def decode (body : List Char) : Except Halt (List Char) :=
  if '\\' ∈ body then loopFrom body 0 [] else .ok body

/-- The positions on which the loop stands. -/
inductive Stands (body : List Char) : Nat → Prop where
  | start : Stands body 0
  | next {i : Nat} {inside : i < body.length} {d : Char} {next : Nat} (before : Stands body i)
      (taken : round body i inside = .ok (d, next)) : Stands body next

section Boundary

variable (before after : List BodyUnit) {unit : BodyUnit}

/-- A position at which a unit starts is one of the body. -/
theorem length_spread_lt (unit : BodyUnit) : (spread before).length < (spread (before ++ unit :: after)).length := by
  have nonempty := unit.length_chars_pos
  simp only [spread_append, spread_cons, List.length_append]
  omega

/-- Where a unit starts that stands for a character, this character is put out, and the unit behind it is next. -/
theorem round_known (valid : unit.Valid) (known : unit.Known)
    (inside : (spread before).length < (spread (before ++ unit :: after)).length) :
    round (spread (before ++ unit :: after)) (spread before).length inside =
      .ok (unit.replacement, (spread (before ++ [unit])).length) := by
  cases unit with
  | plain c => simp [round, spread, BodyUnit.chars, BodyUnit.replacement, valid.2]
  | escape c => simp [round, spread, BodyUnit.chars, escapeValue?_of_mem known]

theorem round_unknown {c : Char} (unknown : c ∉ escapes)
    (inside : (spread before).length < (spread (before ++ .escape c :: after)).length) :
    round (spread (before ++ .escape c :: after)) (spread before).length inside = .error (.unknown c) := by
  simp [round, spread, BodyUnit.chars, escapeValue?_of_not_mem unknown]

end Boundary

/-- The loop stands where a unit starts, or at the end, if all units before it stand for characters, and nowhere else. -/
theorem stands_iff {units : List BodyUnit} (valid : ∀ unit ∈ units, unit.Valid) {i : Nat} :
    Stands (spread units) i ↔ ∃ before after, units = before ++ after ∧ (∀ unit ∈ before, unit.Known) ∧
      i = (spread before).length := by
  constructor
  · intro stands
    induction stands with
    | start => exact ⟨[], units, rfl, by simp, rfl⟩
    | @next i inside d next _ taken ih =>
        obtain ⟨before, after, rfl, knownBefore, rfl⟩ := ih
        cases after with
        | nil => simp at inside
        | cons unit after =>
            have unitValid : unit.Valid := valid unit (by simp)
            by_cases known : unit.Known
            · cases (round_known before after unitValid known inside).symm.trans taken
              exact ⟨before ++ [unit], after, by simp, by simpa [or_imp, forall_and] using ⟨knownBefore, known⟩, rfl⟩
            · obtain ⟨c, rfl, unknown⟩ := BodyUnit.exists_escape_of_not_known known
              cases (round_unknown before after unknown inside).symm.trans taken
  · rintro ⟨before, after, rfl, known, rfl⟩
    -- The loop comes to a unit from the one before it.
    induction before using List.reverseRecOn generalizing after with
    | nil => exact .start
    | append_singleton before unit ih =>
        rw [List.append_assoc, List.singleton_append] at valid ⊢
        have stands := ih (unit :: after) valid fun other member => known other (List.mem_append_left _ member)
        exact .next stands (round_known before after (valid unit (by simp)) (known unit (by simp)) (length_spread_lt ..))

/-- From where a unit starts on the loop puts out what the reader makes of the rest of the body. -/
theorem loopFrom_spread (before units : List BodyUnit) (valid : ∀ unit ∈ units, unit.Valid) (out : List Char) :
    loopFrom (spread (before ++ units)) (spread before).length out =
      ((unescape (spread units)).map (out ++ ·)).mapError Halt.unknown := by
  induction units generalizing before out with
  | nil =>
      rw [loopFrom, dif_neg (by simp)]
      simp [spread, unescape, Except.map, Except.mapError]
  | cons unit units ih =>
      obtain ⟨unitValid, othersValid⟩ := List.forall_mem_cons.1 valid
      have inside := length_spread_lt before units unit
      by_cases known : unit.Known
      · have behind := ih (before ++ [unit]) othersValid (out ++ [unit.replacement])
        rw [List.append_assoc, List.singleton_append] at behind
        rw [loopFrom_of_round_ok (round_known before units unitValid known inside), behind, spread_cons,
          unescape_known unitValid known]
        cases unescape (spread units) <;> simp [Except.map, Except.mapError]
      · obtain ⟨c, rfl, unknown⟩ := BodyUnit.exists_escape_of_not_known known
        rw [loopFrom_of_round_error (round_unknown before units unknown inside), spread_cons, unescape_unknown unknown]
        rfl

/-!
### Decoding
-/

/-- Without a backslash every character stands for itself. -/
theorem unescape_of_not_mem {body : List Char} (noBackslash : '\\' ∉ body) : unescape body = .ok body := by
  induction body with
  | nil => rfl
  | cons c cs ih =>
      simp only [List.mem_cons, not_or] at noBackslash
      rw [unescape_plain (Ne.symm noBackslash.1), ih noBackslash.2]
      rfl

section Units

variable {units : List BodyUnit} (valid : ∀ unit ∈ units, unit.Valid)

include valid

/-- The loop gives what the reader gives. -/
theorem loopFrom_start : loopFrom (spread units) 0 [] = (unescape (spread units)).mapError Halt.unknown := by
  have run := loopFrom_spread [] units valid []
  cases read : unescape (spread units) <;> rw [read] at run <;> exact run

theorem loopFrom_of_not_mem (noBackslash : '\\' ∉ spread units) : loopFrom (spread units) 0 [] = .ok (spread units) := by
  rw [loopFrom_start valid, unescape_of_not_mem noBackslash]
  rfl

theorem decode_eq_loopFrom : decode (spread units) = loopFrom (spread units) 0 [] := by
  unfold decode
  split
  · rfl
  · rename_i noBackslash
    exact (loopFrom_of_not_mem valid noBackslash).symm

/-- Where the loop stands on a backslash, a character follows: an escape starts there. -/
theorem add_one_lt_of_stands {i : Nat} (stands : Stands (spread units) i) (backslash : (spread units)[i]? = some '\\') :
    i + 1 < (spread units).length := by
  obtain ⟨before, after, rfl, -, rfl⟩ := (stands_iff valid).1 stands
  cases after with
  | nil => simp at backslash
  | cons unit after =>
      have unitValid : unit.Valid := valid unit (by simp)
      cases unit with
      | plain c => simp [spread, BodyUnit.chars, unitValid.2] at backslash
      | escape c =>
          simp only [spread_append, spread_cons, BodyUnit.chars, List.length_append, List.length_cons]
          omega

theorem stringValue_known (known : ∀ unit ∈ units, unit.Known) (t : Token) :
    stringValue t (spread units) = .ok (.str (String.ofList (units.map BodyUnit.replacement))) := by
  have read := unescape_spread_append valid known []
  rw [List.append_nil] at read
  simp [stringValue, read, unescape, Except.map]

end Units

theorem stringValue_unknown {before after : List BodyUnit} {c : Char} (valid : ∀ unit ∈ before, unit.Valid)
    (known : ∀ unit ∈ before, unit.Known) (unknown : c ∉ escapes) (t : Token) :
    stringValue t (spread (before ++ .escape c :: after)) = .error (.unreadable (.unknownEscape c) (some t)) := by
  have read := unescape_spread_append valid known (spread (.escape c :: after))
  rw [spread_cons, unescape_unknown unknown] at read
  simp [stringValue, spread_append, spread_cons, read, Except.map]

/-- A string whose units do not all stand for characters is refused for the first that does not. -/
theorem exists_first_unknown {units : List BodyUnit} (valid : ∀ unit ∈ units, unit.Valid)
    (notKnown : ¬ ∀ unit ∈ units, unit.Known) (t : Token) :
    ∃ before c after, units = before ++ .escape c :: after ∧ (∀ unit ∈ before, unit.Known) ∧ c ∉ escapes ∧
      stringValue t (spread units) = .error (.unreadable (.unknownEscape c) (some t)) := by
  obtain ⟨before, unit, after, rfl, here, known⟩ := exists_first_of_not_forall notKnown
  obtain ⟨c, rfl, unknown⟩ := BodyUnit.exists_escape_of_not_known here
  have validBefore : ∀ unit ∈ before, unit.Valid := fun unit member => valid unit (List.mem_append_left _ member)
  exact ⟨before, c, after, rfl, known, unknown, stringValue_unknown validBefore known unknown t⟩

/-- Strings are decoded within their bodies. The body of a string token has exactly one division into units, each a
    character that is neither a double quote nor a backslash, or a backslash and a character that is no line feed. The loop
    over the positions of the body stands where units start, so there is a character behind a backslash on which it stands,
    and it never looks behind the body; it gives what the reader gives, and without a backslash the body. The string is
    refused exactly if one of the units is an escape that is not known: for the first of them, at the place of the token.
    Otherwise its value is the body with each unit replaced. -/
theorem strings_decoded_in_bounds (source : List Char) (t : Token) (body : List Char)
    (found : t ∈ (lex source).tokens) (string : t.lexeme = .string body) :
    ∃ units : List BodyUnit, (∀ unit ∈ units, unit.Valid) ∧ spread units = body ∧
      (∀ others : List BodyUnit, (∀ unit ∈ others, unit.Valid) → spread others = body → others = units) ∧
      (∀ i, Stands body i ↔ ∃ before after, units = before ++ after ∧ (∀ unit ∈ before, unit.Known) ∧
        i = (spread before).length) ∧
      (∀ i, Stands body i → body[i]? = some '\\' → i + 1 < body.length) ∧
      loopFrom body 0 [] ≠ .error .beyond ∧ loopFrom body 0 [] = (unescape body).mapError Halt.unknown ∧
      ('\\' ∉ body → loopFrom body 0 [] = .ok body) ∧ decode body = loopFrom body 0 [] ∧
      ((∃ failure, stringValue t body = .error failure) ↔ ∃ c, BodyUnit.escape c ∈ units ∧ c ∉ escapes) ∧
      (∀ failure, stringValue t body = .error failure → ∃ before c after, units = before ++ .escape c :: after ∧
        (∀ unit ∈ before, unit.Known) ∧ c ∉ escapes ∧
        Fault.ofReader source failure = .unreadable (.unknownEscape c) (Text.Place.ofOffset source t.offset) ∧
        (Problem.unknownEscape c).reason = "unknown string escape '\\" ++ String.ofList [c] ++ "'") ∧
      ((∀ c, BodyUnit.escape c ∈ units → c ∈ escapes) →
        stringValue t body = .ok (.str (String.ofList (units.map BodyUnit.replacement)))) := by
  have taken : StringBody body := by simpa [string, Lexeme.Valid] using (valid_and_text_at_of_mem_lex found).1
  obtain ⟨units, valid, rfl⟩ := exists_units_of_stringBody taken
  have neverBeyond : loopFrom (spread units) 0 [] ≠ .error .beyond := by
    rw [loopFrom_start valid]
    cases unescape (spread units) <;> rintro ⟨⟩
  refine ⟨units, valid, rfl, fun others othersValid same => spread_injective othersValid valid same,
    fun i => stands_iff valid, fun i => add_one_lt_of_stands valid, neverBeyond, loopFrom_start valid,
    loopFrom_of_not_mem valid, decode_eq_loopFrom valid, ?_⟩
  by_cases known : ∀ unit ∈ units, unit.Known
  · have escapesKnown : ∀ c, BodyUnit.escape c ∈ units → c ∈ escapes := fun c member => known _ member
    have value := stringValue_known valid known t
    refine ⟨⟨?_, ?_⟩, ?_, fun _ => value⟩
    · rintro ⟨failure, fails⟩
      cases value.symm.trans fails
    · rintro ⟨c, member, unknown⟩
      exact absurd (escapesKnown c member) unknown
    · rintro failure fails
      cases value.symm.trans fails
  · obtain ⟨before, c, after, rfl, knownBefore, unknown, refused⟩ := exists_first_unknown valid known t
    have member : BodyUnit.escape c ∈ before ++ .escape c :: after := by simp
    refine ⟨⟨fun _ => ⟨c, member, unknown⟩, fun _ => ⟨_, refused⟩⟩, ?_, fun all => absurd (all c member) unknown⟩
    rintro failure fails
    cases refused.symm.trans fails
    exact ⟨before, c, after, rfl, knownBefore, unknown, rfl, rfl⟩

/-- A string in which a backslash stands before a backslash, before a double quote and before two characters that are not
    known. -/
def escapesSample : List Char :=
  "(a \"\\\\\\\"\n\\q\\z\")".toList

/-- The body of the string. -/
def escapesBodySample : List Char :=
  "\\\\\\\"\n\\q\\z".toList

theorem strings_decoded_in_bounds_escapesSample :
    ⟨.string escapesBodySample, 3⟩ ∈ (lex escapesSample).tokens ∧
    loopFrom escapesBodySample 0 [] = .error (.unknown 'q') ∧
    ∃ failure, stringValue ⟨.string escapesBodySample, 3⟩ escapesBodySample = .error failure ∧
      Fault.ofReader escapesSample failure = .unreadable (.unknownEscape 'q') ⟨1, 4⟩ := by
  have found : ⟨.string escapesBodySample, 3⟩ ∈ (lex escapesSample).tokens := by decide +kernel
  obtain ⟨units, -, -, -, -, -, -, agrees, -, -, -, failing, -⟩ :=
    strings_decoded_in_bounds escapesSample ⟨.string escapesBodySample, 3⟩ escapesBodySample found rfl
  have refused : stringValue ⟨.string escapesBodySample, 3⟩ escapesBodySample =
      .error (.unreadable (.unknownEscape 'q') (some ⟨.string escapesBodySample, 3⟩)) := by decide +kernel
  obtain ⟨before, c, after, split, known, unknown, place, reason⟩ := failing _ refused
  have first : c = 'q' := by
    cases place
    rfl
  subst first
  exact ⟨found, agrees.trans (by decide +kernel), _, refused, place.trans (by decide +kernel)⟩

end Reader

end SmallScheme
