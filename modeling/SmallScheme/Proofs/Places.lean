import SmallScheme.Text.Place

/-
Module: SmallScheme.Proofs.Places
Purpose: How places in a text relate. What follows an offset does not change its place; behind a text and a line feed the
  places are those of the following text, so many lines further down; and a later offset has a later place, on a later
  line or in a later column of the same line. Counted off in the lines of the text, a place gives back the offset whose
  place it is.
Main exports: Place.ofOffset_append, Place.below, Place.ofOffset_behind_newline, Place.ofOffset_lt,
  Place.ofOffset_injective, Place.offset?, Place.offset?_lt, Place.offset?_eq_some_iff
-/

namespace SmallScheme.Text.Place

/-- The place so many lines further down. -/
def below (lines : Nat) (place : Place) : Place :=
  { place with line := place.line + lines }

theorem ofOffset_append {source : List Char} {offset : Nat} (within : offset ≤ source.length) (rest : List Char) :
    ofOffset (source ++ rest) offset = ofOffset source offset := by
  simp only [ofOffset, List.take_append_of_le_length within]

theorem takeWhile_ne_append_newline (cs ds : List Char) :
    (cs ++ '\n' :: ds).takeWhile (· != '\n') = cs.takeWhile (· != '\n') := by
  induction cs with
  | nil => rfl
  | cons c cs ih => by_cases newline : c = '\n' <;> simp [newline, ih]

/-- Behind a text and a line feed, the places are those of the text that follows, further down by the lines before it. -/
theorem ofOffset_behind_newline (before source : List Char) (offset : Nat) :
    ofOffset (before ++ '\n' :: source) (before.length + 1 + offset) =
      (ofOffset source offset).below (before.count '\n' + 1) := by
  have taken : (before ++ '\n' :: source).take (before.length + 1 + offset) = before ++ '\n' :: source.take offset := by
    have counted : before.length + 1 + offset - before.length = offset + 1 := by omega
    rw [List.take_append, List.take_of_length_le (by omega), counted, List.take_succ_cons]
  have columns : (before ++ '\n' :: source.take offset).reverse.takeWhile (· != '\n') =
      (source.take offset).reverse.takeWhile (· != '\n') := by
    rw [List.reverse_append, List.reverse_cons, List.append_assoc, List.singleton_append, takeWhile_ne_append_newline]
  simp only [ofOffset, below, taken, columns, List.count_append, List.count_cons_self]
  congr 1
  omega

/-- A later offset has a later place. -/
theorem ofOffset_lt {source : List Char} {p q : Nat} (earlier : p < q) (within : q ≤ source.length) :
    (ofOffset source p).line < (ofOffset source q).line ∨
      (ofOffset source p).line = (ofOffset source q).line ∧ (ofOffset source p).column < (ofOffset source q).column := by
  let between := (source.drop p).take (q - p)
  have split : source.take q = source.take p ++ between := by
    have whole : q = p + (q - p) := by omega
    rw [whole, List.take_add]
  have count : between.length = q - p := by
    simp only [between, List.length_take, List.length_drop]
    omega
  simp only [ofOffset, split, List.count_append, List.reverse_append]
  -- The text between holds a line feed, and the line is a later one, or it does not, and all of it counts as columns.
  by_cases broken : '\n' ∈ between
  · left
    have := List.count_pos_iff.2 broken
    omega
  · right
    have sameLine : between.count '\n' = 0 := List.count_eq_zero.2 broken
    have onward : ∀ c ∈ between.reverse, (c != '\n') = true := by
      intro c member
      have different : c ≠ '\n' := fun newline => broken (newline ▸ List.mem_reverse.1 member)
      simpa using different
    rw [List.takeWhile_append_of_pos onward, List.length_append, List.length_reverse, count]
    omega

/-- Different offsets have different places. -/
theorem ofOffset_injective {source : List Char} {p q : Nat} (pWithin : p ≤ source.length) (qWithin : q ≤ source.length)
    (same : ofOffset source p = ofOffset source q) : p = q := by
  rcases Nat.lt_trichotomy p q with earlier | equal | later
  · have := ofOffset_lt earlier qWithin
    rw [same] at this
    omega
  · exact equal
  · have := ofOffset_lt later pWithin
    rw [same] at this
    omega

/-!
### Counting a place off

The other way round a place is counted off in the lines into which the line feeds split a text: so many whole lines, each
with its line feed, and so many characters of the next one.
-/

/-- How many characters lines take up, each with the line feed behind it. -/
def extent : List (List Char) → Nat
  | [] => 0
  | line :: lines => line.length + 1 + extent lines

theorem extent_append (lines more : List (List Char)) : extent (lines ++ more) = extent lines + extent more := by
  induction lines with
  | nil => exact (Nat.zero_add _).symm
  | cons line lines ih => rw [List.cons_append, extent, extent, ih, ← Nat.add_assoc]

/-- The offset that a place identifies in a text that is split at its line feeds: as many characters into the line as
    there are columns before it. There is none if the text has no such line, or the line no such column. -/
def offset? (source : List Char) : Place → Option Nat
  | ⟨line + 1, column + 1⟩ =>
    match (source.splitOn '\n')[line]? with
    | some text =>
      if column ≤ text.length then some (extent ((source.splitOn '\n').take line) + column) else none
    | none => none
  | _ => none

theorem offset?_eq_some_iff_lines {source : List Char} {place : Place} {offset : Nat} :
    place.offset? source = some offset ↔
      ∃ before line after column, source.splitOn '\n' = before ++ line :: after ∧ column ≤ line.length ∧
        place = ⟨before.length + 1, column + 1⟩ ∧ offset = extent before + column := by
  constructor
  · intro found
    unfold offset? at found
    split at found
    · rename_i line column
      split at found
      · rename_i text there
        split at found <;> cases found
        rename_i within
        obtain ⟨inside, rfl⟩ := List.getElem?_eq_some_iff.1 there
        refine ⟨_, _, (source.splitOn '\n').drop (line + 1), column, ?_, within, ?_, rfl⟩
        · rw [List.getElem_cons_drop, List.take_append_drop]
        · rw [List.length_take_of_le (Nat.le_of_lt inside)]
      · cases found
    · cases found
  · rintro ⟨before, line, after, column, split, within, rfl, rfl⟩
    simp [offset?, split, within]

theorem length_splitOn (source : List Char) : (source.splitOn '\n').length = source.count '\n' + 1 := by
  induction source with
  | nil => rfl
  | cons c source ih =>
      rw [List.splitOn_cons_eq_if_modifyHead]
      by_cases newline : c = '\n' <;> simp [newline, ih]

/-- The line feeds behind all lines are one more than those of the text. -/
theorem extent_splitOn (source : List Char) : extent (source.splitOn '\n') = source.length + 1 := by
  induction source with
  | nil => rfl
  | cons c source ih =>
      rw [List.splitOn_cons_eq_if_modifyHead]
      cases lines : source.splitOn '\n' with
      | nil => exact absurd lines (List.splitOn_ne_nil '\n' source)
      | cons line others =>
          rw [lines] at ih
          by_cases newline : c = '\n' <;> simp [newline, extent] at ih ⊢ <;> omega

/-- A text without a line feed begins the first line of what goes on with it. -/
theorem exists_splitOn_append {text : List Char} (oneLine : '\n' ∉ text) (rest : List Char) :
    ∃ more others, (text ++ rest).splitOn '\n' = (text ++ more) :: others := by
  by_cases broken : '\n' ∈ rest
  · obtain ⟨more, behind, rfl, unbroken⟩ := List.eq_append_cons_of_mem broken
    refine ⟨more, behind.splitOn '\n', ?_⟩
    rw [← List.append_assoc, List.splitOn_append_cons_self_of_not_mem]
    simp [oneLine, unbroken]
  · refine ⟨rest, [], ?_⟩
    rw [List.splitOn_eq_singleton]
    simp [oneLine, broken]

/-- Before an offset there are whole lines, each with its line feed, and the beginning of another line. -/
theorem exists_line_of_le {source : List Char} {offset : Nat} (within : offset ≤ source.length) :
    ∃ text rest, '\n' ∉ text ∧ (source = text ++ rest ∧ offset = text.length ∨
      ∃ before, source = before ++ '\n' :: (text ++ rest) ∧ offset = before.length + 1 + text.length) := by
  have split := (List.take_append_drop offset source).symm
  have length : (source.take offset).length = offset := List.length_take_of_le within
  by_cases broken : '\n' ∈ (source.take offset).reverse
  · obtain ⟨text, before, reversed, oneLine⟩ := List.eq_append_cons_of_mem broken
    have taken : source.take offset = before.reverse ++ '\n' :: text.reverse := by
      rw [← List.reverse_reverse (source.take offset), reversed]
      simp
    rw [taken] at split length
    refine ⟨text.reverse, source.drop offset, by simpa using oneLine, .inr ⟨before.reverse, by simpa using split, ?_⟩⟩
    simp only [List.length_append, List.length_cons] at length
    omega
  · exact ⟨source.take offset, source.drop offset, by simpa using broken, .inl ⟨split, length.symm⟩⟩

theorem ofOffset_of_oneLine {text : List Char} (oneLine : '\n' ∉ text) (rest : List Char) :
    ofOffset (text ++ rest) text.length = ⟨1, text.length + 1⟩ := by
  have onward : ∀ c ∈ text.reverse, (c != '\n') = true := by
    intro c member
    have different : c ≠ '\n' := fun newline => oneLine (newline ▸ List.mem_reverse.1 member)
    simpa using different
  have columns : text.reverse.takeWhile (· != '\n') = text.reverse := by
    simpa using @List.takeWhile_append_of_pos _ _ _ [] onward
  simp only [ofOffset, List.take_left, columns, List.count_eq_zero.2 oneLine, List.length_reverse]

/-- The place of an offset identifies it. -/
theorem offset?_ofOffset {source : List Char} {offset : Nat} (within : offset ≤ source.length) :
    (ofOffset source offset).offset? source = some offset := by
  rw [offset?_eq_some_iff_lines]
  obtain ⟨text, rest, oneLine, here | ⟨before, behind⟩⟩ := exists_line_of_le within
  · obtain ⟨rfl, rfl⟩ := here
    obtain ⟨more, others, lines⟩ := exists_splitOn_append oneLine rest
    refine ⟨[], _, others, text.length, lines, by simp, ofOffset_of_oneLine oneLine rest, by simp [extent]⟩
  · obtain ⟨rfl, rfl⟩ := behind
    obtain ⟨more, others, lines⟩ := exists_splitOn_append oneLine rest
    refine ⟨before.splitOn '\n', text ++ more, others, text.length, ?_, by simp, ?_, ?_⟩
    · rw [List.splitOn_append_cons_self, lines]
    · rw [ofOffset_behind_newline, ofOffset_of_oneLine oneLine, below, length_splitOn, Nat.add_comm 1]
    · rw [extent_splitOn]

/-- Of two places that identify offsets, the earlier one, on an earlier line or in an earlier column of the same line,
    identifies the earlier offset. -/
theorem offset?_lt {source : List Char} {place other : Place} {p q : Nat} (found : place.offset? source = some p)
    (also : other.offset? source = some q)
    (earlier : place.line < other.line ∨ place.line = other.line ∧ place.column < other.column) : p < q := by
  obtain ⟨before, line, after, column, split, within, rfl, rfl⟩ := offset?_eq_some_iff_lines.1 found
  obtain ⟨others, text, behind, shift, same, fits, rfl, rfl⟩ := offset?_eq_some_iff_lines.1 also
  rw [split] at same
  rcases earlier with earlierLine | ⟨sameLine, left⟩
  · -- the earlier line is one of those before the later line
    have more : before.length < others.length := Nat.lt_of_succ_lt_succ earlierLine
    rcases List.append_eq_append_iff.1 same with ⟨between, rfl, rest⟩ | ⟨between, rfl, _⟩
    · cases between with
      | nil => simp at more
      | cons first between =>
          obtain ⟨rfl, -⟩ := List.cons.inj rest
          rw [extent_append, extent]
          omega
    · rw [List.length_append] at more
      omega
  · obtain ⟨rfl, -⟩ := List.append_inj same (Nat.succ.inj sameLine)
    exact Nat.add_lt_add_left (Nat.lt_of_succ_lt_succ left) _

/-- Exactly the place of an offset identifies it. -/
theorem offset?_eq_some_iff {source : List Char} {place : Place} {offset : Nat} :
    place.offset? source = some offset ↔ offset ≤ source.length ∧ place = ofOffset source offset := by
  refine ⟨fun found => ?_, fun ⟨within, same⟩ => same ▸ offset?_ofOffset within⟩
  have within : offset ≤ source.length := by
    obtain ⟨before, line, after, column, split, fits, rfl, rfl⟩ := offset?_eq_some_iff_lines.1 found
    have whole := extent_splitOn source
    rw [split, extent_append, extent] at whole
    omega
  refine ⟨within, ?_⟩
  have identified := offset?_ofOffset within
  obtain ⟨line, column⟩ := place
  generalize ofOffset source offset = other at identified
  obtain ⟨otherLine, otherColumn⟩ := other
  -- neither of the two places that identify one offset is before the other
  have notBefore := mt (offset?_lt found identified) (Nat.lt_irrefl offset)
  have notBehind := mt (offset?_lt identified found) (Nat.lt_irrefl offset)
  simp only [Place.mk.injEq] at notBefore notBehind ⊢
  omega

end SmallScheme.Text.Place
