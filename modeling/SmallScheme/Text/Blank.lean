/-
Module: SmallScheme.Text.Blank
Purpose: White space. Twenty-nine characters separate tokens, and the same set is stripped from the ends of
  numeric strings, of lines typed at the prompt and of entries in path lists. Zero-width characters
  (U+180E, U+200B, U+FEFF) do not belong to it.
Main exports: isBlank, trimLeft, trim, exists_append_trim, trim_eq_iff, trim_eq_self
-/

namespace SmallScheme.Text

/-- The white-space characters. -/
def isBlank (c : Char) : Bool :=
  let n := c.toNat
  (0x09 ≤ n && n ≤ 0x0D) || (0x1C ≤ n && n ≤ 0x20) || n == 0x85 || n == 0xA0 || n == 0x1680
    || (0x2000 ≤ n && n ≤ 0x200A) || n == 0x2028 || n == 0x2029 || n == 0x202F || n == 0x205F
    || n == 0x3000

/-- The text without the white space it starts with. -/
def trimLeft (cs : List Char) : List Char :=
  cs.dropWhile isBlank

/-- The text without white space at its two ends. -/
def trim (cs : List Char) : List Char :=
  (trimLeft (trimLeft cs).reverse).reverse

/-- White space at the start makes no difference. -/
theorem trimLeft_append {before cs : List Char} (blank : ∀ c ∈ before, isBlank c = true) :
    trimLeft (before ++ cs) = trimLeft cs :=
  List.dropWhile_append_of_pos blank

/-- A text without white space keeps its start. -/
theorem trimLeft_eq_self {cs : List Char} (visible : ∀ c ∈ cs, isBlank c = false) : trimLeft cs = cs := by
  cases cs with
  | nil => rfl
  | cons c cs => simp [trimLeft, visible c List.mem_cons_self]

/-- Trimming takes nothing but white space away. -/
theorem exists_append_trim (cs : List Char) :
    ∃ before after, cs = before ++ (trim cs ++ after) ∧ (∀ c ∈ before, isBlank c = true) ∧
      ∀ c ∈ after, isBlank c = true := by
  let backward := (trimLeft cs).reverse
  have blank : ∀ ds : List Char, ∀ c ∈ ds.takeWhile isBlank, isBlank c = true := fun _ _ member =>
    List.all_eq_true.1 List.all_takeWhile _ member
  have kept : trim cs ++ (backward.takeWhile isBlank).reverse = trimLeft cs := by
    rw [trim, trimLeft, ← List.reverse_append, List.takeWhile_append_dropWhile, List.reverse_reverse]
  refine ⟨cs.takeWhile isBlank, (backward.takeWhile isBlank).reverse, ?_, blank cs, fun c member => ?_⟩
  · rw [kept]
    exact List.takeWhile_append_dropWhile.symm
  · exact blank backward c (List.mem_reverse.1 member)

/-- A text without white space is what trimming leaves of exactly the texts that have it between white space. -/
theorem trim_eq_iff {cs ds : List Char} (visible : ∀ c ∈ ds, isBlank c = false) :
    trim cs = ds ↔ ∃ before after, cs = before ++ (ds ++ after) ∧ (∀ c ∈ before, isBlank c = true) ∧
      ∀ c ∈ after, isBlank c = true := by
  constructor
  · rintro rfl
    exact exists_append_trim cs
  · rintro ⟨before, after, rfl, blankBefore, blankAfter⟩
    have blankBackward : ∀ c ∈ after.reverse, isBlank c = true := fun c member =>
      blankAfter c (List.mem_reverse.1 member)
    have visibleBackward : ∀ c ∈ ds.reverse, isBlank c = false := fun c member =>
      visible c (List.mem_reverse.1 member)
    rw [trim, trimLeft_append blankBefore]
    cases ds with
    | nil =>
      have nothing : trimLeft (after ++ []) = trimLeft [] := trimLeft_append blankAfter
      rw [List.append_nil] at nothing
      rw [List.nil_append, nothing]
      rfl
    | cons d ds =>
      have kept : trimLeft (d :: ds ++ after) = d :: ds ++ after := by
        simp [trimLeft, visible d List.mem_cons_self]
      rw [kept, List.reverse_append, trimLeft_append blankBackward, trimLeft_eq_self visibleBackward,
        List.reverse_reverse]

/-- Trimming changes no text without white space. -/
theorem trim_eq_self {cs : List Char} (visible : ∀ c ∈ cs, isBlank c = false) : trim cs = cs :=
  (trim_eq_iff visible).2 ⟨[], [], by simp, by simp, by simp⟩

end SmallScheme.Text
