import Mathlib.Tactic.Common
import SmallScheme.Proofs.Except
import SmallScheme.Text.Utf8

/-
Module: SmallScheme.Proofs.Encoding
Purpose: Text as bytes is read back. The bytes of a character are incomplete until the last of them, which completes the
  character; so the decoder never refuses the bytes of a text, wherever they are cut into pieces. What a piece leaves
  over begins the next character, and with the bytes to come it is again the bytes of a text.
Main exports: Completes, completes_encodeChar, Facing, Facing.exists_push, Facing.exists_foldlM_push,
  Facing.exists_decodePiece
-/

namespace SmallScheme.Text.Utf8

/-!
### The bytes of one character
-/

/-- A tail byte with the lowest six bits of a number. -/
def tail (k : Nat) : UInt8 :=
  UInt8.ofNat (0x80 + k % 0x40)

theorem toNat_tail (k : Nat) : (tail k).toNat = 0x80 + k % 0x40 :=
  UInt8.toNat_ofNat_of_lt' (show 0x80 + k % 0x40 < 256 by omega)

theorem isTail_tail (k : Nat) : isTail (tail k) = true := by
  simp only [isTail, Bool.and_eq_true, decide_eq_true_eq, UInt8.lt_iff_toNat_lt, UInt8.le_iff_toNat_le, toNat_tail,
    UInt8.reduceToNat]
  omega

theorem payload_tail (k : Nat) : payload (tail k) = k % 0x40 := by
  rw [payload, toNat_tail]
  omega

theorem progress_one {a : UInt8} (ascii : a.toNat < 0x80) : progress [a] = .complete (Char.ofNat a.toNat) := by
  have low : a < 0x80 := by simpa [UInt8.lt_iff_toNat_lt] using ascii
  simp only [progress, low, if_true]

/-- A byte that starts a character of several. -/
theorem progress_start {a : UInt8} (low : 0xC2 ≤ a.toNat) (high : a.toNat < 0xF5) : progress [a] = .incomplete := by
  have notAscii : ¬ a < 0x80 := by
    simp only [UInt8.lt_iff_toNat_lt, UInt8.reduceToNat]
    omega
  have starts : (0xC2 ≤ a && a < 0xF5) = true := by
    simp only [Bool.and_eq_true, decide_eq_true_eq, UInt8.lt_iff_toNat_lt, UInt8.le_iff_toNat_le, UInt8.reduceToNat]
    omega
  simp only [progress, notAscii, if_false, starts, if_true]

theorem progress_two {a : UInt8} (low : a.toNat < 0xE0) (k : Nat) :
    progress [a, tail k] = .complete (Char.ofNat (a.toNat % 0x20 * 0x40 + k % 0x40)) := by
  have short : a < 0xE0 := by simpa [UInt8.lt_iff_toNat_lt] using low
  simp only [progress, short, if_true, isTail_tail, payload_tail]

theorem progress_second {a : UInt8} {k : Nat} (long : 0xE0 ≤ a.toNat)
    (notOverlong : a.toNat = 0xE0 → 0x20 ≤ k % 0x40) (notOverlong' : a.toNat = 0xF0 → 0x10 ≤ k % 0x40)
    (inRange : a.toNat = 0xF4 → k % 0x40 < 0x10) : progress [a, tail k] = .incomplete := by
  have notShort : ¬ a < 0xE0 := by
    simp only [UInt8.lt_iff_toNat_lt, UInt8.reduceToNat]
    omega
  have fits : secondFits a (tail k) = true := by
    simp only [secondFits, isTail_tail, Bool.true_and, Bool.and_eq_true, Bool.or_eq_true, bne_iff_ne, ne_eq,
      decide_eq_true_eq, UInt8.lt_iff_toNat_lt, UInt8.le_iff_toNat_le, toNat_tail, UInt8.reduceToNat,
      ← UInt8.toNat_inj]
    omega
  simp only [progress, notShort, if_false, fits, if_true]

theorem beginsSurrogate_tail {a : UInt8} {k : Nat} (noSurrogate : a.toNat = 0xED → k % 0x40 < 0x20) :
    beginsSurrogate [a, tail k] = false := by
  simp only [beginsSurrogate, Bool.and_eq_false_iff, beq_eq_false_iff_ne, ne_eq, decide_eq_false_iff_not,
    UInt8.lt_iff_toNat_lt, UInt8.le_iff_toNat_le, toNat_tail, UInt8.reduceToNat, ← UInt8.toNat_inj]
  omega

theorem progress_three {a : UInt8} {k : Nat} (low : a.toNat < 0xF0) (noSurrogate : a.toNat = 0xED → k % 0x40 < 0x20)
    (l : Nat) : progress [a, tail k, tail l] =
      .complete (Char.ofNat ((a.toNat % 0x10 * 0x40 + k % 0x40) * 0x40 + l % 0x40)) := by
  have short : a < 0xF0 := by simpa [UInt8.lt_iff_toNat_lt] using low
  simp only [progress, beginsSurrogate_tail noSurrogate, isTail_tail, payload_tail, short, if_true, Bool.not_true,
    Bool.false_eq_true, if_false]

theorem progress_third {a : UInt8} (high : 0xF0 ≤ a.toNat) (k l : Nat) :
    progress [a, tail k, tail l] = .incomplete := by
  have long : ¬ a < 0xF0 := by
    simp only [UInt8.lt_iff_toNat_lt, UInt8.reduceToNat]
    omega
  have noSurrogate : a.toNat = 0xED → k % 0x40 < 0x20 := by omega
  simp only [progress, beginsSurrogate_tail noSurrogate, isTail_tail, long, Bool.not_true, Bool.false_eq_true, if_false]

theorem progress_four (a : UInt8) (k l m : Nat) : progress [a, tail k, tail l, tail m] =
    .complete (Char.ofNat (((a.toNat % 0x08 * 0x40 + k % 0x40) * 0x40 + l % 0x40) * 0x40 + m % 0x40)) := by
  simp only [progress, isTail_tail, payload_tail, if_true]

theorem encodeChar_eq (c : Char) : encodeChar c =
    if c.toNat < 0x80 then [UInt8.ofNat c.toNat]
    else if c.toNat < 0x800 then [UInt8.ofNat (0xC0 + c.toNat / 0x40), tail c.toNat]
    else if c.toNat < 0x10000 then
      [UInt8.ofNat (0xE0 + c.toNat / 0x1000), tail (c.toNat / 0x40), tail c.toNat]
    else
      [UInt8.ofNat (0xF0 + c.toNat / 0x40000), tail (c.toNat / 0x1000), tail (c.toNat / 0x40), tail c.toNat] := by
  simp only [encodeChar, tail, Nat.div_one]

/-- Bytes that are incomplete up to the last, and complete a character with it. -/
inductive Completes (c : Char) : List UInt8 → List UInt8 → Prop where
  | last {begun : List UInt8} {b : UInt8} (complete : progress (begun ++ [b]) = .complete c) : Completes c begun [b]
  | more {begun more : List UInt8} {b : UInt8} (incomplete : progress (begun ++ [b]) = .incomplete)
      (others : Completes c (begun ++ [b]) more) : Completes c begun (b :: more)

theorem Completes.ne_nil {c : Char} {begun bytes : List UInt8} (completes : Completes c begun bytes) : bytes ≠ [] := by
  cases completes <;> exact List.cons_ne_nil _ _

/-- The bytes of a character complete it. The surrogates and what lies beyond the range of Unicode, which have no bytes,
    are no characters. -/
theorem completes_encodeChar (c : Char) : Completes c [] (encodeChar c) := by
  have valid : c.toNat < 0xD800 ∨ 0xDFFF < c.toNat ∧ c.toNat < 0x110000 := c.valid
  have back : ∀ n, n = c.toNat → Progress.complete (Char.ofNat n) = .complete c := by
    rintro _ rfl
    rw [Char.ofNat_toNat]
  rw [encodeChar_eq]
  split_ifs with one two three
  · have start : (UInt8.ofNat c.toNat).toNat = c.toNat := UInt8.toNat_ofNat_of_lt' (show _ < 256 by omega)
    refine .last ((progress_one (by omega)).trans (back _ start))
  · have start : (UInt8.ofNat (0xC0 + c.toNat / 0x40)).toNat = 0xC0 + c.toNat / 0x40 :=
      UInt8.toNat_ofNat_of_lt' (show _ < 256 by omega)
    refine .more (progress_start (by omega) (by omega)) (.last ?_)
    exact (progress_two (by omega) c.toNat).trans (back _ (by omega))
  · have start : (UInt8.ofNat (0xE0 + c.toNat / 0x1000)).toNat = 0xE0 + c.toNat / 0x1000 :=
      UInt8.toNat_ofNat_of_lt' (show _ < 256 by omega)
    refine .more (progress_start (by omega) (by omega)) (.more ?_ (.last ?_))
    · exact progress_second (by omega) (by omega) (by omega) (by omega)
    · exact (progress_three (by omega) (by omega) c.toNat).trans (back _ (by omega))
  · have start : (UInt8.ofNat (0xF0 + c.toNat / 0x40000)).toNat = 0xF0 + c.toNat / 0x40000 :=
      UInt8.toNat_ofNat_of_lt' (show _ < 256 by omega)
    refine .more (progress_start (by omega) (by omega)) (.more ?_ (.more ?_ (.last ?_)))
    · exact progress_second (by omega) (by omega) (by omega) (by omega)
    · exact progress_third (by omega) _ _
    · exact (progress_four _ _ _ c.toNat).trans (back _ (by omega))

/-!
### Texts
-/

theorem encode_cons (c : Char) (cs : List Char) : encode (c :: cs) = encodeChar c ++ encode cs :=
  rfl

/-- Some characters are still to be read, and these bytes bring them: they go on with the first character where the bytes
    of it that are there already stop. -/
structure Facing (begun : List UInt8) (cs : List Char) (bytes : List UInt8) : Prop where
  bytes : begun ++ bytes = encode cs
  first : ∀ c rest, cs = c :: rest → ∃ others, encodeChar c = begun ++ others ∧ Completes c begun others

namespace Facing

variable {begun bytes piece : List UInt8} {cs : List Char}

/-- Between two characters all bytes are still to come. -/
theorem between (whole : bytes = encode cs) : Facing [] cs bytes where
  bytes := whole
  first c _ _ := ⟨encodeChar c, rfl, completes_encodeChar c⟩

/-- When no byte is to come, no character is. -/
theorem ended (facing : Facing begun cs []) : cs = [] ∧ begun = [] := by
  have whole := facing.bytes
  rw [List.append_nil] at whole
  cases cs with
  | nil => exact ⟨rfl, whole⟩
  | cons c cs =>
      obtain ⟨others, split, completes⟩ := facing.first c cs rfl
      rw [encode_cons, split, List.append_assoc, List.self_eq_append_right, List.append_eq_nil_iff] at whole
      exact absurd whole.1 completes.ne_nil

/-- A byte to come is taken, and the rest is faced. -/
theorem exists_push {d : Decoder} {b : UInt8} (facing : Facing d.begun cs (b :: bytes)) :
    ∃ after rest, d.push b = .ok after ∧ Facing after.begun rest bytes ∧
      after.read.reverse ++ rest = d.read.reverse ++ cs := by
  have whole := facing.bytes
  cases cs with
  | nil => simp [encode] at whole
  | cons c cs =>
      obtain ⟨others, split, completes⟩ := facing.first c cs rfl
      rw [encode_cons, split, List.append_assoc, List.append_cancel_left_eq] at whole
      cases completes with
      | last complete =>
          obtain ⟨rfl, rest⟩ := List.cons.inj whole
          refine ⟨⟨c :: d.read, [], d.offset + (d.begun ++ [b]).length⟩, cs, ?_, between rest, ?_⟩
          · simp only [Decoder.push, complete]
          · simp
      | @more _ others _ incomplete completes =>
          obtain ⟨rfl, rest⟩ := List.cons.inj whole
          refine ⟨{ d with begun := d.begun ++ [b] }, c :: cs, ?_, ⟨?_, ?_⟩, rfl⟩
          · simp only [Decoder.push, incomplete]
          · rw [encode_cons, split, rest, List.append_assoc, List.append_assoc]
            rfl
          · rintro _ _ ⟨⟩
            exact ⟨others, by rw [split, List.append_assoc]; rfl, completes⟩

/-- Bytes to come are taken one after the other. -/
theorem exists_foldlM_push {d : Decoder} (facing : Facing d.begun cs (piece ++ bytes)) :
    ∃ after rest, piece.foldlM Decoder.push d = .ok after ∧ Facing after.begun rest bytes ∧
      after.read.reverse ++ rest = d.read.reverse ++ cs := by
  induction piece generalizing d cs with
  | nil => exact ⟨d, cs, rfl, facing, rfl⟩
  | cons b piece ih =>
      obtain ⟨next, others, pushed, facingNext, sameText⟩ := exists_push facing
      obtain ⟨after, rest, taken, facingRest, sameRest⟩ := ih facingNext
      refine ⟨after, rest, ?_, facingRest, sameRest.trans sameText⟩
      rw [List.foldlM_cons]
      exact bind_eq_ok_iff.2 ⟨next, pushed, taken⟩

/-- A piece of the bytes to come gives some of the characters, and what it leaves over begins the rest. -/
theorem exists_decodePiece (facing : Facing begun cs (piece ++ bytes)) :
    ∃ read rest leftOver, decodePiece begun piece = .ok (read, leftOver) ∧ Facing leftOver rest bytes ∧
      read ++ rest = cs := by
  have whole : begun ++ piece ++ bytes = encode cs := (List.append_assoc ..).trans facing.bytes
  obtain ⟨after, rest, taken, facingRest, sameText⟩ := exists_foldlM_push (d := {}) (between whole)
  refine ⟨after.read.reverse, rest, after.begun, ?_, facingRest, sameText⟩
  rw [decodePiece]
  exact bind_eq_ok_iff.2 ⟨after, taken, rfl⟩

end Facing

end SmallScheme.Text.Utf8
