import SmallScheme.Proofs.Encoding
import SmallScheme.Proofs.Runs

/-
Module: SmallScheme.Proofs.LineReading
Purpose: An input port hands out the lines of its file. The file is taken in by blocks that are cut anywhere, inside a
  character or between a carriage return and its line feed; what the port has ready, what it holds back and what is
  still in the file make up one text with unified line breaks, and each line that is read is the first line of it.
Main exports: Text.unifyBreaks_append, Text.takeLine_append_of_mem, Text.takeLine_line, Reading.Facing,
  Reading.exists_fetch, Reading.exists_fill, Reading.exists_readLine
-/

namespace SmallScheme

namespace Text

/-!
### Line breaks
-/

/-- Two pieces of text are unified one after the other, unless they are cut between a carriage return and its line
    feed. -/
theorem unifyBreaks_append {cs ds : List Char} (apart : cs.getLast? = some '\r' → ds.head? ≠ some '\n') :
    unifyBreaks (cs ++ ds) = unifyBreaks cs ++ unifyBreaks ds := by
  fun_induction unifyBreaks cs with
  | case1 => rfl
  | case2 cs ih =>
      have apartLater : cs.getLast? = some '\r' → ds.head? ≠ some '\n' := by
        intro last
        exact apart (by simp [List.getLast?_cons, last])
      rw [List.cons_append, List.cons_append, unifyBreaks, ih apartLater]
      rfl
  | case3 c cs notBoth ih =>
      have apartLater : cs.getLast? = some '\r' → ds.head? ≠ some '\n' := by
        intro last
        exact apart (by simp [List.getLast?_cons, last])
      have stillNotBoth : ∀ more, c = '\r' → cs ++ ds = '\n' :: more → False := by
        intro more isReturn split
        cases cs with
        | nil => exact apart (by simp [isReturn]) (by rw [List.nil_append] at split; rw [split]; rfl)
        | cons d cs => exact notBoth cs isReturn (by rw [(List.cons.inj split).1])
      rw [List.cons_append, unifyBreaks.eq_3 c _ stillNotBoth, ih apartLater]
      rfl

/-- Up to the first carriage return the text is as it was. -/
theorem unifyBreaks_append_of_not_mem {cs : List Char} (none : '\r' ∉ cs) (ds : List Char) :
    unifyBreaks (cs ++ ds) = cs ++ unifyBreaks ds := by
  rw [unifyBreaks_append, unifyBreaks_eq_self none]
  exact fun last => absurd (List.mem_of_getLast? last) none

/-- A line break becomes a line feed. -/
theorem exists_unifyBreaks_break {c : Char} (isBreak : c = '\n' ∨ c = '\r') (ds : List Char) :
    ∃ rest, unifyBreaks (c :: ds) = '\n' :: rest := by
  rcases isBreak with rfl | rfl
  · exact ⟨unifyBreaks ds, rfl⟩
  · cases ds with
    | nil => exact ⟨[], rfl⟩
    | cons d ds =>
        by_cases pair : d = '\n'
        · exact ⟨unifyBreaks ds, by rw [pair, unifyBreaks]⟩
        · exact ⟨unifyBreaks (d :: ds), by rw [unifyBreaks.eq_3 _ _ fun more _ same => pair (List.cons.inj same).1]; rfl⟩

/-- What is held back of a piece of text is unified with what comes behind it. -/
theorem unifyBreaks_holdReturn (cs rest : List Char) :
    unifyBreaks (holdReturn cs).1 ++ unifyBreaks (if (holdReturn cs).2 then '\r' :: rest else rest) =
      unifyBreaks (cs ++ rest) := by
  unfold holdReturn
  split
  · rename_i last
    obtain ⟨before, rfl⟩ := List.getLast?_eq_some_iff.1 last
    rw [List.dropLast_concat, List.append_assoc, List.singleton_append, unifyBreaks_append (by simp)]
    rfl
  · rename_i notReturn
    rw [unifyBreaks_append fun last => absurd last notReturn]
    rfl

/-- A line is taken up to its line feed. -/
theorem takeLine_line {cs : List Char} (oneLine : '\n' ∉ cs) (ds : List Char) :
    takeLine (cs ++ '\n' :: ds) = (cs ++ ['\n'], ds) := by
  have others : ∀ c ∈ cs, (c != '\n') = true := by
    intro c member
    rw [bne_iff_ne]
    rintro rfl
    exact oneLine member
  have drop : (cs ++ '\n' :: ds).dropWhile (· != '\n') = '\n' :: ds := by
    rw [List.dropWhile_append_of_pos others, List.dropWhile_cons_of_neg (by decide)]
  have take : (cs ++ '\n' :: ds).takeWhile (· != '\n') = cs := by
    rw [List.takeWhile_append_of_pos others, List.takeWhile_cons_of_neg (by decide), List.append_nil]
  rw [takeLine, drop, take]

/-- The first line of a text that has a whole line does not depend on what comes behind the text. -/
theorem takeLine_append_of_mem {cs : List Char} (whole : '\n' ∈ cs) (ds : List Char) :
    takeLine (cs ++ ds) = ((takeLine cs).1, (takeLine cs).2 ++ ds) := by
  obtain ⟨line, rest, rfl, oneLine⟩ := List.eq_append_cons_of_mem whole
  rw [List.append_assoc, List.cons_append, takeLine_line oneLine, takeLine_line oneLine]

end Text

namespace Reading

open Text (unifyBreaks)
open Text.Utf8 (encode)

/-- What an undecoded text becomes behind what is held back. -/
def pending (r : Reading) (rest : List Char) : List Char :=
  unifyBreaks (if r.heldReturn then '\r' :: rest else rest)

/-- The port has this text still to hand out: what is ready, and what the rest of the file becomes. -/
def Facing (r : Reading) (file : List UInt8) (text : List Char) : Prop :=
  ∃ rest, Text.Utf8.Facing r.leftOver rest (file.drop r.position) ∧ text = r.ready ++ r.pending rest

/-- At the start this is the whole file, with unified line breaks. -/
theorem Facing.start (cs : List Char) : Facing {} (encode cs) (unifyBreaks cs) :=
  ⟨cs, .between List.drop_zero, rfl⟩

theorem fill_nil : fill [] = do return [← drain] := by
  rw [fill]
  rfl

theorem fill_of_ne_nil {rest : List UInt8} (nonempty : rest ≠ []) :
    fill rest = do
      let text ← fetch (rest.take blockSize)
      if text.contains '\n' then return [text]
      else return text :: (← fill (rest.drop blockSize)) := by
  rw [fill, if_neg (by simpa using nonempty)]

variable {r : Reading} {file : List UInt8} {cs : List Char}

/-- A block is taken in, and what it completes is the next part of the text to hand out. -/
theorem exists_fetch (facing : Text.Utf8.Facing r.leftOver cs (file.drop r.position)) :
    ∃ text after rest, fetch ((file.drop r.position).take blockSize) r = .ok text after ∧
      Text.Utf8.Facing after.leftOver rest (file.drop after.position) ∧
      file.drop after.position = (file.drop r.position).drop blockSize ∧
      text ++ after.pending rest = r.pending cs ∧ after.ready = r.ready := by
  let block := (file.drop r.position).take blockSize
  let moved := { r with position := r.position + block.length }
  have behind : file.drop moved.position = (file.drop r.position).drop blockSize := by
    rw [← List.drop_drop]
    conv_lhs => rw [← List.take_append_drop blockSize (file.drop r.position)]
    exact List.drop_left
  rw [← List.take_append_drop blockSize (file.drop r.position), ← behind] at facing
  obtain ⟨read, rest, leftOver, decoded, facingRest, rfl⟩ := facing.exists_decodePiece
  have fetched : fetch block r = .ok (moved.accept read leftOver).1 (moved.accept read leftOver).2 := by
    rw [fetch, run_get_bind]
    simp only [block, decoded]
    rfl
  refine ⟨_, _, rest, fetched, ?_⟩
  cases read with
  | nil => exact ⟨facingRest, behind, rfl, rfl⟩
  | cons c read =>
      refine ⟨facingRest, behind, ?_, rfl⟩
      have unified := Text.unifyBreaks_holdReturn (if r.heldReturn then '\r' :: c :: read else c :: read) rest
      refine unified.trans ?_
      rw [pending]
      split <;> rfl

/-- At the end of the file there is a line break left if a carriage return is held back, and nothing else. -/
theorem drain_of_facing (facing : Text.Utf8.Facing r.leftOver cs []) :
    drain r = .ok (r.pending cs) { r with heldReturn := false } := by
  obtain ⟨rfl, noneBegun⟩ := facing.ended
  rw [drain, run_get_bind, noneBegun]
  cases held : r.heldReturn <;> simp [pending, held, Text.unifyBreaks, Text.Utf8.finish] <;> rfl

/-- The file is taken in until a line is complete, or to its end; what that gives is the next part of the text to hand
    out. The induction is on what is left of the file, block by block. -/
theorem exists_fill (facing : Text.Utf8.Facing r.leftOver cs (file.drop r.position)) :
    ∃ texts after rest, fill (file.drop r.position) r = .ok texts after ∧
      Text.Utf8.Facing after.leftOver rest (file.drop after.position) ∧
      texts.flatten ++ after.pending rest = r.pending cs ∧ after.ready = r.ready ∧
      ('\n' ∈ texts.flatten ∨ after.pending rest = []) := by
  induction length : (file.drop r.position).length using Nat.strongRecOn generalizing r cs with
  | ind n ih =>
      by_cases ended : file.drop r.position = []
      · have drained := facing
        rw [ended] at drained
        have noneLeft := drained.ended.1
        refine ⟨[r.pending cs], { r with heldReturn := false }, cs, ?_, facing, ?_, rfl, .inr ?_⟩
        · rw [ended, fill_nil, run_bind_of_ok (drain_of_facing drained)]
          rfl
        · simp [pending, noneLeft, Text.unifyBreaks]
        · simp [pending, noneLeft, Text.unifyBreaks]
      · obtain ⟨text, next, others, fetched, facingNext, behind, sameText, sameReady⟩ := exists_fetch facing
        by_cases whole : '\n' ∈ text
        · refine ⟨[text], next, others, ?_, facingNext, by simpa using sameText, sameReady, .inl (by simpa using whole)⟩
          rw [fill_of_ne_nil ended, run_bind_of_ok fetched, if_pos (by simpa using whole)]
          rfl
        · have shorter : (file.drop next.position).length < n := by
            have := List.length_pos_iff.2 ended
            rw [behind, List.length_drop, blockSize]
            omega
          obtain ⟨texts, after, rest, filled, facingRest, sameRest, sameReady', stops⟩ :=
            ih _ shorter facingNext rfl
          refine ⟨text :: texts, after, rest, ?_, facingRest, ?_, sameReady'.trans sameReady, ?_⟩
          · rw [fill_of_ne_nil ended, run_bind_of_ok fetched, if_neg (by simpa using whole), ← behind,
              run_bind_of_ok filled]
            rfl
          · rw [List.flatten_cons, List.append_assoc, sameRest, sameText]
          · rw [List.flatten_cons]
            exact stops.imp_left (List.mem_append_right _)

/-- A line that is read is the first line of the text to hand out, and the rest of this text is still to come. -/
theorem exists_readLine {text : List Char} (facing : r.Facing file text) :
    ∃ after, readLine file r = .ok (Text.takeLine text).1 after ∧ after.Facing file (Text.takeLine text).2 := by
  obtain ⟨cs, coming, rfl⟩ := facing
  by_cases whole : '\n' ∈ r.ready
  · refine ⟨{ r with ready := (Text.takeLine r.ready).2 }, ?_, cs, coming, ?_⟩
    · rw [Text.takeLine_append_of_mem whole, readLine, run_get_bind]
      simp only [List.contains_iff_mem, whole, if_true]
      rfl
    · rw [Text.takeLine_append_of_mem whole]
      rfl
  · obtain ⟨texts, after, rest, filled, facingRest, sameText, nothingReady, stops⟩ :=
      @exists_fill { r with ready := [] } file cs coming
    have first : Text.takeLine (r.ready ++ r.pending cs) =
        ((Text.takeLine (r.ready ++ texts.flatten)).1,
          (Text.takeLine (r.ready ++ texts.flatten)).2 ++ after.pending rest) := by
      have split : r.ready ++ r.pending cs = r.ready ++ texts.flatten ++ after.pending rest := by
        rw [List.append_assoc, sameText]
        rfl
      rw [split]
      rcases stops with complete | noMore
      · exact Text.takeLine_append_of_mem (List.mem_append_right _ complete) _
      · rw [noMore, List.append_nil, List.append_nil]
    rw [first]
    refine ⟨{ after with ready := (Text.takeLine (r.ready ++ texts.flatten)).2 }, ?_, rest, facingRest, rfl⟩
    rw [readLine, run_get_bind]
    simp only [List.contains_iff_mem, whole, if_false]
    exact run_bind_of_ok filled _

end Reading

end SmallScheme
