import SmallScheme.Proofs.RoundTrip

/-
Module: SmallScheme.Proofs.WrittenLines
Purpose: What a line of a written value reads as. Only strings put line breaks into the written form of data. Without
  one the written form is a single line, which reads as the value; with one, the first line ends inside the literal of
  a string, and reads as a string that is not terminated, whatever the rest of the value is.
Main exports: Value.Contains, Value.OneLine, BreaksInside, render_unbroken, breaksInside_render, read_line,
  read_brokenLine
-/

namespace SmallScheme

open Reader (isSymbolPart)

/-- A character that ends a line of a file. -/
def IsBreak (c : Char) : Prop :=
  c = '\n' ∨ c = '\r'

instance (c : Char) : Decidable (IsBreak c) :=
  inferInstanceAs (Decidable (c = '\n' ∨ c = '\r'))

/-- A text without line breaks. -/
def Unbroken (cs : List Char) : Prop :=
  ∀ c ∈ cs, ¬ IsBreak c

instance (cs : List Char) : Decidable (Unbroken cs) :=
  List.decidableBAll (fun c => ¬ IsBreak c) cs

namespace Value

/-- The string occurs in the value. -/
inductive Contains (s : String) : Value → Prop where
  | self : Contains s (.str s)
  | item {items : List Value} {v : Value} (member : v ∈ items) (inside : Contains s v) : Contains s (.list items)
  | head {heads : List Value} {tail v : Value} (member : v ∈ heads) (inside : Contains s v) :
      Contains s (.dotted heads tail)
  | tail {heads : List Value} {tail : Value} (inside : Contains s tail) : Contains s (.dotted heads tail)

/-- No string that occurs in the value has a line break. -/
def OneLine (v : Value) : Prop :=
  ∀ s, v.Contains s → Unbroken s.toList

theorem oneLine_str {s : String} : OneLine (.str s) ↔ Unbroken s.toList := by
  constructor
  · exact fun oneLine => oneLine s .self
  · rintro unbroken _ ⟨⟩
    exact unbroken

/-- Values that are neither strings nor lists have no strings in them. -/
theorem oneLine_of_leaf {v : Value} (notString : ∀ s, v ≠ .str s) (notList : ¬ v.IsList) : OneLine v := by
  rintro s (_ | _ | _ | _)
  · exact absurd rfl (notString s)
  all_goals exact absurd trivial notList

theorem oneLine_list {items : List Value} : OneLine (.list items) ↔ ∀ v ∈ items, OneLine v := by
  constructor
  · exact fun oneLine v member s inside => oneLine s (.item member inside)
  · intro oneLine s inside
    cases inside with
    | item member inside => exact oneLine _ member s inside

theorem oneLine_dotted {heads : List Value} {tail : Value} :
    OneLine (.dotted heads tail) ↔ (∀ v ∈ heads, OneLine v) ∧ OneLine tail := by
  constructor
  · intro oneLine
    exact ⟨fun v member s inside => oneLine s (.head member inside), fun s inside => oneLine s (.tail inside)⟩
  · rintro ⟨headsOneLine, tailOneLine⟩ s inside
    cases inside with
    | head member inside => exact headsOneLine _ member s inside
    | tail inside => exact tailOneLine s inside

end Value

/-!
### Where a text breaks
-/

/-- A piece of text at an offset leaves a string literal open. -/
def LeavesOpen (offset : Nat) (cs : List Char) : Prop :=
  ∀ found, ∃ start read tokens,
    cs.foldl Scanner.push (.ready offset found) = ⟨.string start read, offset + cs.length, tokens⟩

/-- The first line break of a piece of text is inside a string literal. -/
def BreaksInside (offset : Nat) (cs : List Char) : Prop :=
  ∃ before c after, cs = before ++ c :: after ∧ IsBreak c ∧ Unbroken before ∧ LeavesOpen offset before

section Pieces

variable {offset : Nat} {cs ds : List Char} {ts : List Token}

theorem unbroken_append : Unbroken (cs ++ ds) ↔ Unbroken cs ∧ Unbroken ds :=
  List.forall_mem_append

theorem BreaksInside.append (breaks : BreaksInside offset cs) (ds : List Char) : BreaksInside offset (cs ++ ds) := by
  obtain ⟨before, c, after, rfl, isBreak, unbroken, opens⟩ := breaks
  exact ⟨before, c, after ++ ds, by rw [List.append_assoc, List.cons_append], isBreak, unbroken, opens⟩

theorem ScansShut.append_breaksInside (first : ScansShut offset cs ts) (unbroken : Unbroken cs)
    (second : BreaksInside (offset + cs.length) ds) : BreaksInside offset (cs ++ ds) := by
  obtain ⟨before, c, after, rfl, isBreak, unbrokenBefore, opens⟩ := second
  refine ⟨cs ++ before, c, after, (List.append_assoc ..).symm, isBreak, unbroken_append.2 ⟨unbroken, unbrokenBefore⟩,
    fun found => ?_⟩
  obtain ⟨start, read, tokens, opened⟩ := opens (ts.reverse ++ found)
  refine ⟨start, read, tokens, ?_⟩
  rw [List.foldl_append, first found, opened, List.length_append, Nat.add_assoc]

theorem Scans.append_breaksInside (first : Scans offset cs ts) (unbroken : Unbroken cs)
    (second : BreaksInside (offset + cs.length) ds) (apart : StartsApart ds) : BreaksInside offset (cs ++ ds) := by
  obtain ⟨before, c, after, rfl, isBreak, unbrokenBefore, opens⟩ := second
  refine ⟨cs ++ before, c, after, (List.append_assoc ..).symm, isBreak, unbroken_append.2 ⟨unbroken, unbrokenBefore⟩,
    fun found => ?_⟩
  obtain ⟨start, read, tokens, opened⟩ := opens (ts.reverse ++ found)
  refine ⟨start, read, tokens, ?_⟩
  cases before with
  | nil => cases opened
  | cons b before =>
      rw [List.foldl_append, ← Scanner.foldl_push_settle _ before (apart b rfl), first found, opened,
        List.length_append, Nat.add_assoc]

end Pieces

/-!
### Values
-/

theorem unbroken_renderChars {text : List Char} (unbroken : Unbroken text) :
    Unbroken (text.flatMap Value.renderChar) := by
  intro c member
  obtain ⟨d, inside, written⟩ := List.mem_flatMap.1 member
  unfold Value.renderChar at written
  split at written
  · rcases List.mem_cons.1 written with rfl | rest
    · decide
    · exact List.mem_singleton.1 rest ▸ unbroken d inside
  · exact List.mem_singleton.1 written ▸ unbroken d inside

theorem unbroken_of_parts {cs : List Char} (parts : ∀ c ∈ cs, isSymbolPart c = true) : Unbroken cs := by
  rintro c member (rfl | rfl) <;> exact absurd (parts _ member) (by decide)

theorem unbroken_renderString {s : String} (unbroken : Unbroken s.toList) : Unbroken (Value.renderString s) := by
  have quote : Unbroken ['"'] := by
    rw [Unbroken, List.forall_mem_singleton]
    decide
  exact List.forall_mem_cons.2 ⟨by decide, unbroken_append.2 ⟨unbroken_renderChars unbroken, quote⟩⟩

/-- A string literal breaks inside, at the first line break of the string. -/
theorem breaksInside_renderString {s : String} (broken : ¬ Unbroken s.toList) (offset : Nat) :
    BreaksInside offset (Value.renderString s) := by
  obtain ⟨before, c, after, split, notPlain, unbroken⟩ := exists_first_of_not_forall broken
  have isBreak : IsBreak c := not_not.1 notPlain
  have asItIs : Value.renderChar c = [c] := by
    rcases isBreak with rfl | rfl <;> rfl
  refine ⟨'"' :: before.flatMap Value.renderChar, c, after.flatMap Value.renderChar ++ ['"'], ?_, isBreak,
    List.forall_mem_cons.2 ⟨by decide, unbroken_renderChars unbroken⟩, fun found => ?_⟩
  · simp [Value.renderString, split, asItIs]
  · have start : Scanner.push (.ready offset found) '"' = ⟨.string offset [], offset + 1, found⟩ := rfl
    refine ⟨offset, (before.flatMap Value.renderChar).reverse ++ [], found, ?_⟩
    rw [List.foldl_cons, start, foldl_push_string offset found (stringBody_renderChar before), List.length_cons,
      Nat.add_assoc, Nat.add_comm 1]

mutual

/-- Data without line breaks in strings are written on one line. -/
theorem unbroken_render : ∀ {v : Value}, v.Canonical → v.OneLine → Unbroken v.render
  | .bool true, _, _ | .bool false, _, _ => unbroken_of_parts (List.all_eq_true.1 (by decide))
  | .num n, data, _ => by
      rcases Number.Numeral.written_decimal data with ⟨numeral, written, _⟩
      exact unbroken_of_parts (parts_of_written written).2
  | .sym name, data, _ => unbroken_of_parts (parts_of_symbolWord data).2
  | .str s, _, oneLine => unbroken_renderString (Value.oneLine_str.1 oneLine)
  | .list items, data, oneLine => by
      have inside := unbroken_renderAll data (Value.oneLine_list.1 oneLine)
      exact unbroken_append.2 ⟨List.forall_mem_cons.2 ⟨by decide, inside⟩, List.forall_mem_singleton.2 (by decide)⟩
  | .dotted heads tail, data, oneLine => by
      obtain ⟨headsOneLine, tailOneLine⟩ := Value.oneLine_dotted.1 oneLine
      have headsUnbroken := unbroken_renderAll data.2.1 headsOneLine
      have tailUnbroken := unbroken_render data.2.2.2 tailOneLine
      have dot : Unbroken " . ".toList := by decide
      exact unbroken_append.2 ⟨List.forall_mem_cons.2 ⟨by decide, headsUnbroken⟩,
        unbroken_append.2 ⟨unbroken_append.2 ⟨dot, tailUnbroken⟩, List.forall_mem_singleton.2 (by decide)⟩⟩
  | .closure .., data, _ | .prim _, data, _ | .port _, data, _ => data.elim

theorem unbroken_renderAll : ∀ {vs : List Value}, Value.BuiltAll Value.DataLeaf vs → (∀ v ∈ vs, v.OneLine) →
    Unbroken (Value.renderAll vs)
  | [], _, _ => fun _ member => absurd member List.not_mem_nil
  | v :: vs, data, oneLine => by
      obtain ⟨first, others⟩ := List.forall_mem_cons.1 oneLine
      exact unbroken_append.2 ⟨unbroken_render data.1 first, unbroken_renderMore data.2 others⟩

theorem unbroken_renderMore : ∀ {vs : List Value}, Value.BuiltAll Value.DataLeaf vs → (∀ v ∈ vs, v.OneLine) →
    Unbroken (Value.renderMore vs)
  | [], _, _ => fun _ member => absurd member List.not_mem_nil
  | v :: vs, data, oneLine => by
      obtain ⟨first, others⟩ := List.forall_mem_cons.1 oneLine
      exact unbroken_append.2
        ⟨List.forall_mem_cons.2 ⟨by decide, unbroken_render data.1 first⟩, unbroken_renderMore data.2 others⟩

end

mutual

/-- Other data are broken inside a literal, wherever they are written. -/
theorem breaksInside_render : ∀ {v : Value}, v.Canonical → ¬ v.OneLine → ∀ offset, BreaksInside offset v.render
  | .str s, _, broken, offset => breaksInside_renderString (fun unbroken => broken (Value.oneLine_str.2 unbroken)) offset
  | .list items, data, broken, offset => by
      have itemsBreak := breaksInside_renderAll data (fun oneLine => broken (Value.oneLine_list.2 oneLine)) (offset + 1)
      exact (scansShut_openParen.append_breaksInside (by decide) itemsBreak).append [')']
  | .dotted heads tail, ⟨_, headsData, _, tailData⟩, broken, offset => by
      rw [Value.render_dotted, List.cons_append]
      refine scansShut_openParen.append_breaksInside (by decide) ?_
      by_cases headsOneLine : ∀ v ∈ heads, v.OneLine
      · have tailBroken : ¬ tail.OneLine := fun oneLine => broken (Value.oneLine_dotted.2 ⟨headsOneLine, oneLine⟩)
        rcases exists_derives_renderAll headsData (offset + 1) with ⟨ts, _, headsScan⟩
        have tailBreaks := breaksInside_render tailData tailBroken
        have dotted := scansShut_dot.append_breaksInside (by decide)
          (tailBreaks (offset + 1 + (Value.renderAll heads).length + " . ".toList.length))
        refine headsScan.append_breaksInside (unbroken_renderAll headsData headsOneLine) (dotted.append [')']) ?_
        rintro c ⟨⟩
        decide
      · exact (breaksInside_renderAll headsData headsOneLine (offset + 1)).append _
  | .bool _, _, broken, _ | .num _, _, broken, _ | .sym _, _, broken, _ =>
      absurd (Value.oneLine_of_leaf (by simp) id) broken
  | .closure .., data, _, _ | .prim _, data, _, _ | .port _, data, _, _ => data.elim

theorem breaksInside_renderAll : ∀ {vs : List Value}, Value.BuiltAll Value.DataLeaf vs → ¬ (∀ v ∈ vs, v.OneLine) →
    ∀ offset, BreaksInside offset (Value.renderAll vs)
  | [], _, broken, _ => absurd (fun _ member => absurd member List.not_mem_nil) broken
  | v :: vs, data, broken, offset => by
      by_cases first : v.OneLine
      · have others : ¬ ∀ w ∈ vs, w.OneLine := fun oneLine => broken (List.forall_mem_cons.2 ⟨first, oneLine⟩)
        rcases exists_derives_render data.1 offset with ⟨ts, _, scan⟩
        exact scan.append_breaksInside (unbroken_render data.1 first) (breaksInside_renderMore data.2 others _)
          (startsApart_renderMore vs)
      · exact (breaksInside_render data.1 first offset).append _

theorem breaksInside_renderMore : ∀ {vs : List Value}, Value.BuiltAll Value.DataLeaf vs → ¬ (∀ v ∈ vs, v.OneLine) →
    ∀ offset, BreaksInside offset (Value.renderMore vs)
  | [], _, broken, _ => absurd (fun _ member => absurd member List.not_mem_nil) broken
  | v :: vs, data, broken, offset => by
      have blank : ScansShut offset [' '] [] := scansShut_blank rfl
      have inside : BreaksInside (offset + 1) (Value.renderAll (v :: vs)) := breaksInside_renderAll data broken _
      exact blank.append_breaksInside (by decide) inside

end

/-!
### Lines
-/

/-- The line of a value reads as the value. -/
theorem read_line {v : Value} (data : v.Canonical) : read (v.render ++ ['\n']) = .ok v := by
  rcases exists_derives_render data 0 with ⟨ts, derives, scans⟩
  have lineFeed : ScansShut (0 + v.render.length) ['\n'] [] := scansShut_blank rfl
  have line : Scans 0 (v.render ++ ['\n']) (ts ++ []) := (scans.append_shut lineFeed (by decide)).scans
  rw [List.append_nil] at line
  exact read_eq_ok_iff.2 ⟨ts, tokenize_eq_ok_iff.2 (lex_of_scans line), derives⟩

/-- A line that ends inside a string literal reads as a string that is not terminated. -/
theorem read_of_leavesOpen {cs : List Char} (opens : LeavesOpen 0 cs) :
    ∃ place, read (cs ++ ['\n']) = .error (.unreadable .unterminatedString place) := by
  obtain ⟨start, body, tokens, opened⟩ := opens []
  have lexed : lex (cs ++ ['\n']) = ⟨tokens.reverse, some start⟩ := by
    change ((cs ++ ['\n']).foldl Scanner.push (.ready 0 [])).finish = _
    rw [List.foldl_append, opened]
    rfl
  have refused := tokenize_eq_error_iff.2 ⟨_, _, lexed, rfl⟩
  exact ⟨_, bind_eq_error_iff.2 (.inl refused)⟩

end SmallScheme
