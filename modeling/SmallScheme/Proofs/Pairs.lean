import SmallScheme.Proofs.Operations
import SmallScheme.Proofs.RoundTrip

/-
Module: SmallScheme.Proofs.Pairs
Purpose: Lists of both kinds are pairs. What was put in front of a value is the first of the result, and the value is the
  rest; a list that is not empty is its first put in front of its rest. The laws of the rest need the normal form: a dotted
  list without heads would not come back, and one head before a list is a list of another kind. Putting heads in front one
  by one gives what the reader makes of heads and a tail after a dot, so the procedures and the reader build the same lists.
Main exports: Value.first?_cons, Value.rest?_cons, Value.cons_of_parts, Value.exists_parts, foldrM_callCons,
  read_render_dotted, pair_laws
-/

namespace SmallScheme

namespace Value

variable {leaf : Value → Prop} {v x y : Value}

theorem first?_cons (x y : Value) : (cons x y).first? = some x := by
  cases y <;> rfl

/-- The rest is the value before which an element was put. -/
theorem rest?_cons (x : Value) (normal : Built leaf y) : (cons x y).rest? = some y := by
  cases y with
  | dotted heads tail =>
      obtain ⟨nonempty, _⟩ := built_dotted.1 normal
      cases heads with
      | nil => exact absurd rfl nonempty
      | cons => rfl
  | _ => rfl

/-- A list is its first element put before its rest. -/
theorem cons_of_parts (normal : Built leaf v) (first : v.first? = some x) (rest : v.rest? = some y) : cons x y = v := by
  unfold first? at first
  split at first <;> cases first
  · cases rest
    rfl
  · rename_i heads tail
    cases heads with
    | nil =>
        cases rest
        obtain ⟨_, _, plain, _⟩ := built_dotted.1 normal
        rw [cons_eq_joinTail, joinTail_of_not_isList plain]
    | cons =>
        cases rest
        rfl

/-- A list that is not empty has a first element and a rest. -/
theorem exists_parts (normal : Built leaf v) (isList : v.IsList) (nonempty : v ≠ .list []) :
    ∃ x y, v.first? = some x ∧ v.rest? = some y := by
  have isSome : v.first?.isSome := by
    cases v with
    | list items =>
        cases items with
        | nil => exact absurd rfl nonempty
        | cons => rfl
    | dotted heads tail =>
        obtain ⟨headed, _⟩ := built_dotted.1 normal
        cases heads with
        | nil => exact absurd rfl headed
        | cons => rfl
    | _ => exact isList.elim
  obtain ⟨x, first⟩ := Option.isSome_iff_exists.1 isSome
  obtain ⟨y, rest⟩ := Option.isSome_iff_exists.1 (first?_isSome_iff v ▸ isSome)
  exact ⟨x, y, first, rest⟩

end Value

/-- Heads put before a tail one by one, from the last, are joined to it. -/
theorem foldrM_callCons (x : Value) (heads : List Value) (tail : Value) :
    (x :: heads).foldrM (fun x y => callCons [x, y]) tail = .ok (Value.joinTail (x :: heads) tail) := by
  induction heads generalizing x with
  | nil => rw [← Value.cons_eq_joinTail]; rfl
  | cons y heads ih =>
      rw [List.foldrM_cons, ih, Value.joinTail_cons]
      rfl

/-- A dotted list of canonical data in written form is read as its heads joined to its tail. -/
theorem read_render_dotted {heads : List Value} {tail : Value} (nonempty : heads ≠ [])
    (headsData : ∀ x ∈ heads, x.Canonical) (tailData : tail.Canonical) :
    read (Value.dotted heads tail).render = .ok (Value.joinTail heads tail) := by
  rcases exists_derives_dotted nonempty (exists_derives_renderAll (Value.builtAll_iff.2 headsData))
    (exists_derives_render tailData) 0 with ⟨ts, derives, scans⟩
  exact read_eq_ok_iff.2 ⟨ts, tokenize_eq_ok_iff.2 (lex_of_scans scans), derives⟩

/-- The laws of pairs. Of a pair made by `cons`, `car` gives back the first part and `cdr` the second; and `cons` of the
    `car` and the `cdr` of a list that is not empty is the list. For heads and a tail after a dot, the reader makes what
    `cons` makes of the heads, one before the other, and the tail; so the text of canonical heads and a canonical tail
    between parentheses, with a dot before the tail, is read as this value. -/
theorem pair_laws :
    (∀ x y : Value, x.WellFormed → y.WellFormed →
      (do let p ← callCons [x, y]; callFirst [p]) = .ok x ∧ (do let p ← callCons [x, y]; callRest [p]) = .ok y) ∧
    (∀ p : Value, p.WellFormed → p.IsList → p ≠ .list [] →
      (do let x ← callFirst [p]; let y ← callRest [p]; callCons [x, y]) = .ok p) ∧
    (∀ (heads : List Value) (tail : Value), heads ≠ [] →
      heads.foldrM (fun x y => callCons [x, y]) tail = .ok (Value.joinTail heads tail)) ∧
    (∀ (heads : List Value) (tail : Value), heads ≠ [] → (∀ x ∈ heads, x.Canonical) → tail.Canonical →
      read ('(' :: Value.renderAll heads ++ (" . ".toList ++ tail.render ++ [')'])) =
        .ok (Value.joinTail heads tail)) := by
  refine ⟨fun x y _ wellFormed => ⟨?_, ?_⟩, fun p wellFormed isList nonempty => ?_, fun heads tail nonempty => ?_,
    fun heads tail nonempty headsData tailData => read_render_dotted nonempty headsData tailData⟩
  · exact callFirst_eq_ok_iff.2 ⟨_, rfl, Value.first?_cons x y⟩
  · exact callRest_eq_ok_iff.2 ⟨_, rfl, Value.rest?_cons x wellFormed⟩
  · obtain ⟨x, y, first, rest⟩ := Value.exists_parts wellFormed isList nonempty
    rw [callFirst_eq_ok_iff.2 ⟨p, rfl, first⟩, callRest_eq_ok_iff.2 ⟨p, rfl, rest⟩]
    exact congrArg Except.ok (Value.cons_of_parts wellFormed first rest)
  · obtain ⟨x, heads, rfl⟩ := List.exists_cons_of_ne_nil nonempty
    exact foldrM_callCons x heads tail

/-- Heads that end in a string which itself looks like a dotted list. -/
def mergedHeads : List Value :=
  [.sym "a", .str "(b . c)"]

/-- A tail that is a dotted list, so that its head is merged into the heads. -/
def mergedTail : Value :=
  .dotted [.num (-7)] (.bool false)

theorem pair_laws_mergedTail :
    mergedHeads ≠ [] ∧ (∀ x ∈ mergedHeads, x.Canonical) ∧ mergedTail.Canonical ∧
      read "(a \"(b . c)\" . (-7 . #f))".toList = .ok (.dotted (mergedHeads ++ [.num (-7)]) (.bool false)) ∧
      mergedHeads.foldrM (fun x y => callCons [x, y]) mergedTail =
        .ok (.dotted (mergedHeads ++ [.num (-7)]) (.bool false)) ∧
      (do let p ← callCons [.port 0, mergedTail]; callFirst [p]) = .ok (.port 0) ∧
      (do let p ← callCons [.port 0, mergedTail]; callRest [p]) = .ok mergedTail ∧
      (do let x ← callFirst [mergedTail]; let y ← callRest [mergedTail]; callCons [x, y]) = .ok mergedTail := by
  have nonempty : mergedHeads ≠ [] := List.cons_ne_nil _ _
  have headsData : ∀ x ∈ mergedHeads, x.Canonical := by decide
  have tailData : mergedTail.Canonical := by decide
  obtain ⟨parts, whole, joined, readBack⟩ := pair_laws
  have port : (Value.port 0).WellFormed := trivial
  obtain ⟨first, rest⟩ := parts (.port 0) mergedTail port tailData.wellFormedOver
  have text : "(a \"(b . c)\" . (-7 . #f))".toList =
      '(' :: Value.renderAll mergedHeads ++ (" . ".toList ++ mergedTail.render ++ [')']) := by decide
  refine ⟨nonempty, headsData, tailData, ?_, joined mergedHeads mergedTail nonempty, first, rest, ?_⟩
  · rw [text]
    exact readBack mergedHeads mergedTail nonempty headsData tailData
  · exact whole mergedTail tailData.wellFormedOver trivial (by simp [mergedTail])

end SmallScheme
