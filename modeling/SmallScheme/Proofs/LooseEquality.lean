import SmallScheme.Proofs.Coercions
import SmallScheme.Proofs.StrictEquality

/-
Module: SmallScheme.Proofs.LooseEquality
Purpose: Loose equality as equality of normal forms, and so as an equivalence, although it mixes three coercions with strict
  equality and compares lists element by element. The loose form of a value has a number for whatever can be taken as one,
  a list around it included, and a string for each truth value. Two values agree as numbers, as texts, as truth values or
  strictly exactly if their loose forms are equal: as a number of 64 bits is read back from its text, values that agree as
  texts have the same loose form. The number in a loose form is the one that numeric procedures take the value for.
Main exports: Value.loosen, Value.looseForm, toNumber_eq_ok_iff_looseForm, Value.Comparable, Decides, isEqual_decides,
  isEqual_laws
-/

namespace SmallScheme

/-!
### Loose forms
-/

namespace Value

/-- The only element of a list if it is a number, and the list otherwise. -/
def unwrap : List Value → Value
  | [.num n] => .num n
  | items => .list items

mutual

/-- The value with numbers for all that can be taken as numbers, and strings for truth values. -/
def loosen : Value → Value
  | .bool true => .str "true"
  | .bool false => .str "false"
  | .str s =>
    match numberIn s with
    | .ok n => .num n
    | .error _ => .str s
  | .list items => unwrap (loosenAll items)
  | .dotted heads tail => .dotted (loosenAll heads) (loosen tail)
  | .num n => .num n
  | .sym name => .sym name
  | .closure params rest? body s => .closure params rest? body s
  | .prim p => .prim p
  | .port id => .port id

/-- Each value with numbers for all that can be taken as numbers, and strings for truth values. -/
def loosenAll : List Value → List Value
  | [] => []
  | v :: vs => loosen v :: loosenAll vs

end

/-- The normal form of a value under loose equality in a memory. -/
def looseForm (h : Heap) (v : Value) : Value :=
  (v.rescope h.oldest).loosen

/-- The normal forms of the elements of a list. -/
def looseForms (h : Heap) (vs : List Value) : List Value :=
  loosenAll (rescopeAll h.oldest vs)

theorem unwrap_eq_num_iff {items : List Value} {n : Int} : unwrap items = .num n ↔ items = [.num n] := by
  unfold unwrap
  split <;> simp_all

theorem unwrap_eq_num_or_list (items : List Value) : (∃ n, unwrap items = .num n) ∨ unwrap items = .list items := by
  unfold unwrap
  split
  · exact .inl ⟨_, rfl⟩
  · exact .inr rfl

/-- Different lists stay different if one-element lists of numbers are taken as the numbers. -/
theorem unwrap_injective : Function.Injective unwrap := by
  intro items others same
  unfold unwrap at same
  split at same <;> split at same <;> simp_all

section Forms

variable {h : Heap}

@[simp] theorem looseForm_list (items : List Value) : looseForm h (.list items) = unwrap (looseForms h items) := by
  simp only [looseForm, looseForms, rescope, loosen]

@[simp] theorem looseForm_dotted (heads : List Value) (tail : Value) :
    looseForm h (.dotted heads tail) = .dotted (looseForms h heads) (looseForm h tail) := by
  simp only [looseForm, looseForms, rescope, loosen]

@[simp] theorem looseForms_nil : looseForms h [] = [] := by
  simp only [looseForms, rescopeAll, loosenAll]

@[simp] theorem looseForms_cons (v : Value) (vs : List Value) :
    looseForms h (v :: vs) = looseForm h v :: looseForms h vs := by
  simp only [looseForm, looseForms, rescopeAll, loosenAll]

theorem length_looseForms (vs : List Value) : (looseForms h vs).length = vs.length := by
  induction vs with
  | nil => simp
  | cons v vs ih => simp [ih]

/-- Lists of different lengths have different loose forms. -/
theorem looseForms_ne {vs ws : List Value} (otherLength : vs.length ≠ ws.length) :
    looseForms h vs ≠ looseForms h ws := by
  intro same
  apply otherLength
  rw [← length_looseForms (h := h) vs, same, length_looseForms]

theorem looseForm_str (s : String) :
    looseForm h (.str s) = match numberIn s with
      | .ok n => .num n
      | .error _ => .str s := by
  simp only [looseForm, rescope, loosen]

end Forms

end Value

section Coercions

variable {h : Heap}

/-- A value is taken as a number exactly if its loose form is that number. -/
theorem toNumber_eq_ok_iff_looseForm : ∀ {v : Value} {n : Int}, toNumber v = .ok n ↔ v.looseForm h = .num n
  | .num _, _ => by simp [toNumber, Value.looseForm, Value.rescope, Value.loosen]
  | .str s, _ => by
      rw [toNumber, Value.looseForm_str]
      cases numberIn s <;> simp
  | .bool b, _ => by cases b <;> simp [toNumber, Value.looseForm, Value.rescope, Value.loosen]
  | .list [], _ => by simp [toNumber, Value.unwrap]
  | .list [v], _ => by
      rw [toNumber, toNumber_eq_ok_iff_looseForm (v := v), Value.looseForm_list, Value.unwrap_eq_num_iff]
      simp
  | .list (_ :: _ :: _), _ => by simp [toNumber, Value.unwrap]
  | .dotted .., _ => by simp [toNumber]
  | .sym _, _ | .closure .., _ | .prim _, _ | .port _, _ => by
      simp [toNumber, Value.looseForm, Value.rescope, Value.loosen]

/-- A value that no coercion takes and that is no list. -/
def Value.Uncoerced : Value → Prop
  | .sym _ | .closure .. | .prim _ | .port _ => True
  | _ => False

/-- What a loose form tells about the value. -/
inductive LooseShape (h : Heap) (v : Value) : Value → Prop where
  | number {n : Int} (taken : toNumber v = .ok n) : LooseShape h v (.num n)
  | text {t : String} (taken : toText v = .ok t) : LooseShape h v (.str t)
  | list {items forms : List Value} (made : v = .list items) : LooseShape h v (.list forms)
  | dotted {heads forms : List Value} {tail form : Value} (made : v = .dotted heads tail) :
      LooseShape h v (.dotted forms form)
  | strict {form : Value} (kept : form = v.rescope h.oldest) (uncoerced : form.Uncoerced) : LooseShape h v form

theorem looseShape (h : Heap) (v : Value) : LooseShape h v (v.looseForm h) := by
  cases v with
  | num n => exact .number rfl
  | bool b => cases b <;> exact .text rfl
  | str s =>
      rw [Value.looseForm_str]
      cases taken : numberIn s with
      | ok n => exact .number taken
      | error fault => exact .text rfl
  | list items =>
      obtain ⟨n, isNumber⟩ | isList := Value.unwrap_eq_num_or_list (Value.looseForms h items)
      · rw [Value.looseForm_list, isNumber]
        exact .number (toNumber_eq_ok_iff_looseForm.2 ((Value.looseForm_list items).trans isNumber))
      · rw [Value.looseForm_list, isList]
        exact .list rfl
  | dotted heads tail =>
      rw [Value.looseForm_dotted]
      exact .dotted rfl
  | sym | closure | prim | port => exact .strict rfl trivial

end Coercions

/-!
### Values that can be compared
-/

namespace Value

/-- A well-formed value in which no string holds a numeral too long to be converted. -/
def Comparable (v : Value) : Prop :=
  Built (fun leaf => RuntimeLeaf (fun _ => True) leaf ∧ NumeralFits leaf) v

end Value

open Value (Comparable)

/-- Inside the lists of one element around a comparable value there is no numeral too long to be converted. -/
theorem Value.Comparable.numeralFits_stripped {v : Value} (comparable : Comparable v) : v.stripped.NumeralFits := by
  fun_induction Value.stripped v with
  | case1 v ih => exact ih (Value.built_list.1 comparable v List.mem_cons_self)
  | case2 v =>
      cases v with
      | str s => exact comparable.2
      | _ => trivial

/-- A number of 64 bits is taken back from its text. -/
theorem numberIn_decimal {n : Int} (fits : Number.InRange n) : numberIn (String.ofList (Number.decimal n)) = .ok n := by
  obtain ⟨numeral, written, denotes⟩ := Number.Numeral.written_decimal fits
  have visible : ∀ c ∈ Number.decimal n, Text.isBlank c = false := fun c member =>
    isBlank_of_not_endsWord (endsWord_of_isSymbolPart ((parts_of_written written).2 c member)).1
  rw [numberIn, String.toList_ofList, Text.trim_eq_self visible, Number.Numeral.ofChars?_eq_some_iff.2 written]
  simp only [denotes]

/-- A comparable value that is taken as a text has the loose form of this text. -/
theorem looseForm_of_toText {h : Heap} {v : Value} {t : String} (comparable : Comparable v) (taken : toText v = .ok t) :
    v.looseForm h = (Value.str t).looseForm h := by
  cases v with
  | str s =>
      cases taken
      rfl
  | bool b =>
      have unread : ∀ s ∈ ["true", "false"], (Value.str s).looseForm h = .str s := by
        simp only [List.forall_mem_cons, Value.looseForm_str]
        decide
      cases b <;> cases taken <;> rw [unread _ (by decide)] <;> rfl
  | num n =>
      cases taken
      rw [Value.looseForm_str, numberIn_decimal comparable.1]
      rfl
  | _ => cases taken

/-!
### Tests that decide
-/

/-- The test ends with an answer, which says whether the statement holds. -/
def Decides (test : Except Fault Bool) (statement : Prop) : Prop :=
  ∃ answer, test = .ok answer ∧ (answer = true ↔ statement)

namespace Decides

variable {test first : Except Fault Bool} {second : Unit → Except Fault Bool} {p q : Prop}

theorem congr (decides : Decides test p) (same : p ↔ q) : Decides test q := by
  obtain ⟨answer, made, meaning⟩ := decides
  exact ⟨answer, made, meaning.trans same⟩

theorem ok_true_iff (decides : Decides test p) : test = .ok true ↔ p := by
  obtain ⟨answer, rfl, meaning⟩ := decides
  rw [← meaning, Except.ok.injEq]

theorem orElse (one : Decides first p) (other : Decides (second ()) q) : Decides (orElseTest first second) (p ∨ q) := by
  obtain ⟨answer, rfl, meaning⟩ := one
  cases answer with
  | true => exact ⟨true, rfl, iff_of_true rfl (.inl (meaning.1 rfl))⟩
  | false =>
      have never : ¬ p := fun holds => Bool.false_ne_true (meaning.2 holds)
      exact other.congr (or_iff_right never).symm

theorem andThen (one : Decides first p) (other : Decides (second ()) q) :
    Decides (andThenTest first second) (p ∧ q) := by
  obtain ⟨answer, rfl, meaning⟩ := one
  cases answer with
  | true => exact other.congr (and_iff_right (meaning.1 rfl)).symm
  | false => exact ⟨false, rfl, iff_of_false Bool.false_ne_true fun both => Bool.false_ne_true (meaning.2 both.1)⟩

end Decides

/-- A coercion takes two values as the same. -/
def TakenAlike {α : Type} (coerce : Value → Except Fault α) (a b : Value) : Prop :=
  ∃ x, coerce a = .ok x ∧ coerce b = .ok x

/-- If a coercion refuses values for their kind only, equality after it is decided. -/
theorem equalAfter_decides {α : Type} [BEq α] [LawfulBEq α] {coerce : Value → Except Fault α} {a b : Value}
    (refuses : ∀ v ∈ [a, b], ∀ fault, coerce v = .error fault → ∃ expected found, fault = .wrongKind expected found) :
    Decides (equalAfter coerce a b) (TakenAlike coerce a b) := by
  unfold equalAfter TakenAlike
  cases first : coerce a with
  | error fault =>
      obtain ⟨expected, found, rfl⟩ := refuses a List.mem_cons_self fault first
      exact ⟨false, rfl, by simp⟩
  | ok x =>
      cases second : coerce b with
      | error fault =>
          obtain ⟨expected, found, rfl⟩ := refuses b (by simp) fault second
          exact ⟨false, rfl, by simp⟩
      | ok y => exact ⟨x == y, rfl, by simpa using eq_comm⟩

section LooselyEqual

variable {h : Heap} {a b : Value}

/-- Agreement ends with an answer for comparable values. -/
theorem agree_decides (comparable : Comparable a) (alsoComparable : Comparable b) :
    Decides (agree h a b)
      (TakenAlike toNumber a b ∨ TakenAlike toText a b ∨ TakenAlike toTruth a b ∨ isEqv h a b = true) := by
  have texts : ∀ v fault, toText v = .error fault → ∃ expected found, fault = .wrongKind expected found := by
    intro v fault refused
    unfold toText at refused
    split at refused <;> cases refused
    exact ⟨_, _, rfl⟩
  have truths : ∀ v fault, toTruth v = .error fault → ∃ expected found, fault = .wrongKind expected found := by
    intro v fault refused
    unfold toTruth at refused
    split at refused <;> cases refused
    exact ⟨_, _, rfl⟩
  refine (equalAfter_decides ?_).orElse ((equalAfter_decides ?_).orElse ((equalAfter_decides ?_).orElse ⟨_, rfl, .rfl⟩))
  · simp only [List.forall_mem_cons]
    refine ⟨fun fault refused => ?_, fun fault refused => ?_, by simp⟩
    · exact ⟨_, _, toNumber_eq_error comparable.numeralFits_stripped refused⟩
    · exact ⟨_, _, toNumber_eq_error alsoComparable.numeralFits_stripped refused⟩
  · exact fun v _ => texts v
  · exact fun v _ => truths v

/-- Two proper lists, or two dotted lists. -/
def BothLists : Value → Value → Prop
  | .list _, .list _ | .dotted .., .dotted .. => True
  | _, _ => False

/-- Unless both are lists of one kind, comparable values agree exactly if their loose forms are equal. -/
theorem agreement_iff (once : h.BindsOnce) (comparable : Comparable a) (alsoComparable : Comparable b)
    (apart : ¬ BothLists a b) :
    (TakenAlike toNumber a b ∨ TakenAlike toText a b ∨ TakenAlike toTruth a b ∨ isEqv h a b = true) ↔
      a.looseForm h = b.looseForm h := by
  constructor
  · rintro (⟨n, left, right⟩ | ⟨t, left, right⟩ | ⟨c, left, right⟩ | equal)
    · rw [toNumber_eq_ok_iff_looseForm.1 left, toNumber_eq_ok_iff_looseForm.1 right]
    · rw [looseForm_of_toText comparable left, looseForm_of_toText alsoComparable right]
    · cases a <;> cases left
      cases b <;> cases right
      rfl
    · rw [Value.looseForm, Value.looseForm, (isEqv_iff_rescope once a b).1 equal]
  · intro same
    have left := looseShape h a
    have right := looseShape h b
    rw [← same] at right
    generalize a.looseForm h = form at left right
    -- One form tells about both values, so what it tells about them is of one kind, and that is the way they agree.
    cases left with
    | number taken =>
        cases right with
        | number alsoTaken => exact .inl ⟨_, taken, alsoTaken⟩
        | strict _ uncoerced => exact uncoerced.elim
    | text taken =>
        cases right with
        | text alsoTaken => exact .inr (.inl ⟨_, taken, alsoTaken⟩)
        | strict _ uncoerced => exact uncoerced.elim
    | list made =>
        cases right with
        | list alsoMade =>
            rw [made, alsoMade] at apart
            exact absurd trivial apart
        | strict _ uncoerced => exact uncoerced.elim
    | dotted made =>
        cases right with
        | dotted alsoMade =>
            rw [made, alsoMade] at apart
            exact absurd trivial apart
        | strict _ uncoerced => exact uncoerced.elim
    | strict kept uncoerced =>
        cases right with
        | strict alsoKept => exact .inr (.inr (.inr ((isEqv_iff_rescope once a b).2 (kept.symm.trans alsoKept))))
        | _ => exact uncoerced.elim

theorem isEqual_decides_of_apart (once : h.BindsOnce) (comparable : Comparable a) (alsoComparable : Comparable b)
    (apart : ¬ BothLists a b) : Decides (isEqual h a b) (a.looseForm h = b.looseForm h) := by
  have agreeing : isEqual h a b = agree h a b := by
    rw [isEqual]
    · rintro xs ys rfl rfl
      exact apart trivial
    · rintro xs x ys y rfl rfl
      exact apart trivial
  rw [agreeing]
  exact (agree_decides comparable alsoComparable).congr (agreement_iff once comparable alsoComparable apart)

mutual

/-- Loose equality of comparable values ends with an answer, which says whether their loose forms are equal. -/
theorem isEqual_decides (once : h.BindsOnce) :
    ∀ {a b : Value}, Comparable a → Comparable b → Decides (isEqual h a b) (a.looseForm h = b.looseForm h)
  | .list xs, b, comparable, alsoComparable => by
      cases b with
      | list ys =>
          rw [isEqual, Value.looseForm_list, Value.looseForm_list, Value.unwrap_injective.eq_iff]
          split
          · rename_i sameLength
            exact eachEqual_decides once sameLength (Value.built_list.1 comparable) (Value.built_list.1 alsoComparable)
          · rename_i otherLength
            exact ⟨false, rfl, iff_of_false Bool.false_ne_true (Value.looseForms_ne otherLength)⟩
      -- Next to anything but a list, a list is taken by the coercions only.
      | _ => exact isEqual_decides_of_apart once comparable alsoComparable id
  | .dotted xs x, b, comparable, alsoComparable => by
      cases b with
      | dotted ys y =>
          obtain ⟨_, heads, _, tail⟩ := Value.built_dotted.1 comparable
          obtain ⟨_, otherHeads, _, otherTail⟩ := Value.built_dotted.1 alsoComparable
          rw [isEqual, Value.looseForm_dotted, Value.looseForm_dotted, Value.dotted.injEq]
          split
          · rename_i sameLength
            exact (eachEqual_decides once sameLength heads otherHeads).andThen (isEqual_decides once tail otherTail)
          · rename_i otherLength
            exact ⟨false, rfl, iff_of_false Bool.false_ne_true fun same => Value.looseForms_ne otherLength same.1⟩
      | _ => exact isEqual_decides_of_apart once comparable alsoComparable id
  | .bool _, b, comparable, alsoComparable | .num _, b, comparable, alsoComparable
  | .str _, b, comparable, alsoComparable | .sym _, b, comparable, alsoComparable
  | .closure .., b, comparable, alsoComparable | .prim _, b, comparable, alsoComparable
  | .port _, b, comparable, alsoComparable =>
      isEqual_decides_of_apart once comparable alsoComparable (by cases b <;> exact id)

theorem eachEqual_decides (once : h.BindsOnce) :
    ∀ {xs ys : List Value}, xs.length = ys.length → (∀ x ∈ xs, Comparable x) → (∀ y ∈ ys, Comparable y) →
      Decides (eachEqual h xs ys) (Value.looseForms h xs = Value.looseForms h ys)
  | [], [], _, _, _ => by
      rw [eachEqual]
      · exact ⟨true, rfl, by simp⟩
      · simp
  | x :: xs, y :: ys, sameLength, comparable, alsoComparable => by
      obtain ⟨first, others⟩ := List.forall_mem_cons.1 comparable
      obtain ⟨alsoFirst, alsoOthers⟩ := List.forall_mem_cons.1 alsoComparable
      rw [eachEqual, Value.looseForms_cons, Value.looseForms_cons, List.cons.injEq]
      exact (isEqual_decides once first alsoFirst).andThen
        (eachEqual_decides once (Nat.succ.inj sameLength) others alsoOthers)

end

end LooselyEqual

/-!
### Loose equality
-/

theorem isEqual_iff_looseForm {h : Heap} (once : h.BindsOnce) {a b : Value} (comparable : Comparable a)
    (alsoComparable : Comparable b) : isEqual h a b = .ok true ↔ a.looseForm h = b.looseForm h :=
  (isEqual_decides once comparable alsoComparable).ok_true_iff

theorem equivalence_isEqual {h : Heap} (once : h.BindsOnce) :
    Equivalence fun a b : { v : Value // Comparable v } => isEqual h a b = .ok true where
  refl a := (isEqual_iff_looseForm once a.2 a.2).2 rfl
  symm {a b} equal := (isEqual_iff_looseForm once b.2 a.2).2 ((isEqual_iff_looseForm once a.2 b.2).1 equal).symm
  trans {a b c} first second := (isEqual_iff_looseForm once a.2 c.2).2
    (((isEqual_iff_looseForm once a.2 b.2).1 first).trans ((isEqual_iff_looseForm once b.2 c.2).1 second))

theorem isEqual_of_isEqv {h : Heap} (once : h.BindsOnce) {a b : Value} (comparable : Comparable a)
    (alsoComparable : Comparable b) (equal : isEqv h a b = true) : isEqual h a b = .ok true := by
  rw [isEqual_iff_looseForm once comparable alsoComparable, Value.looseForm, Value.looseForm,
    (isEqv_iff_rescope once a b).1 equal]

/-- Loosely equal values are taken as the same number, or neither is taken as one. -/
theorem toNumber_of_isEqual {h : Heap} (once : h.BindsOnce) {a b : Value} (comparable : Comparable a)
    (alsoComparable : Comparable b) (equal : isEqual h a b = .ok true) (n : Int) :
    toNumber a = .ok n ↔ toNumber b = .ok n := by
  rw [toNumber_eq_ok_iff_looseForm (h := h), toNumber_eq_ok_iff_looseForm (h := h),
    (isEqual_iff_looseForm once comparable alsoComparable).1 equal]

section Arguments

variable {a b : Value} (alike : ∀ n, toNumber a = .ok n ↔ toNumber b = .ok n)
include alike

/-- Arithmetic takes values that are the same number for each other. -/
theorem Arithmetic.call_of_alike (op : Arithmetic) (before after : List Value) (v : Value) :
    op.call (before ++ a :: after) = .ok v ↔ op.call (before ++ b :: after) = .ok v := by
  have sameLength : (before ++ a :: after).length = (before ++ b :: after).length := by simp
  unfold call
  rw [sameLength]
  split
  · simp
  · simp only [bind_eq_ok_iff, List.mapM_append, List.mapM_cons, alike]

/-- Comparisons of numbers do. -/
theorem NumberTest.call_of_alike (test : NumberTest) (before after : List Value) (v : Value) :
    test.call (before ++ a :: after) = .ok v ↔ test.call (before ++ b :: after) = .ok v := by
  unfold call
  -- A comparison takes two arguments, so the value stands first or second, or the count is wrong on both sides.
  obtain _ | ⟨x, _ | ⟨y, before⟩⟩ := before
  · obtain _ | ⟨z, _ | ⟨_, _⟩⟩ := after
    · simp [callTest]
    · simp only [List.nil_append, callTest, bind_eq_ok_iff, alike]
    · simp [callTest]
  · obtain _ | ⟨_, _⟩ := after
    · simp only [List.cons_append, List.nil_append, callTest, bind_eq_ok_iff, alike]
    · simp [callTest]
  · obtain _ | ⟨_, _⟩ := before <;> simp [callTest]

end Arguments

/-- Loose equality is an equivalence of comparable values in all memories in which no scope binds a name twice, as in those
    of all reachable states. It always ends with an answer, which is equality of loose forms. Strictly equal values are
    loosely equal, and loosely equal values are taken as the same number or both not as one, so that arithmetic and
    comparisons of numbers give the same value for either. -/
theorem isEqual_laws :
    (∀ i, Reachable i → i.heap.BindsOnce) ∧
    ∀ h : Heap, h.BindsOnce →
      (∀ a b : Value, a.Comparable → b.Comparable →
        ∃ equal, isEqual h a b = .ok equal ∧ (equal = true ↔ a.looseForm h = b.looseForm h)) ∧
      (Equivalence fun a b : { v : Value // v.Comparable } => isEqual h a b = .ok true) ∧
      ∀ a b : Value, a.Comparable → b.Comparable →
        (isEqv h a b = true → isEqual h a b = .ok true) ∧
        (isEqual h a b = .ok true →
          (∀ n, toNumber a = .ok n ↔ toNumber b = .ok n) ∧
          ∀ before after v,
            (∀ op : Arithmetic, op.call (before ++ a :: after) = .ok v ↔ op.call (before ++ b :: after) = .ok v) ∧
            ∀ test : NumberTest, test.call (before ++ a :: after) = .ok v ↔ test.call (before ++ b :: after) = .ok v) := by
  refine ⟨fun _ => heap_bindsOnce_of_reachable, fun h once => ⟨fun a b comparable alsoComparable => ?_,
    equivalence_isEqual once, fun a b comparable alsoComparable => ⟨?_, fun equal => ?_⟩⟩⟩
  · exact isEqual_decides once comparable alsoComparable
  · exact isEqual_of_isEqv once comparable alsoComparable
  · have alike := toNumber_of_isEqual once comparable alsoComparable equal
    refine ⟨alike, fun before after v => ⟨fun op => ?_, fun test => ?_⟩⟩
    · exact op.call_of_alike alike before after v
    · exact test.call_of_alike alike before after v

/-- Three ways to write two. -/
theorem isEqual_laws_twoSample :
    let number := Value.num 2
    let text := Value.str " +2"
    let nested := Value.list [.list [.num 2]]
    ({} : Heap).BindsOnce ∧ number.Comparable ∧ text.Comparable ∧ nested.Comparable ∧
      isEqual {} number text = .ok true ∧ isEqual {} text nested = .ok true ∧
      isEqual {} number nested = .ok true ∧
      Arithmetic.add.call ([.num 1] ++ nested :: []) = .ok (.num 3) := by
  intro number text nested
  have once : ({} : Heap).BindsOnce := fun _ => List.nodup_nil
  have inRange : Number.InRange 2 := by decide
  have short : ∀ numeral ∈ Number.Numeral.ofChars? (Text.trim " +2".toList),
      numeral.digits.length ≤ Number.maxDigits := by decide
  have isNumber : number.Comparable := ⟨inRange, trivial⟩
  have isText : text.Comparable := ⟨trivial, short⟩
  have isNested : nested.Comparable := ⟨⟨isNumber, trivial⟩, trivial⟩
  have first : isEqual {} number text = .ok true := rfl
  have second : isEqual {} text nested = .ok true := rfl
  obtain ⟨_, laws⟩ := isEqual_laws
  obtain ⟨_, equivalence, rest⟩ := laws {} once
  have third : isEqual {} number nested = .ok true :=
    equivalence.trans (x := ⟨number, isNumber⟩) (y := ⟨text, isText⟩) (z := ⟨nested, isNested⟩) first second
  obtain ⟨_, calls⟩ := (rest number nested isNumber isNested).2 third
  exact ⟨once, isNumber, isText, isNested, first, second, third, ((calls [.num 1] [] (.num 3)).1 .add).1 rfl⟩

end SmallScheme
