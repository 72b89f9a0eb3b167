import SmallScheme.Proofs.ListLibrary
import SmallScheme.Proofs.LooseEquality
import SmallScheme.Proofs.Operations

/-
Module: SmallScheme.Proofs.Searching
Purpose: The searches of the prelude find the first element that is equal to what is sought. Each is a fold whose
  accumulator says both whether something was found and what, so an element that is `#f` is never found. The step
  looks at every element, also behind a hit: a search among pairs fails at the first element that is no pair, wherever
  the hit may be. The equality of values does not change while the memory only grows.
Main exports: eqv_of_later, isEqual_of_later, computes_and, exists_memHelper, Search.compare, Search.takesAsEqual,
  foldlM_finding_eq, search_finds_first
-/

namespace SmallScheme

open Value (WellFormedOver BuiltAll RuntimeLeaf)

/-!
### Equality in later memories
-/

section Later

variable {h k : Heap}

theorem sameScope_of_later (grows : h.GrowsTo k) {s t : ScopeId} (old : s < h.scopes.size) (alsoOld : t < h.scopes.size) :
    k.sameScope s t = h.sameScope s t := by
  simp only [Heap.sameScope, grows.scopes s old, grows.scopes t alsoOld]

mutual

/-- Values with scopes that are there stay strictly equal, or different, when the memory grows. -/
theorem eqv_of_later (grows : h.GrowsTo k) :
    ∀ {a b : Value}, WellFormedOver (· < h.scopes.size) a → WellFormedOver (· < h.scopes.size) b → eqv k a b = eqv h a b
  | .bool _, b, _, _ | .num _, b, _, _ | .str _, b, _, _ | .sym _, b, _, _ | .prim _, b, _, _ | .port _, b, _, _ => by
      cases b <;> simp [eqv]
  | .list xs, b, held, alsoHeld => by
      cases b with
      | list ys => rw [eqv, eqv, eqvAll_of_later grows held alsoHeld]
      | _ => simp [eqv]
  | .dotted xs x, b, held, alsoHeld => by
      cases b with
      | dotted ys y =>
          obtain ⟨_, heads, _, tail⟩ := held
          obtain ⟨_, otherHeads, _, otherTail⟩ := alsoHeld
          rw [eqv, eqv, eqvAll_of_later grows heads otherHeads, eqv_of_later grows tail otherTail]
      | _ => simp [eqv]
  | .closure _ _ xs _, b, held, alsoHeld => by
      cases b with
      | closure _ _ ys _ =>
          obtain ⟨body, captured⟩ := held
          obtain ⟨otherBody, otherCaptured⟩ := alsoHeld
          have forms : BuiltAll (RuntimeLeaf (· < h.scopes.size)) xs :=
            Value.builtAll_iff.2 fun form member => (body form member).wellFormedOver
          have otherForms : BuiltAll (RuntimeLeaf (· < h.scopes.size)) ys :=
            Value.builtAll_iff.2 fun form member => (otherBody form member).wellFormedOver
          rw [eqv, eqv, eqvAll_of_later grows forms otherForms, sameScope_of_later grows captured otherCaptured]
      | _ => simp [eqv]

theorem eqvAll_of_later (grows : h.GrowsTo k) :
    ∀ {xs ys : List Value}, BuiltAll (RuntimeLeaf (· < h.scopes.size)) xs →
      BuiltAll (RuntimeLeaf (· < h.scopes.size)) ys → eqvAll k xs ys = eqvAll h xs ys
  | [], ys, _, _ => by cases ys <;> simp [eqvAll]
  | x :: xs, ys, held, alsoHeld => by
      cases ys with
      | nil => simp [eqvAll]
      | cons y ys => rw [eqvAll, eqvAll, eqv_of_later grows held.1 alsoHeld.1, eqvAll_of_later grows held.2 alsoHeld.2]

end

theorem agree_of_later (grows : h.GrowsTo k) {a b : Value} (held : WellFormedOver (· < h.scopes.size) a)
    (alsoHeld : WellFormedOver (· < h.scopes.size) b) : agree k a b = agree h a b := by
  simp only [agree, isEqv_eq_eqv, eqv_of_later grows held alsoHeld]

mutual

/-- So do values that are loosely equal, or different. -/
theorem isEqual_of_later (grows : h.GrowsTo k) :
    ∀ {a b : Value}, WellFormedOver (· < h.scopes.size) a → WellFormedOver (· < h.scopes.size) b →
      isEqual k a b = isEqual h a b
  | .bool _, b, held, alsoHeld | .num _, b, held, alsoHeld | .str _, b, held, alsoHeld | .sym _, b, held, alsoHeld
  | .prim _, b, held, alsoHeld | .port _, b, held, alsoHeld | .closure .., b, held, alsoHeld => by
      cases b <;> simp only [isEqual, agree_of_later grows held alsoHeld]
  | .list xs, b, held, alsoHeld => by
      cases b with
      | list ys => simp only [isEqual, eachEqual_of_later grows held alsoHeld]
      | _ => simp only [isEqual, agree_of_later grows held alsoHeld]
  | .dotted xs x, b, held, alsoHeld => by
      cases b with
      | dotted ys y =>
          simp only [isEqual, eachEqual_of_later grows held.2.1 alsoHeld.2.1,
            isEqual_of_later grows held.2.2.2 alsoHeld.2.2.2]
      | _ => simp only [isEqual, agree_of_later grows held alsoHeld]

theorem eachEqual_of_later (grows : h.GrowsTo k) :
    ∀ {xs ys : List Value}, BuiltAll (RuntimeLeaf (· < h.scopes.size)) xs →
      BuiltAll (RuntimeLeaf (· < h.scopes.size)) ys → eachEqual k xs ys = eachEqual h xs ys
  | [], ys, _, _ => by cases ys <;> simp only [eachEqual]
  | x :: xs, ys, held, alsoHeld => by
      cases ys with
      | nil => simp only [eachEqual]
      | cons y ys =>
          simp only [eachEqual, isEqual_of_later grows held.1 alsoHeld.1, eachEqual_of_later grows held.2 alsoHeld.2]

end

end Later

/-!
### The step
-/

section Step

variable {h : Heap} {i : Interpreter}

theorem computes_and (knows : h.Knows root) (a b : Bool) :
    Computes h Procedure.and.value [.bool a, .bool b] (.ok (.bool (a && b))) := by
  refine Procedure.and.computes knows rfl fun k frame known isFrame => ?_
  have lst : k.lookup? frame "lst" = some (.list [.bool a, .bool b]) := isFrame.bound
  have step : ∀ acc, ∀ x ∈ [Value.bool a, .bool b],
      Computes k (.prim (.operation (.connective .both))) [acc, x] (Connective.both.call [acc, x]) := fun acc x _ =>
    .operation fun _ _ => rfl
  exact .call rfl (known.procedure .fold)
    (.cons (.symbol (known.primitive (.operation (.connective .both)))) (.cons (.truth true) (.cons (.symbol lst) .nil)))
    (computes_fold (knows.mono isFrame.grows) step (.bool true))

/-- `mem-helper` gives a step that takes the element for the accumulator if that is still false and the test holds of what
    is picked of the element. Both are made in any case, so a fault of either is one of the step. -/
theorem exists_memHelper (knows : i.heap.Knows root) (pred op : Value) :
    ∃ j g, OnlyGrew i j ∧ AppliesTo Procedure.memHelper.value [pred, op] i (.ok g j) ∧
      ∀ k acc x (picked : Except Fault Value) (test : Value → Except Fault Bool), j.heap.GrowsTo k →
        Computes k op [x] picked → (∀ y, picked = .ok y → Computes k pred [y] ((test y).map .bool)) →
        Computes k g [acc, x] ((picked >>= test).map fun hit => if !isTrue acc && hit then x else acc) := by
  obtain ⟨j, frame, grew, known, isFrame, enters⟩ := Procedure.memHelper.exists_frame [pred, op] knows rfl
  obtain ⟨test, pick⟩ : j.heap.lookup? frame "pred" = some pred ∧ j.heap.lookup? frame "op" = some op := isFrame.bound
  refine ⟨j, _, grew, enters _ (.lambda ..), fun k acc x picked tested later picks tests => ?_⟩
  refine .closure rfl (by decide) fun l inner innerFrame => ?_
  have innerKnown := innerFrame.knows (known.mono later) rfl (by decide)
  have rootKnown := knows.mono (grew.1.trans (later.trans innerFrame.grows))
  obtain ⟨accumulator, next⟩ : l.lookup? inner "acc" = some acc ∧ l.lookup? inner "next" = some x := innerFrame.bound
  have free : Gives l inner (.list [.sym "not", .sym "acc"]) (.ok (.bool (!isTrue acc))) :=
    .call rfl (innerKnown.procedure .not) (.cons (.symbol accumulator) .nil) (computes_not rootKnown acc)
  have part : Gives l inner (.list [.sym "op", .sym "next"]) picked :=
    .call rfl (innerFrame.outer_of_params rfl (by decide) (later.lookup? pick)) (.cons (.symbol next) .nil)
      (picks.mono innerFrame.grows)
  have holds : Gives l inner (.list [.sym "pred", .list [.sym "op", .sym "next"]])
      (picked >>= fun y => (tested y).map .bool) :=
    .call_one rfl (innerFrame.outer_of_params rfl (by decide) (later.lookup? test)) part fun y made =>
      (tests y made).mono innerFrame.grows
  have both := innerKnown.procedure .and
  -- the test is made whether or not something was found before
  have tells : (picked >>= fun y => (tested y).map Value.bool) = (picked >>= tested).map Value.bool := by
    cases picked <;> rfl
  rw [tells] at holds
  cases told : picked >>= tested with
  | error fault =>
      rw [told] at holds
      exact .choice_error (.call_error rfl both (.cons_error free (.first_error holds)))
  | ok hit =>
      rw [told] at holds
      refine .choice (.call rfl both (.cons free (.cons holds .nil)) (computes_and rootKnown _ hit)) ?_
      change Gives l inner (if !isTrue acc && hit then .sym "next" else .sym "acc")
        (.ok (if !isTrue acc && hit then x else acc))
      cases !isTrue acc && hit with
      | true => exact .symbol next
      | false => exact .symbol accumulator

end Step

/-!
### What is found
-/

namespace Search

/-- Whether a search takes two values as equal, or the fault of their comparison. -/
def compare (s : Search) (h : Heap) (a b : Value) : Except Fault Bool :=
  match s.equality with
  | .isEqual => isEqual h a b
  | _ => .ok (isEqv h a b)

/-- A search takes two values as equal. -/
def takesAsEqual (s : Search) (h : Heap) (a b : Value) : Bool :=
  match s.compare h a b with
  | .ok equal => equal
  | .error _ => false

/-- What a search compares of an element: the element itself, or its first element if it is a pair. -/
def pick (s : Search) (x : Value) : Except Fault Value :=
  if s.keyed then callFirst [x] else .ok x

/-- The step of a search. -/
def step (s : Search) (h : Heap) (sought acc x : Value) : Except Fault Value :=
  (s.pick x >>= s.compare h sought).map fun hit => if !isTrue acc && hit then x else acc

theorem call_equality (s : Search) (h : Heap) (a b : Value) :
    s.equality.call h [a, b] = (s.compare h a b).map .bool := by
  cases s <;> rfl

theorem compare_of_later {h k : Heap} (s : Search) (grows : h.GrowsTo k) {a b : Value}
    (held : WellFormedOver (· < h.scopes.size) a) (alsoHeld : WellFormedOver (· < h.scopes.size) b) :
    s.compare k a b = s.compare h a b := by
  cases s with
  | member | assoc => exact isEqual_of_later grows held alsoHeld
  | memq | memv | assq | assv =>
      simp only [compare, equality, isEqv_eq_eqv, eqv_of_later grows held alsoHeld]

/-- What is picked of a value is built as the value is. -/
theorem built_of_pick {s : Search} {leaf : Value → Prop} {x y : Value} (built : Value.Built leaf x)
    (picked : s.pick x = .ok y) : Value.Built leaf y := by
  unfold pick at picked
  split at picked
  · obtain ⟨_, ⟨⟩, found⟩ := callFirst_eq_ok_iff.1 picked
    exact built.of_first? found
  · cases picked
    exact built

/-- A comparison ends with an answer, a loose one if the values are comparable. -/
theorem exists_compare (s : Search) {h : Heap} (once : h.BindsOnce) {a b : Value}
    (comparable : s.equality = .isEqual → a.Comparable ∧ b.Comparable) : ∃ equal, s.compare h a b = .ok equal := by
  cases s with
  | member | assoc =>
      obtain ⟨equal, made, _⟩ := isEqual_decides once (comparable rfl).1 (comparable rfl).2
      exact ⟨equal, made⟩
  | memq | memv | assq | assv => exact ⟨_, rfl⟩

/-- An element that a search finds: it is not `#f`, and what is picked of it is taken as equal to what is sought. -/
def finds (s : Search) (h : Heap) (sought x : Value) : Bool :=
  x ≠ .bool false && match s.pick x with
    | .ok y => s.takesAsEqual h sought y
    | .error _ => false

end Search

theorem isTrue_eq_false_iff {v : Value} : isTrue v = false ↔ v = .bool false := by
  cases v <;> simp [isTrue]

section Steps

variable {s : Search} {h : Heap} {sought : Value}

theorem step_of_picked {x y : Value} {hit : Bool} (picked : s.pick x = .ok y) (compared : s.compare h sought y = .ok hit)
    (acc : Value) : s.step h sought acc x = .ok (if !isTrue acc && hit then x else acc) := by
  have told : (s.pick x >>= s.compare h sought) = .ok hit := bind_eq_ok_iff.2 ⟨y, picked, compared⟩
  rw [Search.step, told]
  rfl

theorem finds_of_picked {x y : Value} {hit : Bool} (picked : s.pick x = .ok y)
    (compared : s.compare h sought y = .ok hit) : s.finds h sought x = (x ≠ .bool false && hit) := by
  simp only [Search.finds, picked, Search.takesAsEqual, compared]

/-- Steps that do not fail keep what was found, and find the first element to be found if nothing was. -/
theorem foldlM_step_eq {xs : List Value}
    (succeeds : ∀ x ∈ xs, ∃ y hit, s.pick x = .ok y ∧ s.compare h sought y = .ok hit) (acc : Value) :
    xs.foldlM (s.step h sought) acc =
      .ok (if isTrue acc then acc else (xs.find? (s.finds h sought)).getD (.bool false)) := by
  induction xs generalizing acc with
  | nil =>
      cases found : isTrue acc with
      | true => rfl
      | false =>
          rw [isTrue_eq_false_iff.1 found]
          rfl
  | cons x xs ih =>
      obtain ⟨⟨y, hit, picked, compared⟩, others⟩ := List.forall_mem_cons.1 succeeds
      rw [List.foldlM_cons, step_of_picked picked compared, List.find?_cons, finds_of_picked picked compared]
      refine (ih others _).trans ?_
      cases found : isTrue acc with
      | true => simp [found]
      | false =>
          obtain rfl := isTrue_eq_false_iff.1 found
          -- an element that is `#f` leaves the accumulator as it is even if it is a hit
          cases hit with
          | false => simp [found]
          | true =>
              by_cases absent : x = .bool false
              · simp [absent, found]
              · have counts : isTrue x = true := by
                  rw [← Bool.not_eq_false, isTrue_eq_false_iff]
                  exact absent
                simp [absent, counts]

end Steps

/-- A search is the fold of its step over the list, from `#f`. -/
theorem exists_search {i : Interpreter} (knows : i.heap.Knows root) (s : Search) {sought : Value} {xs : List Value}
    (held : ∀ v ∈ sought :: xs, WellFormedOver (· < i.heap.scopes.size) v) :
    ∃ j, AppliesTo (Procedure.search s).value [sought, .list xs] i
      (Action.ofExcept (xs.foldlM (s.step i.heap sought) (.bool false)) j) := by
  obtain ⟨soughtHeld, elementsHeld⟩ := List.forall_mem_cons.1 held
  obtain ⟨j, frame, grew, known, isFrame, enters⟩ := (Procedure.search s).exists_frame [sought, .list xs] knows rfl
  have rootKnown := knows.mono grew.1
  obtain ⟨obj, lst⟩ : j.heap.lookup? frame "obj" = some sought ∧
    j.heap.lookup? frame (if s.keyed then "alist" else "lst") = some (.list xs) := isFrame.bound
  -- the test
  obtain ⟨k, pred, grewTest, curries, tests⟩ := exists_curried rootKnown (.prim (.operation s.equality)) sought
  have equality := Heap.Knows.primitive known (.operation s.equality)
  have test : EvaluatesTo frame (.list [.sym "curry", .sym s.equality.name, .sym "obj"]) j (.ok pred k) :=
    .call rfl (known.procedure .curry) (.cons (.symbol equality) (.cons (.symbol obj) .nil)) curries
  -- what is picked
  obtain ⟨op, named, picks⟩ : ∃ op, j.heap.lookup? frame (if s.keyed then "car" else "id") = some op ∧
      ∀ l x, j.heap.GrowsTo l → Computes l op [x] (s.pick x) := by
    unfold Search.pick
    cases s.keyed with
    | true => exact ⟨_, known.primitive (.operation .car), fun l x _ => .operation fun _ _ => rfl⟩
    | false => exact ⟨_, known.procedure .id, fun l x later => computes_id (rootKnown.mono later) x⟩
  -- the step
  obtain ⟨l, g, grewStep, helps, steps⟩ := exists_memHelper (rootKnown.mono grewTest.1) pred op
  have within := grewTest.trans grewStep
  have made : EvaluatesTo frame
      (.list [.sym "mem-helper", .list [.sym "curry", .sym s.equality.name, .sym "obj"],
        .sym (if s.keyed then "car" else "id")]) j (.ok g l) :=
    .call rfl (known.procedure .memHelper) (.cons test (.cons (.symbol (grewTest.1.lookup? named)) .nil)) helps
  have computes : ∀ acc, ∀ x ∈ xs, Computes l.heap g [acc, x] (s.step i.heap sought acc x) := by
    intro acc x member
    refine steps l.heap acc x (s.pick x) (s.compare i.heap sought) (.refl _) (picks l.heap x within.1) fun y picked => ?_
    refine tests l.heap y _ grewStep.1 (.operation fun m later => ?_)
    have yHeld := Search.built_of_pick (elementsHeld x member) picked
    rw [Search.call_equality, s.compare_of_later (grew.1.trans (within.1.trans later)) soughtHeld yHeld]
  obtain ⟨m, _, folds⟩ := EvaluatesTo.exists_fold known rootKnown made within computes (.truth false) lst
  exact ⟨m, enters _ folds⟩

namespace Search

variable {s : Search} {h : Heap} {sought : Value}

theorem finds_eq_of_not_keyed (plain : s.keyed = false) :
    s.finds h sought = fun x => x ≠ .bool false && s.takesAsEqual h sought x := by
  funext x
  simp [finds, pick, plain]

theorem finds_eq_of_keyed (keyed : s.keyed = true) :
    s.finds h sought = fun x => x.first?.any (s.takesAsEqual h sought) := by
  funext x
  cases first : x.first? with
  | some y =>
      have other : x ≠ .bool false := by
        rintro rfl
        cases first
      simp [finds, pick, keyed, callFirst, first, other]
  | none => simp [finds, pick, keyed, callFirst, first]

theorem exists_pick_of_keyed (keyed : s.keyed = true) {x : Value} (pair : x.first?.isSome) : ∃ y, s.pick x = .ok y := by
  obtain ⟨y, first⟩ := Option.isSome_iff_exists.1 pair
  exact ⟨y, by simp [pick, keyed, callFirst, first]⟩

theorem pick_of_keyed (keyed : s.keyed = true) {x : Value} (single : x.first? = none) :
    s.pick x = .error (.wrongKind .pair x) := by
  simp [pick, keyed, callFirst, single]

end Search

/-- The searches of the prelude return the first hit, in every state in which the names of the built-in procedures and of
    the prelude have their values, whatever values of this state are sought and searched. `memq` and `memv`, or `member`,
    give the first element that is not `#f` and is strictly, or loosely, equal to what is sought, and `#f` if there is
    none. In a list of pairs, `assq` and `assv`, or `assoc`, give the first pair whose first element is so; but if there is
    an element that is no pair, the first such element is reported, even if it stands behind a hit. -/
theorem search_finds_first {i : Interpreter} (knows : i.heap.Knows root) (once : i.heap.BindsOnce) (s : Search)
    {sought : Value} {xs : List Value} (held : ∀ v ∈ sought :: xs, WellFormedOver (· < i.heap.scopes.size) v)
    (comparable : s.equality = .isEqual → ∀ v ∈ sought :: xs, v.Comparable) :
    (s.keyed = false → ∃ j, AppliesTo (Procedure.search s).value [sought, .list xs] i
      (.ok ((xs.find? fun x => x ≠ .bool false && s.takesAsEqual i.heap sought x).getD (.bool false)) j)) ∧
    (s.keyed = true →
      ((∀ x ∈ xs, x.first?.isSome) → ∃ j, AppliesTo (Procedure.search s).value [sought, .list xs] i
        (.ok ((xs.find? fun x => x.first?.any (s.takesAsEqual i.heap sought)).getD (.bool false)) j)) ∧
      ∀ before v after, xs = before ++ v :: after → (∀ x ∈ before, x.first?.isSome) → v.first? = none →
        ∃ j, AppliesTo (Procedure.search s).value [sought, .list xs] i (.error (.wrongKind .pair v) j)) := by
  obtain ⟨j, searches⟩ := exists_search knows s held
  have compares : ∀ x ∈ xs, ∀ y, s.pick x = .ok y → ∃ hit, s.compare i.heap sought y = .ok hit := by
    intro x member y picked
    refine s.exists_compare once fun loose => ⟨comparable loose _ List.mem_cons_self, ?_⟩
    exact Search.built_of_pick (comparable loose x (List.mem_cons_of_mem _ member)) picked
  refine ⟨fun plain => ⟨j, ?_⟩, fun keyed => ⟨fun pairs => ⟨j, ?_⟩, fun before v after split firsts single => ⟨j, ?_⟩⟩⟩
  · have picks : ∀ x, s.pick x = .ok x := fun x => by simp [Search.pick, plain]
    rw [foldlM_step_eq fun x member => ?_, Search.finds_eq_of_not_keyed plain] at searches
    · exact searches
    · obtain ⟨hit, compared⟩ := compares x member x (picks x)
      exact ⟨x, hit, picks x, compared⟩
  · rw [foldlM_step_eq fun x member => ?_, Search.finds_eq_of_keyed keyed] at searches
    · exact searches
    · obtain ⟨y, picked⟩ := Search.exists_pick_of_keyed keyed (pairs x member)
      obtain ⟨hit, compared⟩ := compares x member y picked
      exact ⟨y, hit, picked, compared⟩
  · subst split
    have refused : ∀ acc, s.step i.heap sought acc v = .error (.wrongKind .pair v) := by
      intro acc
      rw [Search.step, Search.pick_of_keyed keyed single]
      rfl
    rw [List.foldlM_append, foldlM_step_eq fun x member => ?_] at searches
    · change AppliesTo _ _ _ (Action.ofExcept (List.foldlM _ _ (v :: after)) j) at searches
      rw [List.foldlM_cons, refused] at searches
      exact searches
    · obtain ⟨y, picked⟩ := Search.exists_pick_of_keyed keyed (firsts x member)
      obtain ⟨hit, compared⟩ := compares x (List.mem_append_left _ member) y picked
      exact ⟨y, hit, picked, compared⟩

/-- Two pairs and what is no pair. -/
def pairsSample : List Value :=
  [.list [.num 1], .list [.num 2]] ++ [.num 3]

theorem search_finds_first_pairsSample :
    preludeSession.heap.Knows root ∧ preludeSession.heap.BindsOnce ∧
      (∀ v ∈ .str "2" :: pairsSample, WellFormedOver (· < preludeSession.heap.scopes.size) v) ∧
      (∀ v ∈ .str "2" :: pairsSample, v.Comparable) ∧
      (∃ j, AppliesTo (Procedure.search .assoc).value [.str "2", .list (pairsSample.take 2)] preludeSession
        (.ok (.list [.num 2]) j)) ∧
      ∃ j, AppliesTo (Procedure.search .assoc).value [.str "2", .list pairsSample] preludeSession
        (.error (.wrongKind .pair (.num 3)) j) := by
  have once : preludeSession.heap.BindsOnce := heap_bindsOnce_of_reachable reachable_preludeSession
  have data : ∀ v ∈ .str "2" :: pairsSample, v.Canonical := by decide
  have held : ∀ v ∈ .str "2" :: pairsSample, WellFormedOver (· < preludeSession.heap.scopes.size) v :=
    fun v member => (data v member).wellFormedOver
  have short : ∀ numeral ∈ Number.Numeral.ofChars? (Text.trim "2".toList),
      numeral.digits.length ≤ Number.maxDigits := by decide
  have number : ∀ n ∈ [1, 2, 3], (Value.num n).Comparable := fun n member => by
    have inRange : ∀ n ∈ [1, 2, 3], Number.InRange n := by decide
    exact ⟨inRange n member, trivial⟩
  have comparable : ∀ v ∈ .str "2" :: pairsSample, v.Comparable := by
    simp only [pairsSample, List.cons_append, List.nil_append, List.forall_mem_cons]
    refine ⟨⟨trivial, short⟩, ⟨number 1 (by decide), trivial⟩, ⟨number 2 (by decide), trivial⟩, number 3 (by decide), ?_⟩
    exact fun _ none => absurd none List.not_mem_nil
  have fewer : .str "2" :: pairsSample.take 2 ⊆ .str "2" :: pairsSample :=
    List.cons_subset_cons _ (List.take_subset 2 pairsSample)
  obtain ⟨found, _⟩ := (search_finds_first knows_preludeSession once .assoc (fun v member => held v (fewer member))
    fun _ v member => comparable v (fewer member)).2 rfl
  obtain ⟨_, reported⟩ := (search_finds_first knows_preludeSession once .assoc held fun _ => comparable).2 rfl
  refine ⟨knows_preludeSession, once, held, comparable, found (by decide), ?_⟩
  exact reported _ (.num 3) [] rfl (by decide) rfl

end SmallScheme
