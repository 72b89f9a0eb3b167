import SmallScheme.Proofs.Folding

/-
Module: SmallScheme.Proofs.ListLibrary
Purpose: The list procedures of the prelude are the functions of that name. All are folds with a step of their own:
  `reverse` and `length` with one that computes, `map` and `filter` with one that applies the given procedure to an
  element and puts the value in front of what it has, or the element if the value counts as true. The procedure may do
  what it likes to the world and may call back into the prelude, as long as it leaves the cells there are as they are.
Main exports: EvaluatesTo.exists_fold, computes_reverse, computes_length, tabulating, exists_map, exists_filter,
  Succeeds, list_procedures
-/

namespace SmallScheme

section Computed

variable {h : Heap}

/-- A call of `fold` in a frame, where what its step computes is known when the step has been made. -/
theorem EvaluatesTo.exists_fold {j k : Interpreter} {frame : ScopeId} {name : String} {step start g acc : Value}
    {xs : List Value} {next : Value → Value → Except Fault Value} (known : j.heap.Knows frame)
    (rootKnown : j.heap.Knows root) (made : EvaluatesTo frame step j (.ok g k)) (grew : OnlyGrew j k)
    (computes : ∀ acc, ∀ x ∈ xs, Computes k.heap g [acc, x] (next acc x)) (begins : Gives j.heap frame start (.ok acc))
    (lst : j.heap.lookup? frame name = some (.list xs)) :
    ∃ l, OnlyGrew j l ∧
      EvaluatesTo frame (.list [.sym "fold", step, start, .sym name]) j (Action.ofExcept (xs.foldlM next acc) l) := by
  obtain ⟨l, grewOn, begun⟩ := begins k grew.1
  have within := grew.trans grewOn
  obtain ⟨m, grewLast, folds⟩ := computes_fold (rootKnown.mono grew.1) computes acc l grewOn.1
  refine ⟨m, within.trans grewLast, .call rfl (known.procedure .fold) (.cons made (.cons begun (.cons ?_ .nil))) folds⟩
  exact .symbol (within.1.lookup? lst)

/-- Elements put in front one after the other come out the other way round. -/
theorem foldlM_cons_eq (xs ys : List Value) :
    (xs.foldlM (fun acc x => .ok (Value.cons x acc)) (.list ys) : Except Fault Value) = .ok (.list (xs.reverse ++ ys)) := by
  induction xs generalizing ys with
  | nil => rfl
  | cons x xs ih =>
      rw [List.reverse_cons, List.append_assoc]
      exact ih (x :: ys)

theorem computes_reverse (knows : h.Knows root) (xs : List Value) :
    Computes h Procedure.reverse.value [.list xs] (.ok (.list xs.reverse)) := by
  intro i later
  have knowsThere := knows.mono later
  obtain ⟨j, frame, grew, known, isFrame, enters⟩ := Procedure.reverse.exists_frame [.list xs] knowsThere rfl
  have rootKnown := knowsThere.mono grew.1
  obtain ⟨k, g, grewOn, flips, flipped⟩ := exists_flipped rootKnown (.prim (.operation .cons))
  have step : EvaluatesTo frame (.list [.sym "flip", .sym "cons"]) j (.ok g k) :=
    .call rfl (known.procedure .flip) (.cons (.symbol (known.primitive (.operation .cons))) .nil) flips
  have computes : ∀ acc, ∀ x ∈ xs, Computes k.heap g [acc, x] (.ok (Value.cons x acc)) := fun acc x _ =>
    flipped k.heap acc x _ (.refl _) (.operation fun _ _ => rfl)
  obtain ⟨l, grewLast, folds⟩ :=
    EvaluatesTo.exists_fold known rootKnown step grewOn computes (.quote (.list [])) isFrame.bound
  rw [foldlM_cons_eq, List.append_nil] at folds
  exact ⟨l, grew.trans grewLast, enters _ folds⟩

/-- Counting goes on from the count so far, as long as it stays in range. -/
theorem foldlM_count_eq (xs : List Value) (n : Nat) (inRange : n + xs.length < 0x8000000000000000) :
    xs.foldlM (fun acc _ => Arithmetic.add.call [acc, .num 1]) (.num n) = .ok (.num (n + xs.length : Nat)) := by
  induction xs generalizing n with
  | nil => rfl
  | cons x xs ih =>
      rw [List.length_cons] at inRange
      have fits : Number.InRange (n + 1) := by
        simp only [Number.InRange, Number.least, Number.greatest]
        omega
      have counted : Arithmetic.add.call [.num n, .num 1] = .ok (.num (n + 1 : Nat)) := by
        change Except.ok (Value.num (Number.wrap (n + 1))) = _
        rw [Number.wrap_eq_self fits]
        rfl
      rw [List.foldlM_cons, counted, List.length_cons, ← Nat.add_assoc, Nat.add_right_comm]
      exact ih (n + 1) (by omega)

theorem computes_length (knows : h.Knows root) (xs : List Value) (inRange : xs.length < 0x8000000000000000) :
    Computes h Procedure.length.value [.list xs] (.ok (.num xs.length)) := by
  intro i later
  have knowsThere := knows.mono later
  obtain ⟨j, frame, grew, known, isFrame, enters⟩ := Procedure.length.exists_frame [.list xs] knowsThere rfl
  have rootKnown := knowsThere.mono grew.1
  have computes : ∀ acc, ∀ x ∈ xs, Computes j.heap (.closure ["x", "y"] none [Procedure.counting] frame) [acc, x]
      (Arithmetic.add.call [acc, .num 1]) := by
    intro acc x _
    refine .closure rfl (by decide) fun k inner innerFrame => ?_
    have innerKnown := innerFrame.knows known rfl (by decide)
    obtain ⟨count, -⟩ : k.lookup? inner "x" = some acc ∧ k.lookup? inner "y" = some x := innerFrame.bound
    have add := innerKnown.primitive (.operation (.arithmetic .add))
    exact .call rfl add (.cons (.symbol count) (.cons (.number 1) .nil)) (.operation fun _ _ => rfl)
  obtain ⟨l, grewOn, folds⟩ :=
    EvaluatesTo.exists_fold known rootKnown (.lambda ..) (.refl j) computes (.number 0) isFrame.bound
  have counted : xs.foldlM (fun acc _ => Arithmetic.add.call [acc, .num 1]) (.num 0) = .ok (.num xs.length) := by
    simpa using foldlM_count_eq xs 0 (by omega)
  rw [counted] at folds
  exact ⟨l, grew.trans grewOn, enters _ folds⟩

end Computed

/-!
### Procedures that apply one to each element
-/

/-- The application of a procedure to an element, whose value is noted together with the element. -/
def tabulating (f : Value) (pairs : List (Value × Value)) (x : Value) (i : Interpreter)
    (ending : Ending (List (Value × Value))) : Prop :=
  ∃ applied, AppliesTo f [x] i applied ∧ ending = applied.map fun v => (x, v) :: pairs

/-- In a memory and in all later ones, a procedure does with an element and what it is put before the same as another one
    does with the element, and then puts the two and the value together. -/
def Puts (f g : Value) (put : Value → Value → Value → Value) (h : Heap) : Prop :=
  ∀ i : Interpreter, h.GrowsTo i.heap → ∀ x y, ∃ j applied, OnlyGrew i j ∧ AppliesTo f [x] j applied ∧
    j.heap.GrowsTo (Ending.state applied).heap ∧ AppliesTo g [x, y] i (applied.map fun v => put x v y)

/-- In a memory and in all later ones, the application of a procedure to a value gives a value. -/
def Succeeds (f x : Value) (h : Heap) : Prop :=
  ∀ i ending, h.GrowsTo i.heap → AppliesTo f [x] i ending → ∃ v j, ending = .ok v j

section Tabulated

variable {f g : Value} {put : Value → Value → Value → Value} {h : Heap} {i : Interpreter} {frame : ScopeId}

theorem Puts.steady (puts : Puts f g put h) (xs : List Value) :
    Steady g (fun args => ∃ x ∈ xs, ∃ y, args = [x, y]) h := by
  intro i later args allowed
  obtain ⟨x, _, y, rfl⟩ := allowed
  obtain ⟨j, applied, grew, _, grows, applies⟩ := puts i later x y
  refine ⟨_, applies, fun c old => ?_⟩
  rw [Ending.state_map]
  exact (grew.1.trans grows).cells c old

/-- The call of `foldr` with a step that puts values together notes the values of the procedure for the elements, from the
    last to the first, and gives what they are put together to. -/
theorem exists_foldr_puts {form : Value} {xs : List Value} (known : i.heap.Knows frame) (rootKnown : i.heap.Knows root)
    (lst : i.heap.lookup? frame "lst" = some (.list xs))
    (puts : Puts f (.closure ["x", "y"] none [form] frame) put i.heap)
    (code : List (Value × Value) → Value) (empty : code [] = .list [])
    (codes : ∀ x v pairs, put x v (code pairs) = code ((x, v) :: pairs)) :
    ∃ ending, FoldedBy (tabulating f) [] xs.reverse i ending ∧
      EvaluatesTo frame
        (.list [.sym "foldr", Procedure.lambda ["x", "y"] form, .list [.sym "quote", .list []], .sym "lst"]) i
        (ending.map code) := by
  obtain ⟨result, folded, _, folds⟩ := exists_foldr xs (.list []) rootKnown (puts.steady xs)
  obtain ⟨ending, tabulated, rfl⟩ : ∃ ending, FoldedBy (tabulating f) [] xs.reverse i ending ∧
      result = ending.map code := by
    refine folded.recode (.refl _) (fun pairs x j result later stepped => ?_) [] empty.symm
    obtain ⟨k, applied, grew, applies, grows, together⟩ := puts j later x (code pairs)
    refine ⟨k, _, grew, ⟨applied, applies, rfl⟩, by rwa [Ending.state_map], ?_⟩
    rw [stepped.ending_eq together]
    cases applied with
    | ok v l => simp only [Ending.map, codes]
    | error fault l => rfl
  refine ⟨ending, tabulated, ?_⟩
  exact .call rfl (known.procedure .foldr) (.cons (.lambda ..) (.cons (.quote _) (.cons (.symbol lst) .nil))) folds

/-- A step that applies the given procedure to the element first puts together what its body makes of the value. -/
theorem puts_of_body {name : String} {form : Value} (known : h.Knows frame) (steady : Steady f (·.length = 1) h)
    (func : h.lookup? frame name = some f) (noKeyword : Keyword.ofName? name = none) (other : name ∉ ["x", "y"])
    (body : ∀ j inner x y applied, j.heap.Knows inner → j.heap.lookup? inner "x" = some x →
      j.heap.lookup? inner "y" = some y → j.heap.GrowsTo (Ending.state applied).heap →
      EvaluatesTo inner (.list [.sym name, .sym "x"]) j applied →
      EvaluatesTo inner form j (applied.map fun v => put x v y)) :
    Puts f (.closure ["x", "y"] none [form] frame) put h := by
  intro i later x y
  obtain ⟨j, inner, grew, isFrame, enters⟩ := AppliesTo.exists_frame ["x", "y"] none frame [x, y] rfl (by decide) i
  have innerKnown := isFrame.knows (known.mono later) rfl (by decide)
  have called := isFrame.outer_of_params rfl other (later.lookup? func)
  obtain ⟨first, second⟩ : j.heap.lookup? inner "x" = some x ∧ j.heap.lookup? inner "y" = some y := isFrame.bound
  obtain ⟨applied, applies, grows⟩ := steady.exists_ending [x] rfl (later.trans grew.1)
  have evaluates : EvaluatesTo inner (.list [.sym name, .sym "x"]) j applied :=
    .call noKeyword called (.cons (.symbol first) .nil) applies
  exact ⟨j, applied, grew, applies, grows,
    enters form _ (body j inner x y applied innerKnown first second grows evaluates)⟩

/-- The step of `map` puts the value in front. -/
theorem puts_mapping (known : h.Knows frame) (steady : Steady f (·.length = 1) h)
    (func : h.lookup? frame "func" = some f) :
    Puts f (.closure ["x", "y"] none [Procedure.mapping] frame) (fun _ v y => Value.cons v y) h := by
  refine puts_of_body known steady func rfl (by decide) ?_
  intro j inner x y applied innerKnown _ second grows evaluates
  have cons := innerKnown.primitive (.operation .cons)
  cases applied with
  | error fault k => exact .call_error rfl cons (.first_error evaluates)
  | ok v k => exact .call rfl cons (.cons evaluates (.cons (.symbol (grows.lookup? second)) .nil)) (.operation rfl)

/-- The step of `filter` puts the element in front if the value counts as true. -/
theorem puts_filtering (known : h.Knows frame) (steady : Steady f (·.length = 1) h)
    (pred : h.lookup? frame "pred" = some f) :
    Puts f (.closure ["x", "y"] none [Procedure.filtering] frame)
      (fun x v y => if isTrue v then Value.cons x y else y) h := by
  refine puts_of_body known steady pred rfl (by decide) ?_
  intro j inner x y applied innerKnown first second grows evaluates
  cases applied with
  | error fault k => exact .choice_error evaluates
  | ok v k =>
      have element := grows.lookup? first
      have others := grows.lookup? second
      refine .choice evaluates ?_
      cases counts : isTrue v with
      | true =>
          simp only [Ending.map, counts, if_true]
          exact .call rfl (grows.lookup? (innerKnown.primitive (.operation .cons)))
            (.cons (.symbol element) (.cons (.symbol others) .nil)) (.operation rfl)
      | false =>
          simp only [Ending.map, counts, Bool.false_eq_true, if_false]
          exact .symbol others

/-- `map` gives the values of the procedure for the elements, in their order, or the first fault of the applications,
    which go from the last element to the first. -/
theorem exists_map (knows : i.heap.Knows root) (steady : Steady f (·.length = 1) i.heap) (xs : List Value) :
    ∃ ending, FoldedBy (tabulating f) [] xs.reverse i ending ∧
      AppliesTo Procedure.map.value [f, .list xs] i (ending.map fun pairs => .list (pairs.map (·.2))) := by
  obtain ⟨j, frame, grew, known, isFrame, enters⟩ := Procedure.map.exists_frame [f, .list xs] knows rfl
  obtain ⟨func, lst⟩ : j.heap.lookup? frame "func" = some f ∧ j.heap.lookup? frame "lst" = some (.list xs) :=
    isFrame.bound
  obtain ⟨ending, tabulated, folds⟩ := exists_foldr_puts known (knows.mono grew.1) lst
    (puts_mapping known (steady.mono grew.1) func) (fun pairs => .list (pairs.map (·.2))) rfl fun _ _ _ => rfl
  exact ⟨ending, tabulated.after grew, enters _ folds⟩

/-- `filter` gives the elements for which the value of the procedure counts as true, in their order, or the first fault of
    the applications. -/
theorem exists_filter (knows : i.heap.Knows root) (steady : Steady f (·.length = 1) i.heap) (xs : List Value) :
    ∃ ending, FoldedBy (tabulating f) [] xs.reverse i ending ∧
      AppliesTo Procedure.filter.value [f, .list xs] i
        (ending.map fun pairs => .list ((pairs.filter fun pair => isTrue pair.2).map (·.1))) := by
  obtain ⟨j, frame, grew, known, isFrame, enters⟩ := Procedure.filter.exists_frame [f, .list xs] knows rfl
  obtain ⟨pred, lst⟩ : j.heap.lookup? frame "pred" = some f ∧ j.heap.lookup? frame "lst" = some (.list xs) :=
    isFrame.bound
  let code : List (Value × Value) → Value := fun pairs => .list ((pairs.filter fun pair => isTrue pair.2).map (·.1))
  have codes : ∀ x v pairs, (if isTrue v then Value.cons x (code pairs) else code pairs) = code ((x, v) :: pairs) := by
    intro x v pairs
    cases counts : isTrue v <;> simp [code, counts, Value.cons]
  obtain ⟨ending, tabulated, folds⟩ := exists_foldr_puts known (knows.mono grew.1) lst
    (puts_filtering known (steady.mono grew.1) pred) code rfl codes
  exact ⟨ending, tabulated.after grew, enters _ folds⟩

/-- If the procedure succeeds for each element, there is a value for each. -/
theorem exists_pairs_of_succeeds {pairs : List (Value × Value)} {ys : List Value} {ending : Ending (List (Value × Value))}
    (tabulated : FoldedBy (tabulating f) pairs ys i ending) (later : h.GrowsTo i.heap)
    (succeeds : ∀ x ∈ ys, Succeeds f x h) :
    ∃ more j, ending = .ok more j ∧ more.map (·.1) = ys.reverse ++ pairs.map (·.1) := by
  induction tabulated with
  | nil => exact ⟨_, _, rfl, rfl⟩
  | cons grew first grows rest ih =>
      obtain ⟨_, others⟩ := List.forall_mem_cons.1 succeeds
      obtain ⟨more, j, same, elements⟩ := ih (later.trans (grew.1.trans grows)) others
      obtain ⟨applied, -, made⟩ := first
      cases applied with
      | error => cases made
      | ok v k =>
          cases made
          exact ⟨more, j, same, by simpa using elements⟩
  | error grew first grows =>
      obtain ⟨applied, applies, made⟩ := first
      obtain ⟨v, j, rfl⟩ := succeeds _ List.mem_cons_self _ _ (later.trans grew.1) applies
      cases made

end Tabulated

/-- The list procedures of the prelude are the mathematical functions, in every state in which the names of the built-in
    procedures and of the prelude have their values. For a procedure whose applications end and leave the cells there are
    unchanged, `foldl` and `foldr` end as its applications do along the list, from the left or from the right, with the
    first fault if there is one. If it succeeds for each element, `map` gives its values for the elements and `filter`
    the elements for which the value is not `#f`. `reverse` gives the reversed list, so that to reverse it again gives
    the list back, and `length` the number of elements. -/
theorem list_procedures {i : Interpreter} (knows : i.heap.Knows root) (xs : List Value) :
    (∀ f a, Steady f (·.length = 2) i.heap →
      (∃ ending, FoldedBy (fun acc x => AppliesTo f [acc, x]) a xs i ending ∧
        AppliesTo Procedure.foldl.value [f, a, .list xs] i ending) ∧
      ∃ ending, FoldedBy (fun acc x => AppliesTo f [x, acc]) a xs.reverse i ending ∧
        AppliesTo Procedure.foldr.value [f, a, .list xs] i ending) ∧
    (∀ f, Steady f (·.length = 1) i.heap → (∀ x ∈ xs, Succeeds f x i.heap) →
      (∃ pairs j, FoldedBy (tabulating f) [] xs.reverse i (.ok pairs j) ∧ pairs.map (·.1) = xs ∧
        AppliesTo Procedure.map.value [f, .list xs] i (.ok (.list (pairs.map (·.2))) j)) ∧
      ∃ pairs j, FoldedBy (tabulating f) [] xs.reverse i (.ok pairs j) ∧ pairs.map (·.1) = xs ∧
        AppliesTo Procedure.filter.value [f, .list xs] i
          (.ok (.list ((pairs.filter fun pair => isTrue pair.2).map (·.1))) j)) ∧
    (∃ j k, AppliesTo Procedure.reverse.value [.list xs] i (.ok (.list xs.reverse) j) ∧
      AppliesTo Procedure.reverse.value [.list xs.reverse] j (.ok (.list xs) k)) ∧
    (xs.length < 0x8000000000000000 → ∃ j, AppliesTo Procedure.length.value [.list xs] i (.ok (.num xs.length) j)) := by
  refine ⟨fun f a steady => ⟨?_, ?_⟩, fun f steady succeeds => ?_, ?_, fun inRange => ?_⟩
  · refine exists_foldl xs a knows (steady.narrow ?_)
    rintro args ⟨acc, x, _, rfl⟩
    rfl
  · obtain ⟨ending, folded, _, applies⟩ := exists_foldr xs a knows (steady.narrow fun args allowed => by
      obtain ⟨x, _, acc, rfl⟩ := allowed
      rfl)
    exact ⟨ending, folded, applies⟩
  · have reversed : ∀ x ∈ xs.reverse, Succeeds f x i.heap := fun x member => succeeds x (List.mem_reverse.1 member)
    obtain ⟨mapped, tabulated, maps⟩ := exists_map knows steady xs
    obtain ⟨filtered, alsoTabulated, filters⟩ := exists_filter knows steady xs
    obtain ⟨pairs, j, rfl, elements⟩ := exists_pairs_of_succeeds tabulated (.refl _) reversed
    obtain ⟨others, k, rfl, alsoElements⟩ := exists_pairs_of_succeeds alsoTabulated (.refl _) reversed
    exact ⟨⟨pairs, j, tabulated, by simpa using elements, maps⟩,
      others, k, alsoTabulated, by simpa using alsoElements, filters⟩
  · obtain ⟨j, grew, applies⟩ := computes_reverse knows xs i (.refl _)
    obtain ⟨k, _, again⟩ := computes_reverse knows xs.reverse j grew.1
    rw [List.reverse_reverse] at again
    exact ⟨j, k, applies, again⟩
  · obtain ⟨j, _, applies⟩ := computes_length knows xs inRange i (.refl _)
    exact ⟨j, applies⟩

/-- Two lists that are not empty. -/
def headsSample : List Value :=
  [.list [.num 1], .list [.num 2, .num 3]]

theorem list_procedures_headsSample :
    let cons : Value := .prim (.operation .cons)
    let car : Value := .prim (.operation .car)
    preludeSession.heap.Knows root ∧ Steady cons (·.length = 2) preludeSession.heap ∧
      Steady car (·.length = 1) preludeSession.heap ∧
      (∀ x ∈ headsSample, Succeeds car x preludeSession.heap) ∧
      (∃ ending, FoldedBy (fun acc x => AppliesTo cons [x, acc]) (.list []) headsSample.reverse preludeSession ending ∧
        AppliesTo Procedure.foldr.value [cons, .list [], .list headsSample] preludeSession ending) ∧
      (∃ pairs j, FoldedBy (tabulating car) [] headsSample.reverse preludeSession (.ok pairs j) ∧
        pairs.map (·.1) = headsSample ∧
        AppliesTo Procedure.map.value [car, .list headsSample] preludeSession (.ok (.list (pairs.map (·.2))) j)) ∧
      ∃ j, AppliesTo Procedure.length.value [.list headsSample] preludeSession (.ok (.num 2) j) := by
  intro cons car
  have conses := Steady.operation .cons (·.length = 2) preludeSession.heap
  have cars := Steady.operation .car (·.length = 1) preludeSession.heap
  have succeeds : ∀ x ∈ headsSample, Succeeds car x preludeSession.heap := by
    intro x member i ending _ applies
    obtain ⟨v, first⟩ : ∃ v, callFirst [x] = .ok v := by
      rcases List.mem_cons.1 member with rfl | member
      · exact ⟨_, rfl⟩
      · cases List.mem_singleton.1 member
        exact ⟨_, rfl⟩
    have applied : AppliesTo car [x] i (.ok v i) := .operation first
    exact ⟨v, i, applies.ending_eq applied⟩
  obtain ⟨folds, applied, _, counts⟩ := list_procedures knows_preludeSession headsSample
  exact ⟨knows_preludeSession, conses, cars, succeeds, (folds cons (.list []) conses).2, (applied car cars succeeds).1,
    counts (by decide)⟩

end SmallScheme
