import SmallScheme.Proofs.Procedures

/-
Module: SmallScheme.Proofs.Folding
Purpose: The folds of the prelude. Whatever is applied, what the loops do is told by a relation between a list and an
  ending: one step for each element, each in the state that the one before has left, with nothing in between but frames,
  and the first fault ends it. The induction is on the list; the frames of the loop itself are what makes the memory
  grow.
Main exports: FoldedBy, exists_foldl, exists_foldr, FoldedBy.exists_of_computed, computes_fold, FoldedBy.recode
-/

namespace SmallScheme

/-- The ending with another value in place of the one that it has. -/
def Ending.map {α β : Type} (f : α → β) : Ending α → Ending β
  | .ok a i => .ok (f a) i
  | .error fault i => .error fault i

theorem Ending.state_map {α β : Type} (f : α → β) (ending : Ending α) :
    Ending.state (ending.map f) = Ending.state ending := by
  cases ending <;> rfl

/-- From one value to the next along a list, with one step for each element. Each begins in the state in which the one
    before ended, except that the memory may have grown since; the first fault ends it. -/
inductive FoldedBy {β : Type} (step : β → Value → Interpreter → Ending β → Prop) :
    β → List Value → Interpreter → Ending β → Prop where
  | nil {b : β} {i j : Interpreter} (grew : OnlyGrew i j) : FoldedBy step b [] i (.ok b j)
  | cons {b c : β} {x : Value} {xs : List Value} {i j k : Interpreter} {ending : Ending β} (grew : OnlyGrew i j)
      (first : step b x j (.ok c k)) (grows : j.heap.GrowsTo k.heap) (rest : FoldedBy step c xs k ending) :
      FoldedBy step b (x :: xs) i ending
  | error {b : β} {x : Value} {xs : List Value} {i j k : Interpreter} {fault : Fault} (grew : OnlyGrew i j)
      (first : step b x j (.error fault k)) (grows : j.heap.GrowsTo k.heap) :
      FoldedBy step b (x :: xs) i (.error fault k)

namespace FoldedBy

variable {β γ : Type} {step : β → Value → Interpreter → Ending β → Prop} {b c : β} {x : Value} {xs : List Value}
  {i j k : Interpreter} {ending : Ending β} {fault : Fault} {h : Heap}

/-- Growth of the memory before the first step does not matter. -/
theorem after (folded : FoldedBy step b xs j ending) (grew : OnlyGrew i j) : FoldedBy step b xs i ending := by
  cases folded with
  | nil grewOn => exact .nil (grew.trans grewOn)
  | cons grewOn first grows rest => exact .cons (grew.trans grewOn) first grows rest
  | error grewOn first grows => exact .error (grew.trans grewOn) first grows

/-- One more step at the end. -/
theorem snoc (folded : FoldedBy step b xs i (.ok c j)) (last : step c x j ending)
    (grows : j.heap.GrowsTo (Ending.state ending).heap) : FoldedBy step b (xs ++ [x]) i ending := by
  generalize made : (.ok c j : Ending β) = before at folded
  induction folded with
  | nil grew =>
      cases made
      cases ending with
      | ok d k => exact .cons grew last grows (.nil (.refl k))
      | error fault k => exact .error grew last grows
  | cons grew first growsOn _ ih => exact .cons grew first growsOn (ih made)
  | error => cases made

/-- What would come after a fault does not matter. -/
theorem append_error (folded : FoldedBy step b xs i (.error fault j)) (ys : List Value) :
    FoldedBy step b (xs ++ ys) i (.error fault j) := by
  generalize made : (.error fault j : Ending β) = ending at folded
  induction folded with
  | nil => cases made
  | cons grew first grows _ ih => exact .cons grew first grows (ih made)
  | error grew first grows =>
      cases made
      exact .error grew first grows

/-- Steps that all compute one function, and only let the memory grow, are the fold of that function. -/
theorem exists_of_computed {next : β → Value → Except Fault β} (folded : FoldedBy step b xs i ending)
    (later : h.GrowsTo i.heap)
    (computed : ∀ b, ∀ x ∈ xs, ∀ j ending, h.GrowsTo j.heap → step b x j ending →
      ∃ k, OnlyGrew j k ∧ ending = Action.ofExcept (next b x) k) :
    ∃ j, OnlyGrew i j ∧ ending = Action.ofExcept (xs.foldlM next b) j := by
  induction folded with
  | nil grew => exact ⟨_, grew, rfl⟩
  | @cons b c x xs i j k ending grew first grows rest ih =>
      obtain ⟨l, grewOn, made⟩ := computed b x List.mem_cons_self j _ (later.trans grew.1) first
      have others := fun b y member => computed b y (List.mem_cons_of_mem x member)
      cases value : next b x with
      | error fault =>
          rw [value] at made
          cases made
      | ok d =>
          rw [value] at made
          cases made
          obtain ⟨m, grewLast, rfl⟩ := ih (later.trans (grew.1.trans grewOn.1)) others
          refine ⟨m, grew.trans (grewOn.trans grewLast), ?_⟩
          rw [List.foldlM_cons, value]
          rfl
  | @error b x xs i j k fault grew first grows =>
      obtain ⟨l, grewOn, made⟩ := computed b x List.mem_cons_self j _ (later.trans grew.1) first
      cases value : next b x with
      | ok d =>
          rw [value] at made
          cases made
      | error problem =>
          rw [value] at made
          cases made
          refine ⟨_, grew.trans grewOn, ?_⟩
          rw [List.foldlM_cons, value]
          rfl

/-- Steps that do to coded values what others do to the values fold to the code of what the others fold to. -/
theorem recode {coded : γ → Value → Interpreter → Ending γ → Prop} {code : β → γ} {given : γ} {result : Ending γ}
    (folded : FoldedBy coded given xs i result) (later : h.GrowsTo i.heap)
    (refines : ∀ b x j result, h.GrowsTo j.heap → coded (code b) x j result →
      ∃ k ending, OnlyGrew j k ∧ step b x k ending ∧ k.heap.GrowsTo (Ending.state ending).heap ∧
        result = ending.map code)
    (b : β) (start : given = code b) : ∃ ending, FoldedBy step b xs i ending ∧ result = ending.map code := by
  induction folded generalizing b with
  | nil grew => exact ⟨_, .nil grew, by rw [start]; rfl⟩
  | cons grew first grows rest ih =>
      subst start
      obtain ⟨k, ending, grewOn, stepped, growsOn, made⟩ := refines b _ _ _ (later.trans grew.1) first
      cases ending with
      | error fault l => cases made
      | ok c l =>
          cases made
          obtain ⟨ending, rest, made⟩ := ih (later.trans (grew.1.trans grows)) c rfl
          exact ⟨ending, .cons (grew.trans grewOn) stepped growsOn rest, made⟩
  | error grew first grows =>
      subst start
      obtain ⟨k, ending, grewOn, stepped, growsOn, made⟩ := refines b _ _ _ (later.trans grew.1) first
      cases ending with
      | ok c l => cases made
      | error fault l =>
          cases made
          exact ⟨_, .error (grew.trans grewOn) stepped growsOn, rfl⟩

end FoldedBy

/-!
### The loops
-/

section Loops

variable {h : Heap} {frame : ScopeId} {items : List Value} {x : Value} {f : Value}

theorem gives_first (known : h.Knows frame) (lst : h.lookup? frame "lst" = some (.list (x :: items))) :
    Gives h frame (.list [.sym "car", .sym "lst"]) (.ok x) :=
  .call rfl (known.primitive (.operation .car)) (.cons (.symbol lst) .nil) (.operation fun _ _ => rfl)

theorem gives_rest (known : h.Knows frame) (lst : h.lookup? frame "lst" = some (.list (x :: items))) :
    Gives h frame (.list [.sym "cdr", .sym "lst"]) (.ok (.list items)) :=
  .call rfl (known.primitive (.operation .cdr)) (.cons (.symbol lst) .nil) (.operation fun _ _ => rfl)

/-- Both folds take a procedure, a start and a list, and give the start if the list is empty and go on otherwise. -/
theorem exists_round {p : Procedure} {start : String} {more : Value}
    (parameters : p.parameters = { fixed := ["func", start, "lst"], rest? := none })
    (body : p.body = .list [.sym "if", .list [.sym "null?", .sym "lst"], .sym start, more]) (f acc : Value)
    (xs : List Value) {i : Interpreter} (knows : i.heap.Knows root) :
    ∃ j frame, OnlyGrew i j ∧ j.heap.Knows frame ∧
      (j.heap.lookup? frame "func" = some f ∧ j.heap.lookup? frame start = some acc ∧
        j.heap.lookup? frame "lst" = some (.list xs)) ∧
      ∀ ending, EvaluatesTo frame (if xs.isEmpty then .sym start else more) j ending →
        AppliesTo p.value [f, acc, .list xs] i ending := by
  have count : fits p.parameters.fixed p.parameters.rest? [f, acc, .list xs].length = true := by
    rw [parameters]
    rfl
  obtain ⟨j, frame, grew, known, isFrame, enters⟩ := p.exists_frame [f, acc, .list xs] knows count
  rw [parameters] at isFrame
  obtain ⟨func, begins, lst⟩ : j.heap.lookup? frame "func" = some f ∧ j.heap.lookup? frame start = some acc ∧
    j.heap.lookup? frame "lst" = some (.list xs) := isFrame.bound
  have empty : Gives j.heap frame (.list [.sym "null?", .sym "lst"]) (.ok (.bool (Value.list xs = .list []))) :=
    .call rfl (known.procedure .isNull) (.cons (.symbol lst) .nil) (computes_isNull (knows.mono grew.1) _)
  obtain ⟨k, grewOn, tests⟩ := empty j (.refl _)
  refine ⟨k, frame, grew.trans grewOn, known.mono grewOn.1, ?_, fun ending chosen => enters ending ?_⟩
  · exact ⟨grewOn.1.lookup? func, grewOn.1.lookup? begins, grewOn.1.lookup? lst⟩
  · rw [body]
    refine .choice tests ?_
    cases xs <;> exact chosen

/-- The left fold of the prelude, applied to a procedure, a start and a list, applies the procedure to what it has so far
    and each element in turn, and ends as that does. -/
theorem exists_foldl (xs : List Value) (acc : Value) {i : Interpreter} (knows : i.heap.Knows root)
    (steady : Steady f (fun args => ∃ acc, ∃ x ∈ xs, args = [acc, x]) i.heap) :
    ∃ ending, FoldedBy (fun acc x => AppliesTo f [acc, x]) acc xs i ending ∧
      AppliesTo Procedure.foldl.value [f, acc, .list xs] i ending := by
  induction xs generalizing acc i with
  | nil =>
      obtain ⟨j, frame, grew, _, ⟨_, accum, _⟩, enters⟩ := exists_round (p := .foldl) rfl rfl f acc [] knows
      exact ⟨.ok acc j, .nil grew, enters _ (.symbol accum)⟩
  | cons x xs ih =>
      obtain ⟨j, frame, grew, known, ⟨func, accum, lst⟩, enters⟩ :=
        exists_round (p := .foldl) rfl rfl f acc (x :: xs) knows
      obtain ⟨k, grewOn, first⟩ := gives_first known lst j (.refl _)
      have before := grew.trans grewOn
      obtain ⟨ending, applies, grows⟩ := steady.exists_ending [acc, x] ⟨acc, x, List.mem_cons_self, rfl⟩ before.1
      have step : EvaluatesTo frame (.list [.sym "func", .sym "accum", .list [.sym "car", .sym "lst"]]) j ending :=
        .call rfl func (.cons (.symbol accum) (.cons first .nil)) applies
      have again := known.procedure .foldl
      cases ending with
      | error fault l =>
          refine ⟨.error fault l, .error before applies grows, enters _ ?_⟩
          exact .call_error rfl again (.cons_error (.symbol func) (.first_error step))
      | ok next l =>
          obtain ⟨m, grewLast, rest⟩ := gives_rest known lst l (grewOn.1.trans grows)
          have later := before.1.trans (grows.trans grewLast.1)
          have narrows : ∀ args, (∃ acc, ∃ y ∈ xs, args = [acc, y]) → ∃ acc, ∃ y ∈ x :: xs, args = [acc, y] := by
            rintro args ⟨acc, y, member, made⟩
            exact ⟨acc, y, List.mem_cons_of_mem x member, made⟩
          obtain ⟨ending, folded, loops⟩ := ih next (knows.mono later) ((steady.narrow narrows).mono later)
          refine ⟨ending, .cons before applies grows (folded.after grewLast), enters _ ?_⟩
          exact .call rfl again (.cons (.symbol func) (.cons step (.cons rest .nil))) loops

/-- The right fold of the prelude applies the procedure to each element and what it has for those behind it, so it takes
    the elements from last to first. -/
theorem exists_foldr (xs : List Value) (last : Value) {i : Interpreter} (knows : i.heap.Knows root)
    (steady : Steady f (fun args => ∃ x ∈ xs, ∃ acc, args = [x, acc]) i.heap) :
    ∃ ending, FoldedBy (fun acc x => AppliesTo f [x, acc]) last xs.reverse i ending ∧
      i.heap.GrowsTo (Ending.state ending).heap ∧ AppliesTo Procedure.foldr.value [f, last, .list xs] i ending := by
  induction xs generalizing i with
  | nil =>
      obtain ⟨j, frame, grew, _, ⟨_, start, _⟩, enters⟩ := exists_round (p := .foldr) rfl rfl f last [] knows
      exact ⟨.ok last j, .nil grew, grew.1, enters _ (.symbol start)⟩
  | cons x xs ih =>
      obtain ⟨j, frame, grew, known, ⟨func, start, lst⟩, enters⟩ :=
        exists_round (p := .foldr) rfl rfl f last (x :: xs) knows
      obtain ⟨k, grewOn, first⟩ := gives_first known lst j (.refl _)
      obtain ⟨l, grewLast, rest⟩ := gives_rest known lst k grewOn.1
      have before := grew.trans (grewOn.trans grewLast)
      have narrows : ∀ args, (∃ y ∈ xs, ∃ acc, args = [y, acc]) → ∃ y ∈ x :: xs, ∃ acc, args = [y, acc] := by
        rintro args ⟨y, member, made⟩
        exact ⟨y, List.mem_cons_of_mem x member, made⟩
      obtain ⟨ending, folded, grows, loops⟩ := ih (knows.mono before.1) ((steady.narrow narrows).mono before.1)
      have operands : EachEvaluatesTo frame [.sym "func", .sym "end", .list [.sym "cdr", .sym "lst"]] k
          (.ok [f, last, .list xs] l) :=
        .cons (.symbol (grewOn.1.lookup? func)) (.cons (.symbol (grewOn.1.lookup? start)) (.cons rest .nil))
      have behind := EvaluatesTo.call rfl (grewOn.1.lookup? (known.procedure .foldr)) operands loops
      rw [List.reverse_cons]
      cases ending with
      | error fault m =>
          refine ⟨.error fault m, (folded.append_error [x]).after before, before.1.trans grows, enters _ ?_⟩
          exact .call_error rfl func (.cons_error first (.first_error behind))
      | ok acc m =>
          have later := before.1.trans grows
          obtain ⟨ending, applies, growsOn⟩ := steady.exists_ending [x, acc] ⟨x, List.mem_cons_self, acc, rfl⟩ later
          refine ⟨ending, (folded.snoc applies growsOn).after before, later.trans growsOn, enters _ ?_⟩
          exact .call rfl func (.cons first (.cons behind .nil)) applies

/-- The left fold computes the fold of the function that its procedure computes. -/
theorem computes_fold (knows : h.Knows root) {next : Value → Value → Except Fault Value} {xs : List Value}
    (computes : ∀ acc, ∀ x ∈ xs, Computes h f [acc, x] (next acc x)) (acc : Value) :
    Computes h Procedure.fold.value [f, acc, .list xs] (xs.foldlM next acc) := by
  have steady : Steady f (fun args => ∃ acc, ∃ x ∈ xs, args = [acc, x]) h := by
    refine Computes.steady fun args allowed => ?_
    obtain ⟨acc, x, member, rfl⟩ := allowed
    exact ⟨_, computes acc x member⟩
  intro i later
  obtain ⟨ending, folded, applies⟩ := exists_foldl xs acc (knows.mono later) (steady.mono later)
  obtain ⟨j, grew, rfl⟩ := folded.exists_of_computed later fun acc x member k ending laterStill stepped => by
    obtain ⟨l, grew, computed⟩ := computes acc x member k laterStill
    exact ⟨l, grew, stepped.ending_eq computed⟩
  exact ⟨j, grew, applies⟩

end Loops

end SmallScheme
