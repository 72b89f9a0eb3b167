import SmallScheme.Proofs.Frames

/-
Module: SmallScheme.Proofs.Computing
Purpose: Expressions and applications that only compute. In a memory and in all later ones they end with one result, a
  value or a fault, and do nothing but let the memory grow. The rules follow the evaluator, with one for the value of
  each form and one for the first fault of its parts.
Main exports: Gives, GivesEach, Computes, Gives.call, Gives.choice, Computes.operation, Computes.closure
-/

namespace SmallScheme

/-- In a memory and in all later ones, the evaluation of an expression ends with a result and only makes frames. -/
def Gives (h : Heap) (s : ScopeId) (e : Value) (result : Except Fault Value) : Prop :=
  ∀ i : Interpreter, h.GrowsTo i.heap → ∃ j, OnlyGrew i j ∧ EvaluatesTo s e i (Action.ofExcept result j)

/-- In a memory and in all later ones, the evaluation of expressions from left to right ends with results, or with the
    first fault, and only makes frames. -/
def GivesEach (h : Heap) (s : ScopeId) (es : List Value) (results : Except Fault (List Value)) : Prop :=
  ∀ i : Interpreter, h.GrowsTo i.heap → ∃ j, OnlyGrew i j ∧ EachEvaluatesTo s es i (Action.ofExcept results j)

/-- In a memory and in all later ones, an application ends with a result and only makes frames. -/
def Computes (h : Heap) (f : Value) (args : List Value) (result : Except Fault Value) : Prop :=
  ∀ i : Interpreter, h.GrowsTo i.heap → ∃ j, OnlyGrew i j ∧ AppliesTo f args i (Action.ofExcept result j)

section Rules

variable {h k : Heap} {s : ScopeId} {name : String} {f v e test yes no : Value} {es args : List Value}
  {result : Except Fault Value} {results : Except Fault (List Value)} {next : Value → Except Fault Value}

theorem GivesEach.nil : GivesEach h s [] (.ok []) :=
  fun i _ => ⟨i, .refl i, .nil⟩

theorem GivesEach.cons {vs : List Value} (first : Gives h s e (.ok v)) (others : GivesEach h s es (.ok vs)) :
    GivesEach h s (e :: es) (.ok (v :: vs)) := by
  intro i later
  obtain ⟨j, grew, evaluates⟩ := first i later
  obtain ⟨k, grewOn, rest⟩ := others j (later.trans grew.1)
  exact ⟨k, grew.trans grewOn, .cons evaluates rest⟩

theorem GivesEach.first_error {fault : Fault} (first : Gives h s e (.error fault)) :
    GivesEach h s (e :: es) (.error fault) := by
  intro i later
  obtain ⟨j, grew, evaluates⟩ := first i later
  exact ⟨j, grew, .first_error evaluates⟩

theorem GivesEach.cons_error {fault : Fault} (first : Gives h s e (.ok v)) (others : GivesEach h s es (.error fault)) :
    GivesEach h s (e :: es) (.error fault) := by
  intro i later
  obtain ⟨j, grew, evaluates⟩ := first i later
  obtain ⟨k, grewOn, rest⟩ := others j (later.trans grew.1)
  exact ⟨k, grew.trans grewOn, .cons_error evaluates rest⟩

namespace Gives

theorem mono (gives : Gives h s e result) (grows : h.GrowsTo k) : Gives k s e result :=
  fun i later => gives i (grows.trans later)

theorem truth (b : Bool) : Gives h s (.bool b) (.ok (.bool b)) :=
  fun i _ => ⟨i, .refl i, .truth b⟩

theorem number (n : Int) : Gives h s (.num n) (.ok (.num n)) :=
  fun i _ => ⟨i, .refl i, .number n⟩

theorem quote (datum : Value) : Gives h s (.list [.sym "quote", datum]) (.ok datum) :=
  fun i _ => ⟨i, .refl i, .quote datum⟩

theorem symbol (found : h.lookup? s name = some v) : Gives h s (.sym name) (.ok v) :=
  fun i later => ⟨i, .refl i, .symbol (later.lookup? found)⟩

/-- A choice gives what the expression that its test chooses gives. -/
theorem choice (decides : Gives h s test (.ok v)) (chosen : Gives h s (if isTrue v then yes else no) result) :
    Gives h s (.list [.sym "if", test, yes, no]) result := by
  intro i later
  obtain ⟨j, grew, evaluates⟩ := decides i later
  obtain ⟨k, grewOn, rest⟩ := chosen j (later.trans grew.1)
  exact ⟨k, grew.trans grewOn, .choice evaluates rest⟩

theorem choice_error {fault : Fault} (refused : Gives h s test (.error fault)) :
    Gives h s (.list [.sym "if", test, yes, no]) (.error fault) := by
  intro i later
  obtain ⟨j, grew, evaluates⟩ := refused i later
  exact ⟨j, grew, .choice_error evaluates⟩

/-- A call gives what the value of its head computes from the arguments. -/
theorem call {vs : List Value} (noKeyword : Keyword.ofName? name = none) (head : h.lookup? s name = some f)
    (arguments : GivesEach h s es (.ok vs)) (computes : Computes h f vs result) :
    Gives h s (.list (.sym name :: es)) result := by
  intro i later
  obtain ⟨j, grew, evaluate⟩ := arguments i later
  obtain ⟨k, grewOn, applies⟩ := computes j (later.trans grew.1)
  exact ⟨k, grew.trans grewOn, .call noKeyword (later.lookup? head) evaluate applies⟩

theorem call_error {fault : Fault} (noKeyword : Keyword.ofName? name = none) (head : h.lookup? s name = some f)
    (arguments : GivesEach h s es (.error fault)) : Gives h s (.list (.sym name :: es)) (.error fault) := by
  intro i later
  obtain ⟨j, grew, evaluate⟩ := arguments i later
  exact ⟨j, grew, .call_error noKeyword (later.lookup? head) evaluate⟩

/-- A call with one argument. -/
theorem call_one (noKeyword : Keyword.ofName? name = none) (head : h.lookup? s name = some f)
    (argument : Gives h s e result) (computes : ∀ v, result = .ok v → Computes h f [v] (next v)) :
    Gives h s (.list [.sym name, e]) (result >>= next) := by
  cases result with
  | error fault => exact call_error noKeyword head (.first_error argument)
  | ok v => exact call noKeyword head (.cons argument .nil) (computes v rfl)

end Gives

namespace Computes

theorem mono (computes : Computes h f args result) (grows : h.GrowsTo k) : Computes k f args result :=
  fun i later => computes i (grows.trans later)

/-- A built-in procedure that only computes does so if its result stays the same in later memories. -/
theorem operation {op : Operation} (same : ∀ k, h.GrowsTo k → op.call k args = result) :
    Computes h (.prim (.operation op)) args result := by
  intro i later
  refine ⟨i, .refl i, ?_⟩
  have called := same i.heap later
  cases result with
  | error fault => exact .operation_error called
  | ok v => exact .operation called

/-- `apply` computes what a value computes from the elements of a list. -/
theorem spread (computes : Computes h f args result) :
    Computes h (.prim (.effect .apply)) [f, .list args] result := by
  intro i later
  obtain ⟨j, grew, applies⟩ := computes i later
  exact ⟨j, grew, .spread applies⟩

/-- A closure computes what its body gives in every frame of a later memory. -/
theorem closure {params : List String} {rest? : Option String} {form : Value}
    (count : fits params rest? args.length = true) (once : (params ++ rest?.toList).Nodup)
    (body : ∀ k frame, IsFrame h s (frameBindings params rest? args) k frame → Gives k frame form result) :
    Computes h (.closure params rest? [form] s) args result := by
  intro i later
  obtain ⟨j, frame, grew, isFrame, enters⟩ := AppliesTo.exists_frame params rest? s args count once i
  obtain ⟨k, grewOn, evaluates⟩ := body j.heap frame (isFrame.of_later later) j (.refl _)
  exact ⟨k, grew.trans grewOn, enters form _ evaluates⟩

/-- What only computes leaves the cells there are unchanged. -/
theorem steady {kind : List Value → Prop} (computes : ∀ args, kind args → ∃ result, Computes h f args result) :
    Steady f kind h := by
  intro i later args allowed
  obtain ⟨result, computed⟩ := computes args allowed
  obtain ⟨j, grew, applies⟩ := computed i later
  refine ⟨_, applies, fun c old => ?_⟩
  cases result with
  | error fault => exact grew.1.cells c old
  | ok v => exact grew.1.cells c old

end Computes

end Rules

end SmallScheme
