import SmallScheme.Proofs.FormShapes

/-
Module: SmallScheme.Proofs.Settling
Purpose: Evaluation without a limit of nesting. An action settles on an ending if it ends so under every limit that is
  high enough. What an expression and an application settle on is told by rules, one for each way in which the evaluator
  goes on, without any count of depths: the parts of a sequence settle one after the other, and the highest of the
  limits that they need, and one more, serves the whole.
Main exports: Settles, EvaluatesTo, AppliesTo, EachEvaluatesTo, Settles.bind, Settles.ending_eq, EvaluatesTo.call,
  EvaluatesTo.choice, AppliesTo.closure
-/

namespace SmallScheme

/-- Under every limit of nesting that is high enough, the action ends in this way. -/
def Settles {α : Type} (action : Nat → Action α) (i : Interpreter) (ending : Ending α) : Prop :=
  ∃ least, ∀ depth, least ≤ depth → action depth i = ending

/-- An expression settles on an ending. -/
def EvaluatesTo (s : ScopeId) (e : Value) (i : Interpreter) (ending : Ending Value) : Prop :=
  Settles (fun depth => eval depth s e) i ending

/-- An application settles on an ending. -/
def AppliesTo (f : Value) (args : List Value) (i : Interpreter) (ending : Ending Value) : Prop :=
  Settles (fun depth => apply depth f args) i ending

/-- Expressions that are evaluated from left to right settle on an ending. -/
def EachEvaluatesTo (s : ScopeId) (es : List Value) (i : Interpreter) (ending : Ending (List Value)) : Prop :=
  Settles (fun depth => evalEach (eval depth) s es) i ending

namespace Settles

variable {α β : Type} {i j : Interpreter}

theorem of_forall {action : Nat → Action α} {ending : Ending α} (always : ∀ depth, action depth i = ending) :
    Settles action i ending :=
  ⟨0, fun depth _ => always depth⟩

/-- An action settles on one ending only. -/
theorem ending_eq {action : Nat → Action α} {ending other : Ending α} (settles : Settles action i ending)
    (also : Settles action i other) : ending = other := by
  obtain ⟨least, ends⟩ := settles
  obtain ⟨alsoLeast, alsoEnds⟩ := also
  rw [← ends (max least alsoLeast) (Nat.le_max_left ..), alsoEnds _ (Nat.le_max_right ..)]

/-- What is nested in an action settles under a limit that is lower by one. -/
theorem of_step {action nested : Nat → Action α} {ending : Ending α} (settles : Settles nested j ending)
    (step : ∀ depth, action (depth + 1) i = nested depth j) : Settles action i ending := by
  obtain ⟨least, ends⟩ := settles
  refine ⟨least + 1, fun depth enough => ?_⟩
  cases depth with
  | zero => exact absurd enough (Nat.not_succ_le_zero least)
  | succ depth => rw [step, ends depth (Nat.le_of_succ_le_succ enough)]

/-- The parts of a sequence settle one after the other. -/
theorem bind {first : Nat → Action α} {a : α} {ending : Ending β} (settles : Settles first i (.ok a j))
    (next : Nat → α → Action β) (rest : Settles (fun depth => next depth a) j ending) :
    Settles (fun depth => first depth >>= next depth) i ending := by
  obtain ⟨least, ends⟩ := settles
  obtain ⟨restLeast, restEnds⟩ := rest
  refine ⟨max least restLeast, fun depth enough => ?_⟩
  have first := ends depth (Nat.le_trans (Nat.le_max_left ..) enough)
  exact (run_bind_of_ok first _).trans (restEnds depth (Nat.le_trans (Nat.le_max_right ..) enough))

/-- A fault of the first part is one of the sequence. -/
theorem bind_error {first : Nat → Action α} {fault : Fault} (settles : Settles first i (.error fault j))
    (next : Nat → α → Action β) : Settles (fun depth => first depth >>= next depth) i (.error fault j) := by
  obtain ⟨least, ends⟩ := settles
  exact ⟨least, fun depth enough => run_bind_of_error (ends depth enough) _⟩

/-- What an action settles on is told by the limits that are high enough. -/
theorem congr_above {action other : Nat → Action α} {ending : Ending α} (least : Nat)
    (same : ∀ depth, least ≤ depth → action depth i = other depth j) :
    Settles action i ending ↔ Settles other j ending := by
  constructor
  · rintro ⟨enough, ends⟩
    refine ⟨max least enough, fun depth le => ?_⟩
    rw [← same depth (Nat.le_trans (Nat.le_max_left ..) le), ends depth (Nat.le_trans (Nat.le_max_right ..) le)]
  · rintro ⟨enough, ends⟩
    refine ⟨max least enough, fun depth le => ?_⟩
    rw [same depth (Nat.le_trans (Nat.le_max_left ..) le), ends depth (Nat.le_trans (Nat.le_max_right ..) le)]

/-- A limit that is higher by some levels changes nothing of what an action settles on. -/
theorem add_iff {action : Nat → Action α} {ending : Ending α} (levels : Nat) :
    Settles (fun depth => action (depth + levels)) i ending ↔ Settles action i ending := by
  constructor
  · rintro ⟨enough, ends⟩
    refine ⟨enough + levels, fun depth le => ?_⟩
    obtain ⟨more, rfl⟩ := Nat.le.dest le
    rw [Nat.add_right_comm]
    exact ends _ (Nat.le_add_right ..)
  · rintro ⟨enough, ends⟩
    exact ⟨enough, fun depth le => ends _ (Nat.le_trans le (Nat.le_add_right ..))⟩

end Settles

/-!
### Several expressions
-/

namespace EachEvaluatesTo

variable {s : ScopeId} {i j k : Interpreter} {e v : Value} {es vs : List Value} {fault : Fault}

theorem nil : EachEvaluatesTo s [] i (.ok [] i) :=
  .of_forall fun _ => rfl

theorem cons (first : EvaluatesTo s e i (.ok v j)) (others : EachEvaluatesTo s es j (.ok vs k)) :
    EachEvaluatesTo s (e :: es) i (.ok (v :: vs) k) :=
  Settles.bind first _ (Settles.bind others _ (.of_forall fun _ => rfl))

/-- The first fault is the fault of the whole. -/
theorem first_error (first : EvaluatesTo s e i (.error fault j)) : EachEvaluatesTo s (e :: es) i (.error fault j) :=
  Settles.bind_error first _

theorem cons_error (first : EvaluatesTo s e i (.ok v j)) (others : EachEvaluatesTo s es j (.error fault k)) :
    EachEvaluatesTo s (e :: es) i (.error fault k) :=
  Settles.bind first _ (Settles.bind_error others _)

end EachEvaluatesTo

/-!
### Expressions
-/

section Lookups

variable {s : ScopeId} {i : Interpreter} {name : String} {f v : Value}

theorem eval_symbol (found : i.heap.lookup? s name = some v) (depth : Nat) : eval (depth + 1) s (.sym name) i = .ok v i := by
  simp only [eval, evalStep, lookup, run_get_bind, found]
  rfl

theorem lookupHead_of_found (found : i.heap.lookup? s name = some f) : lookupHead s name i = .ok f i := by
  rw [lookupHead, run_get_bind, found]
  rfl

/-- A call looks up its head, evaluates the arguments and applies the value of the head to them. -/
theorem eval_call (noKeyword : Keyword.ofName? name = none) (depth : Nat) (s : ScopeId) (args : List Value) :
    eval (depth + 1) s (.list (.sym name :: args)) =
      (lookupHead s name >>= fun f => evalEach (eval depth) s args >>= apply depth f) := by
  simp only [eval, evalStep, noKeyword]

end Lookups

namespace EvaluatesTo

variable {s : ScopeId} {i j : Interpreter} {name : String} {f v e test yes no : Value} {args vs : List Value}
  {ending : Ending Value} {fault : Fault}

theorem truth (b : Bool) : EvaluatesTo s (.bool b) i (.ok (.bool b) i) :=
  (Settles.of_forall fun _ => rfl).of_step fun _ => rfl

theorem number (n : Int) : EvaluatesTo s (.num n) i (.ok (.num n) i) :=
  (Settles.of_forall fun _ => rfl).of_step fun _ => rfl

theorem symbol (found : i.heap.lookup? s name = some v) : EvaluatesTo s (.sym name) i (.ok v i) := by
  have settled : Settles (fun _ => pure v) i (.ok v i) := .of_forall fun _ => rfl
  exact settled.of_step (eval_symbol found)

/-- A special form is evaluated by its parts. -/
theorem special {form : SpecialForm} (written : form.Written e)
    (settles : Settles (fun depth => evalForm (eval depth) s form) i ending) : EvaluatesTo s e i ending := by
  refine settles.of_step fun depth => ?_
  rw [eval, evalStep_of_written written]

theorem quote (datum : Value) : EvaluatesTo s (.list [.sym "quote", datum]) i (.ok datum i) :=
  special (.quote datum) (.of_forall fun _ => rfl)

theorem abstraction {params : Parameters} {spec : Value} (written : params.Written spec) (body : List Value) :
    EvaluatesTo s (.list (.sym "lambda" :: spec :: body)) i (.ok (params.closure body s) i) :=
  special (.abstraction written body) (.of_forall fun _ => rfl)

/-- The test decides which of the two others is evaluated. -/
theorem choice (decides : EvaluatesTo s test i (.ok v j))
    (chosen : EvaluatesTo s (if isTrue v then yes else no) j ending) :
    EvaluatesTo s (.list [.sym "if", test, yes, no]) i ending := by
  refine special (.choice test yes no) (Settles.bind decides _ ?_)
  cases holds : isTrue v with
  | true =>
      simp only [holds, if_true] at chosen ⊢
      exact chosen
  | false =>
      simp only [holds, Bool.false_eq_true, if_false] at chosen ⊢
      exact chosen

theorem choice_error (refused : EvaluatesTo s test i (.error fault j)) :
    EvaluatesTo s (.list [.sym "if", test, yes, no]) i (.error fault j) :=
  special (.choice test yes no) (Settles.bind_error refused _)

/-- A call evaluates the arguments and applies the value of the head to them. -/
theorem call (noKeyword : Keyword.ofName? name = none) (head : i.heap.lookup? s name = some f)
    (arguments : EachEvaluatesTo s args i (.ok vs j)) (applies : AppliesTo f vs j ending) :
    EvaluatesTo s (.list (.sym name :: args)) i ending := by
  have parts := Settles.bind (.of_forall fun _ => lookupHead_of_found head)
    (fun depth f => evalEach (eval depth) s args >>= apply depth f) (Settles.bind arguments _ applies)
  exact parts.of_step fun depth => by rw [eval_call noKeyword]

theorem call_error (noKeyword : Keyword.ofName? name = none) (head : i.heap.lookup? s name = some f)
    (arguments : EachEvaluatesTo s args i (.error fault j)) :
    EvaluatesTo s (.list (.sym name :: args)) i (.error fault j) := by
  have parts := Settles.bind (.of_forall fun _ => lookupHead_of_found head)
    (fun depth f => evalEach (eval depth) s args >>= apply depth f) (Settles.bind_error arguments _)
  exact parts.of_step fun depth => by rw [eval_call noKeyword]

end EvaluatesTo

/-!
### Applications
-/

/-- A closure whose parameters fit the arguments evaluates its body in a new frame. -/
theorem applyStep_of_fits {params : List String} {rest? : Option String} {body args : List Value}
    (count : fits params rest? args.length = true) (nonempty : body ≠ []) (ev : Evaluate) (ap : Apply) (s : ScopeId)
    (i : Interpreter) :
    applyStep ev ap (.closure params rest? body s) args i =
      evalSequence ev i.heap.scopes.size (.list []) body
        { i with heap := (i.heap.extend s (frameBindings params rest? args)).1 } := by
  cases body with
  | nil => exact absurd rfl nonempty
  | cons form forms =>
      rw [applyStep, count]
      rfl

namespace AppliesTo

variable {i : Interpreter} {f v : Value} {args vs : List Value} {ending : Ending Value} {fault : Fault}

/-- What an application settles on, it ends with under some limit. -/
theorem exists_apply (applies : AppliesTo f args i ending) : ∃ depth, apply depth f args i = ending :=
  ⟨_, applies.choose_spec _ (Nat.le_refl _)⟩

theorem operation {op : Operation} (computes : op.call i.heap args = .ok v) :
    AppliesTo (.prim (.operation op)) args i (.ok v i) := by
  refine (Settles.of_forall fun _ => ?_).of_step fun _ => rfl
  change Action.ofExcept (op.call i.heap args) i = .ok v i
  rw [computes]
  rfl

theorem operation_error {op : Operation} (refuses : op.call i.heap args = .error fault) :
    AppliesTo (.prim (.operation op)) args i (.error fault i) := by
  refine (Settles.of_forall fun _ => ?_).of_step fun _ => rfl
  change Action.ofExcept (op.call i.heap args) i = .error fault i
  rw [refuses]
  rfl

/-- `apply` applies a procedure to the elements of a list. -/
theorem spread (applies : AppliesTo f vs i ending) :
    AppliesTo (.prim (.effect .apply)) [f, .list vs] i ending :=
  Settles.of_step applies fun _ => rfl

/-- A closure with one form in its body evaluates it in a new frame. -/
theorem closure {params : List String} {rest? : Option String} {form : Value} {s : ScopeId}
    (count : fits params rest? args.length = true)
    (body : EvaluatesTo i.heap.scopes.size form
      { i with heap := (i.heap.extend s (frameBindings params rest? args)).1 } ending) :
    AppliesTo (.closure params rest? [form] s) args i ending := by
  refine Settles.of_step body fun depth => ?_
  have entered := applyStep_of_fits count (List.cons_ne_nil form []) (eval depth) (apply depth) s i
  exact entered.trans (congrFun (bind_pure _) _)

end AppliesTo

end SmallScheme
