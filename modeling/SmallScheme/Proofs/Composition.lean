import SmallScheme.Proofs.Depth
import SmallScheme.Proofs.Procedures

/-
Module: SmallScheme.Proofs.Composition
Purpose: What the prelude's `compose` makes of two procedures. Its value hands its argument to `apply`, which takes a list to
  be the arguments themselves. So it is the composition of the two for every argument but a list, and does what the
  composition does that is written out without `apply`; a list is spread out, and the inner procedure applied to the
  elements.
Main exports: composition, composed, writtenOut, InTurn, exists_composed, apply_outer, appliesTo_composed_iff,
  appliesTo_writtenOut_iff, composition_in_turn
-/

namespace SmallScheme

/-- The call of the outer procedure with what an expression gives. -/
def outerCall (inner : Value) : Value :=
  .list [.sym "f", inner]

/-- The expression in `compose` for the value of the inner procedure. -/
def applyInner : Value :=
  .list [.sym "apply", .sym "g", .sym "arg"]

/-- The value that the prelude gives the name `compose`. -/
def composition : Value :=
  .closure ["f", "g"] none [Procedure.lambda ["arg"] (outerCall applyInner)] root

/-- What `compose` gives in a frame for its parameters. -/
def composed (frame : ScopeId) : Value :=
  .closure ["arg"] none [outerCall applyInner] frame

/-- The composition `(lambda (arg) (f (g arg)))` in the same frame. -/
def writtenOut (frame : ScopeId) : Value :=
  .closure ["arg"] none [outerCall (.list [.sym "g", .sym "arg"])] frame

set_option maxRecDepth 20000 in
/-- The prelude defines `compose`. -/
theorem lookup_compose_preludeSession : preludeSession.heap.lookup? root "compose" = some composition :=
  @preludeSession_of_characters (·.heap.lookup? root "compose" = some composition) ⟨_, rfl, by decide +kernel⟩

/-- A scope from which two procedures are composed: it binds both under the names of the parameters, and `apply` under its
    own. -/
structure Heap.Composes (h : Heap) (frame : ScopeId) (f g : Value) : Prop where
  outer : h.lookup? frame "f" = some f
  inner : h.lookup? frame "g" = some g
  spreads : h.lookup? frame "apply" = some (.prim (.effect .apply))

theorem Heap.Composes.mono {h k : Heap} {frame : ScopeId} {f g : Value} (composes : h.Composes frame f g)
    (grows : h.GrowsTo k) : k.Composes frame f g :=
  ⟨grows.lookup? composes.outer, grows.lookup? composes.inner, grows.lookup? composes.spreads⟩

/-- The arguments that `apply` makes of a single value: the elements of a list, and any other value itself. -/
def operands : Value → List Value
  | .list vs => vs
  | v => [v]

theorem operands_of_noList {x : Value} (noList : ∀ vs, x ≠ .list vs) : operands x = [x] := by
  cases x with
  | list vs => exact absurd rfl (noList vs)
  | _ => rfl

/-- One procedure is applied to arguments and then another to its value. -/
def InTurn (f g : Value) (args : List Value) (i : Interpreter) (ending : Ending Value) : Prop :=
  Settles (fun depth => apply depth g args >>= fun v => apply depth f [v]) i ending

/-- A state in which a frame for the argument of a composition has been made. -/
def Interpreter.entered (i : Interpreter) (frame : ScopeId) (x : Value) : Interpreter :=
  { i with heap := (i.heap.extend frame [("arg", x)]).1 }

theorem exists_composed {i : Interpreter} (knows : i.heap.Knows root) (f g : Value) :
    ∃ j frame, OnlyGrew i j ∧ j.heap.Composes frame f g ∧ AppliesTo composition [f, g] i (.ok (composed frame) j) := by
  obtain ⟨j, frame, grew, isFrame, enters⟩ := AppliesTo.exists_frame ["f", "g"] none root [f, g] rfl (by decide) i
  obtain ⟨outer, inner⟩ : j.heap.lookup? frame "f" = some f ∧ j.heap.lookup? frame "g" = some g := isFrame.bound
  have spreads := isFrame.outer_of_params rfl (by decide) (knows.primitive (.effect .apply))
  exact ⟨j, frame, grew, ⟨outer, inner, spreads⟩, enters _ _ (.lambda ..)⟩

/-!
### Depths
-/

namespace Settles

variable {α β : Type} {i j : Interpreter}

/-- The second part of a sequence may have some levels more than the first. -/
theorem bind_add_iff {first : Nat → Action α} {next : Nat → α → Action β} {ending : Ending β}
    (deepens : ∀ depth deeper, depth ≤ deeper → DeepenedBy (first depth) (first deeper)) (levels : Nat) :
    Settles (fun depth => first depth >>= next (depth + levels)) i ending ↔
      Settles (fun depth => first depth >>= next depth) i ending := by
  by_cases gives : ∃ depth a k, first depth i = .ok a k
  · obtain ⟨least, a, k, ended⟩ := gives
    have stays : ∀ depth, least ≤ depth → first depth i = .ok a k := by
      intro depth le
      rw [(deepens least depth le).eq_of_not_atLimit, ended]
      rw [ended]
      rintro ⟨⟩
    rw [congr_above least fun depth le => run_bind_of_ok (stays depth le) (next (depth + levels)),
      congr_above least fun depth le => run_bind_of_ok (stays depth le) (next depth)]
    exact @add_iff _ _ (fun depth => next depth a) _ levels
  · -- The second part is never reached.
    refine congr_above 0 fun depth _ => ?_
    cases ended : first depth i with
    | ok a k => exact absurd ⟨depth, a, k, ended⟩ gives
    | error fault k => rw [run_bind_of_error ended, run_bind_of_error ended]

end Settles

/-!
### Calls
-/

theorem eval_call_of_found {s : ScopeId} {name : String} {f : Value} {i : Interpreter}
    (noKeyword : Keyword.ofName? name = none) (head : i.heap.lookup? s name = some f) (depth : Nat) (args : List Value) :
    eval (depth + 1) s (.list (.sym name :: args)) i = (evalEach (eval depth) s args >>= apply depth f) i := by
  rw [eval_call noKeyword]
  exact run_bind_of_ok (lookupHead_of_found head) _

theorem evalEach_cons {ev : Evaluate} {s : ScopeId} {e v : Value} {es vs : List Value} {i j k : Interpreter}
    (first : ev s e i = .ok v j) (others : evalEach ev s es j = .ok vs k) :
    evalEach ev s (e :: es) i = .ok (v :: vs) k :=
  (run_bind_of_ok first _).trans (run_bind_of_ok others _)

theorem apply_operands (depth : Nat) (g x : Value) :
    apply (depth + 1) (.prim (.effect .apply)) [g, x] = apply depth g (operands x) := by
  cases x <;> rfl

section Composed

variable {k : Interpreter} {frame : ScopeId} {f g : Value}

theorem isFrame_entered (k : Interpreter) (frame : ScopeId) (x : Value) :
    IsFrame k.heap frame (frameBindings ["arg"] none [x]) (k.entered frame x).heap k.heap.scopes.size :=
  isFrame_extend k.heap frame (by simp [frameBindings])

theorem Heap.Composes.entered (composes : k.heap.Composes frame f g) (x : Value) :
    (k.entered frame x).heap.Composes k.heap.scopes.size f g := by
  have isFrame := isFrame_entered k frame x
  refine ⟨?_, ?_, ?_⟩
  · exact isFrame.outer_of_params rfl (by decide) composes.outer
  · exact isFrame.outer_of_params rfl (by decide) composes.inner
  · exact isFrame.outer_of_params rfl (by decide) composes.spreads

theorem eval_applyInner {x : Value} (composes : k.heap.Composes frame f g)
    (found : k.heap.lookup? frame "arg" = some x) (depth : Nat) :
    eval (depth + 2) frame applyInner k = apply depth g (operands x) k := by
  have arguments : evalEach (eval (depth + 1)) frame [.sym "g", .sym "arg"] k = .ok [g, x] k :=
    evalEach_cons (eval_symbol composes.inner depth) (evalEach_cons (eval_symbol found depth) rfl)
  rw [applyInner, eval_call_of_found (by decide) composes.spreads, run_bind_of_ok arguments, apply_operands]

theorem eval_innerCall {x : Value} (composes : k.heap.Composes frame f g)
    (found : k.heap.lookup? frame "arg" = some x) (depth : Nat) :
    eval (depth + 2) frame (.list [.sym "g", .sym "arg"]) k = apply (depth + 1) g [x] k := by
  have arguments : evalEach (eval (depth + 1)) frame [.sym "arg"] k = .ok [x] k :=
    evalEach_cons (eval_symbol found depth) rfl
  rw [eval_call_of_found (by decide) composes.inner, run_bind_of_ok arguments]

/-- The application of a procedure that calls the outer one with what an expression gives: in a frame for the argument it
    does what the expression does, and then applies the outer procedure to the value. -/
theorem apply_outer (composes : k.heap.Composes frame f g) {x e : Value} {depth : Nat} {inner : Action Value}
    (gives : eval (depth + 2) k.heap.scopes.size e (k.entered frame x) = inner (k.entered frame x)) :
    apply (depth + 4) (.closure ["arg"] none [outerCall e] frame) [x] k =
      (inner >>= fun v => apply (depth + 2) f [v]) (k.entered frame x) := by
  have entered : apply (depth + 4) (.closure ["arg"] none [outerCall e] frame) [x] k =
      eval (depth + 3) k.heap.scopes.size (outerCall e) (k.entered frame x) := by
    rw [apply, applyStep_of_fits rfl (List.cons_ne_nil _ _)]
    exact congrFun (bind_pure _) _
  rw [entered, outerCall, eval_call_of_found (by decide) (composes.entered x).outer]
  cases ended : inner (k.entered frame x) with
  | ok v l =>
      rw [run_bind_of_ok ended, run_bind_of_ok (evalEach_cons (gives.trans ended) rfl)]
  | error fault l =>
      have refused : evalEach (eval (depth + 2)) k.heap.scopes.size [e] (k.entered frame x) = .error fault l :=
        run_bind_of_error (gives.trans ended) _
      rw [run_bind_of_error ended, run_bind_of_error refused]

/-- What `compose` gives applies the inner procedure to the operands and then the outer to the value, in a frame for the
    argument. -/
theorem appliesTo_composed_iff (composes : k.heap.Composes frame f g) (x : Value) (ending : Ending Value) :
    AppliesTo (composed frame) [x] k ending ↔ InTurn f g (operands x) (k.entered frame x) ending := by
  have higher : AppliesTo (composed frame) [x] k ending ↔
      Settles (fun depth => apply (depth + 4) (composed frame) [x]) k ending :=
    (@Settles.add_iff _ k (fun depth => apply depth (composed frame) [x]) ending 4).symm
  have parts : InTurn f g (operands x) (k.entered frame x) ending ↔
      Settles (fun depth => apply depth g (operands x) >>= fun v => apply (depth + 2) f [v]) (k.entered frame x) ending :=
    (@Settles.bind_add_iff _ _ _ _ (fun depth v => apply depth f [v]) _
      (fun _ _ le => apply_deepenedBy le g (operands x)) 2).symm
  rw [higher, parts]
  have arg : (k.entered frame x).heap.lookup? k.heap.scopes.size "arg" = some x := (isFrame_entered k frame x).bound
  exact Settles.congr_above 0 fun depth _ => apply_outer composes (eval_applyInner (composes.entered x) arg depth)

/-- The composition that is written out applies the inner procedure to the argument itself. -/
theorem appliesTo_writtenOut_iff (composes : k.heap.Composes frame f g) (x : Value) (ending : Ending Value) :
    AppliesTo (writtenOut frame) [x] k ending ↔ InTurn f g [x] (k.entered frame x) ending := by
  have higher : AppliesTo (writtenOut frame) [x] k ending ↔
      Settles (fun depth => apply (depth + 4) (writtenOut frame) [x]) k ending :=
    (@Settles.add_iff _ k (fun depth => apply depth (writtenOut frame) [x]) ending 4).symm
  have sameLevel : InTurn f g [x] (k.entered frame x) ending ↔
      Settles (fun depth => apply (depth + 1) g [x] >>= fun v => apply (depth + 1) f [v]) (k.entered frame x) ending :=
    (@Settles.add_iff _ _ (fun depth => apply depth g [x] >>= fun v => apply depth f [v]) ending 1).symm
  have parts : Settles (fun depth => apply (depth + 1) g [x] >>= fun v => apply (depth + 2) f [v])
        (k.entered frame x) ending ↔
      Settles (fun depth => apply (depth + 1) g [x] >>= fun v => apply (depth + 1) f [v]) (k.entered frame x) ending :=
    @Settles.bind_add_iff _ _ _ _ (fun depth v => apply (depth + 1) f [v]) _
      (fun _ _ le => apply_deepenedBy (Nat.succ_le_succ le) g [x]) 1
  rw [higher, sameLevel, ← parts]
  have arg : (k.entered frame x).heap.lookup? k.heap.scopes.size "arg" = some x := (isFrame_entered k frame x).bound
  exact Settles.congr_above 0 fun depth _ => apply_outer composes (eval_innerCall (composes.entered x) arg depth)

end Composed

/-- An expression that gives a value. -/
def quoted (v : Value) : Value :=
  .list [.sym "quote", v]

theorem evaluatesTo_compose {i j : Interpreter} {frame : ScopeId} {f g : Value}
    (defined : i.heap.lookup? root "compose" = some composition)
    (applies : AppliesTo composition [f, g] i (.ok (composed frame) j)) :
    EvaluatesTo root (.list [.sym "compose", quoted f, quoted g]) i (.ok (composed frame) j) :=
  .call (by decide) defined (.cons (.quote f) (.cons (.quote g) .nil)) applies

/-- What `compose` gives is the composition of the two procedures for every argument that is no list. It has the ending,
    value or fault, and the effects of the composition that is written out: as soon as a frame for the argument has been
    made, the one procedure is applied to it and then the other to its value. A list is taken apart instead, and the one
    procedure applied to its elements. This is so whenever the frame of the two still binds them, and `apply`, as it does
    while memory only grows. -/
theorem composition_in_turn (i : Interpreter) (knows : i.heap.Knows root)
    (defined : i.heap.lookup? root "compose" = some composition) (f g : Value) :
    ∃ j frame, OnlyGrew i j ∧
      EvaluatesTo root (.list [.sym "compose", quoted f, quoted g]) i (.ok (composed frame) j) ∧
      (∀ k, j.heap.GrowsTo k → k.Composes frame f g) ∧
      ∀ k : Interpreter, k.heap.Composes frame f g → ∀ x, OnlyGrew k (k.entered frame x) ∧
        ((∀ vs, x ≠ .list vs) → ∀ ending,
          (AppliesTo (composed frame) [x] k ending ↔ AppliesTo (writtenOut frame) [x] k ending) ∧
          (AppliesTo (composed frame) [x] k ending ↔ InTurn f g [x] (k.entered frame x) ending)) ∧
        ∀ vs, x = .list vs → ∀ ending,
          AppliesTo (composed frame) [x] k ending ↔ InTurn f g vs (k.entered frame x) ending := by
  obtain ⟨j, frame, grew, made, applies⟩ := exists_composed knows f g
  refine ⟨j, frame, grew, evaluatesTo_compose defined applies, fun k => made.mono, fun k composes x => ⟨?_, ?_, ?_⟩⟩
  · exact ⟨(isFrame_entered k frame x).grows, rfl⟩
  · intro noList ending
    have single : operands x = [x] := operands_of_noList noList
    have inTurn : AppliesTo (composed frame) [x] k ending ↔ InTurn f g [x] (k.entered frame x) ending := by
      rw [appliesTo_composed_iff composes, single]
    exact ⟨inTurn.trans (appliesTo_writtenOut_iff composes x ending).symm, inTurn⟩
  · rintro vs rfl ending
    exact appliesTo_composed_iff composes (.list vs) ending

theorem inTurn_operations {first second : Operation} {args : List Value} {v w : Value} {i : Interpreter}
    (computes : first.call i.heap args = .ok v) (computesOn : second.call i.heap [v] = .ok w) :
    InTurn (.prim (.operation second)) (.prim (.operation first)) args i (.ok w i) :=
  Settles.bind (AppliesTo.operation computes) _ (AppliesTo.operation computesOn)

/-- The composition of `car` and `cdr`, applied to the dotted list `(1 2 . 3)`. -/
theorem composition_in_turn_preludeSession :
    preludeSession.heap.Knows root ∧ preludeSession.heap.lookup? root "compose" = some composition ∧
    ∃ j frame k, EvaluatesTo root
        (.list [.sym "compose", quoted (.prim (.operation .car)), quoted (.prim (.operation .cdr))]) preludeSession
        (.ok (composed frame) j) ∧
      (∀ vs, Value.dotted [.num 1, .num 2] (.num 3) ≠ .list vs) ∧
      AppliesTo (composed frame) [.dotted [.num 1, .num 2] (.num 3)] j (.ok (.num 2) k) := by
  obtain ⟨j, frame, _, gives, kept, law⟩ := composition_in_turn preludeSession knows_preludeSession
    lookup_compose_preludeSession (.prim (.operation .car)) (.prim (.operation .cdr))
  have noList : ∀ vs, Value.dotted [.num 1, .num 2] (.num 3) ≠ .list vs := fun vs => Value.noConfusion
  obtain ⟨_, inTurn, _⟩ := law j (kept _ (.refl _)) (.dotted [.num 1, .num 2] (.num 3))
  exact ⟨knows_preludeSession, lookup_compose_preludeSession, j, frame, _, gives, noList,
    (inTurn noList _).2.2 (inTurn_operations rfl rfl)⟩

/-- The composition of `car` and `cdr`, applied to the list `(1 2 3)`, refuses it, though it has a second element. -/
theorem composed_spreads_list :
    ∃ j frame k, EvaluatesTo root
        (.list [.sym "compose", quoted (.prim (.operation .car)), quoted (.prim (.operation .cdr))]) preludeSession
        (.ok (composed frame) j) ∧
      AppliesTo (composed frame) [.list [.num 1, .num 2, .num 3]] j
        (.error (.argumentCount 1 [.num 1, .num 2, .num 3]) k) ∧
      InTurn (.prim (.operation .car)) (.prim (.operation .cdr)) [.list [.num 1, .num 2, .num 3]] j (.ok (.num 2) j) := by
  obtain ⟨j, frame, _, composes, applies⟩ := exists_composed knows_preludeSession (.prim (.operation .car))
    (.prim (.operation .cdr))
  have gives := evaluatesTo_compose lookup_compose_preludeSession applies
  have refused : InTurn (.prim (.operation .car)) (.prim (.operation .cdr)) [.num 1, .num 2, .num 3]
      (j.entered frame (.list [.num 1, .num 2, .num 3])) (.error (.argumentCount 1 [.num 1, .num 2, .num 3]) _) :=
    Settles.bind_error (AppliesTo.operation_error rfl) _
  exact ⟨j, frame, _, gives, (appliesTo_composed_iff composes _ _).2 refused, inTurn_operations rfl rfl⟩

end SmallScheme
