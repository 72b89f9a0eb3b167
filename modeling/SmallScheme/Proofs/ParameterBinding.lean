import SmallScheme.Proofs.Frames

/-
Module: SmallScheme.Proofs.ParameterBinding
Purpose: What the application of a closure does before its body. A count of arguments that does not fit the parameters is
  refused with nothing changed, and nothing else ends so: once a frame is made, there is a scope more than before, and no
  evaluation takes it away. In the frame each different name among the parameters has a cell of its own, new and with the
  last of the arguments for that name, every other name has the cell that it has in the scope of the closure at that
  moment, and nothing that was there is changed.
Main exports: scopes_le_of_evalSequence, apply_eq_argumentCount_iff, parameters_bound
-/

namespace SmallScheme

/-- The count of arguments does not fit the parameters: there are fewer than parameters, or more and no name for the rest
    of them. -/
def Misfits (params : List String) (rest? : Option String) (args : List Value) : Prop :=
  if rest?.isSome then args.length < params.length else args.length ≠ params.length

instance (params : List String) (rest? : Option String) (args : List Value) : Decidable (Misfits params rest? args) :=
  inferInstanceAs (Decidable (if rest?.isSome then args.length < params.length else args.length ≠ params.length))

variable {params : List String} {rest? : Option String} {body args : List Value} {s : ScopeId} {i : Interpreter}

theorem fits_eq_false_iff : fits params rest? args.length = false ↔ Misfits params rest? args := by
  unfold fits Misfits
  split <;> simp

theorem fits_of_not_misfits (suits : ¬ Misfits params rest? args) : fits params rest? args.length = true := by
  rwa [← fits_eq_false_iff, Bool.not_eq_false] at suits

theorem frameBindings_eq (params : List String) (rest? : Option String) (args : List Value) :
    frameBindings params rest? args =
      params.zip args ++ rest?.toList.map fun rest => (rest, .list (args.drop params.length)) := by
  cases rest? <;> rfl

/-- No evaluation of a body takes a scope away. -/
theorem scopes_le_of_evalSequence (depth : Nat) (s : ScopeId) (last : Value) (body : List Value) (i : Interpreter) :
    i.heap.scopes.size ≤ (Ending.state (evalSequence (eval depth) s last body i)).heap.scopes.size := by
  let keeping := associationKeeping s i.heap
  have respects : Respects keeping.discipline.states keeping.value (evalSequence (eval depth) s last body) :=
    Discipline.evalSequence (Discipline.eval_and_apply depth).1 (Or.inl rfl : s = s ∨ _) trivial fun _ _ => trivial
  exact (MemoryInvariant.holds_of_respects respects (.refl s i.heap)).1.scopes_le

theorem apply_of_misfits (misfits : Misfits params rest? args) (body : List Value) (s : ScopeId) (depth : Nat)
    (i : Interpreter) :
    apply (depth + 1) (.closure params rest? body s) args i = .error (.argumentCount params.length args) i := by
  rw [apply, applyStep, fits_eq_false_iff.2 misfits]
  rfl

theorem apply_of_emptyBody (suits : ¬ Misfits params rest? args) (s : ScopeId) (depth : Nat) (i : Interpreter) :
    apply (depth + 1) (.closure params rest? [] s) args i = .error (.emptyBody params rest?) i := by
  rw [apply, applyStep, fits_of_not_misfits suits]
  rfl

theorem apply_of_body (suits : ¬ Misfits params rest? args) (nonempty : body ≠ []) (s : ScopeId) (depth : Nat)
    (i : Interpreter) :
    apply (depth + 1) (.closure params rest? body s) args i =
      evalSequence (eval depth) i.heap.scopes.size (.list []) body
        { i with heap := (i.heap.extend s (frameBindings params rest? args)).1 } := by
  rw [apply]
  exact applyStep_of_fits (fits_of_not_misfits suits) nonempty (eval depth) (apply depth) s i

/-- A count of arguments is refused, with nothing changed, exactly if it does not fit the parameters. A body that is
    evaluated may stop for the same reason, but not in the state before the call. -/
theorem apply_eq_argumentCount_iff {depth : Nat} :
    apply (depth + 1) (.closure params rest? body s) args i = .error (.argumentCount params.length args) i ↔
      Misfits params rest? args := by
  refine ⟨fun refused => ?_, fun misfits => apply_of_misfits misfits body s depth i⟩
  by_contra suits
  by_cases nonempty : body = []
  · subst nonempty
    rw [apply_of_emptyBody suits] at refused
    cases refused
  · have grown := scopes_le_of_evalSequence depth i.heap.scopes.size (.list []) body
      { i with heap := (i.heap.extend s (frameBindings params rest? args)).1 }
    have made := i.heap.makesFrame_extend s (frameBindings params rest? args)
    rw [← apply_of_body suits nonempty, refused] at grown
    exact absurd made.there (Nat.not_lt.2 grown)

/-- The application of a closure binds its parameters. It is refused for the count of its arguments, with nothing changed,
    exactly if they do not fit the parameters, and for an empty body otherwise. Else the body is evaluated in a frame, a
    scope that was not there before. Each name among the parameters has in it a cell that was not there before, that no
    other of these names has, and that holds the last value assigned to the name, where the parameters are assigned the
    arguments in order and the name for the rest, last, the list of the others; these are all the new cells. Any other
    name has the very cell that it has in the scope of the closure at the moment of the call; and all scopes and cells
    there were, those of the closure among them, are unchanged. -/
theorem parameters_bound (params : List String) (rest? : Option String) (body : List Value) (s : ScopeId)
    (args : List Value) (i : Interpreter) :
    let f := Value.closure params rest? body s
    let names := params ++ rest?.toList
    let assigned := params.zip args ++ rest?.toList.map fun rest => (rest, Value.list (args.drop params.length))
    (∀ depth, apply (depth + 1) f args i = .error (.argumentCount params.length args) i ↔ Misfits params rest? args) ∧
    (¬ Misfits params rest? args → body = [] →
      ∀ depth, apply (depth + 1) f args i = .error (.emptyBody params rest?) i) ∧
    (¬ Misfits params rest? args → body ≠ [] → ∃ frame after,
      (∀ depth, apply (depth + 1) f args i =
        evalSequence (eval depth) frame (.list []) body { i with heap := after }) ∧
      i.heap.scopes.size ≤ frame ∧
      (∀ name ∈ names, ∃ c v, after.cell? frame name = some c ∧ i.heap.cells.size ≤ c ∧
        lastValue? assigned name = some v ∧ after.cells[c]? = some v) ∧
      (∀ name ∈ names, ∀ other ∈ names, after.cell? frame name = after.cell? frame other → name = other) ∧
      (∀ c, i.heap.cells.size ≤ c → c < after.cells.size → ∃ name ∈ names, after.cell? frame name = some c) ∧
      (∀ name, name ∉ names → after.cell? frame name = i.heap.cell? s name) ∧
      i.heap.GrowsTo after) := by
  intro f names assigned
  refine ⟨fun depth => apply_eq_argumentCount_iff, fun suits empty depth => ?_, fun suits nonempty => ?_⟩
  · subst empty
    exact apply_of_emptyBody suits s depth i
  · have made := i.heap.makesFrame_extend s (frameBindings params rest? args)
    have named : (frameBindings params rest? args).map (·.1) = names := names_frameBindings (fits_of_not_misfits suits)
    have same : frameBindings params rest? args = assigned := frameBindings_eq params rest? args
    rw [same] at made named
    refine ⟨i.heap.scopes.size, _, fun depth => same ▸ apply_of_body suits nonempty s depth i, made.new,
      fun name member => ?_, fun name member other among alike => ?_, fun c new inside => ?_, fun name foreign => ?_,
      made.grows⟩
    · obtain ⟨c, v, owned, new, given, holds⟩ := made.of_mem (named ▸ member)
      exact ⟨c, v, (Heap.cell?_of_ownedCell? owned).2, new, given, holds⟩
    · obtain ⟨c, _, owned, _⟩ := made.of_mem (named ▸ member)
      obtain ⟨d, _, ownedToo, _⟩ := made.of_mem (named ▸ among)
      rw [(Heap.cell?_of_ownedCell? owned).2, (Heap.cell?_of_ownedCell? ownedToo).2] at alike
      cases alike
      exact made.apart owned ownedToo
    · obtain ⟨name, owned⟩ := made.only new inside
      exact ⟨name, named ▸ made.mem_of_owned owned, (Heap.cell?_of_ownedCell? owned).2⟩
    · exact (made.unbound (lastValue?_eq_none_iff.2 (named ▸ foreign))).2

/-- A scope that has two names of its own. -/
def twoNames : Interpreter :=
  { heap := { cells := #[.num 10, .num 20], scopes := #[{ bindings := [("x", 0), ("z", 1)], owned := ["x", "z"] }] } }

/-- A closure over this scope with a name that stands twice among its parameters, one of them a name of the scope, and
    with another that is also the name for the rest. -/
def repeatedParameters : Value :=
  .closure ["x", "y", "x"] (some "y") [.sym "x"] root

theorem parameters_bound_repeatedSample :
    Misfits ["x", "y", "x"] (some "y") [.num 1, .num 2] ∧
      apply 1 repeatedParameters [.num 1, .num 2] twoNames = .error (.argumentCount 3 [.num 1, .num 2]) twoNames ∧
      ¬ Misfits ["x", "y", "x"] (some "y") [.num 1, .num 2, .num 3, .num 4] ∧
      ∃ frame after,
        apply 2 repeatedParameters [.num 1, .num 2, .num 3, .num 4] twoNames =
          evalSequence (eval 1) frame (.list []) [.sym "x"] { twoNames with heap := after } ∧
        (∃ c, after.cell? frame "x" = some c ∧ 2 ≤ c ∧ after.cells[c]? = some (.num 3)) ∧
        (∃ c, after.cell? frame "y" = some c ∧ 2 ≤ c ∧ after.cells[c]? = some (.list [.num 4])) ∧
        after.cell? frame "z" = some 1 ∧ after.cell? root "x" = some 0 ∧ after.cells[0]? = some (.num 10) := by
  have few : Misfits ["x", "y", "x"] (some "y") [.num 1, .num 2] := by decide
  have enough : ¬ Misfits ["x", "y", "x"] (some "y") [.num 1, .num 2, .num 3, .num 4] := by decide
  refine ⟨few, ((parameters_bound _ _ [.sym "x"] root _ twoNames).1 0).2 few, enough, ?_⟩
  obtain ⟨frame, after, body, -, bound, -, -, inherited, grows⟩ :=
    (parameters_bound _ _ [.sym "x"] root _ twoNames).2.2 enough (by simp)
  have kept : after.cell? root "x" = some 0 := (Heap.cell?_congr (grows.scopes root (by decide)) "x").trans rfl
  refine ⟨frame, after, body 1, ?_, ?_, inherited "z" (by decide), kept, grows.cells 0 (by decide)⟩
  · obtain ⟨c, v, found, new, last, holds⟩ := bound "x" (by decide)
    cases last
    exact ⟨c, found, new, holds⟩
  · obtain ⟨c, v, found, new, last, holds⟩ := bound "y" (by decide)
    cases last
    exact ⟨c, found, new, holds⟩

end SmallScheme
