import SmallScheme.Proofs.Computing
import SmallScheme.Session

/-
Module: SmallScheme.Proofs.Procedures
Purpose: The procedures of the prelude for lists, as values. A scope knows them if it binds each under its name, and the
  built-in procedures under theirs; a session that has evaluated the prelude does, and so does every frame whose
  parameters have other names. What the procedures compute that are no loops is told once for each.
Main exports: Search, Procedure, Procedure.value, Heap.Knows, knows_preludeSession, IsFrame.knows, Procedure.computes,
  computes_isNull, exists_curried, exists_flipped
-/

namespace SmallScheme

/-- The searches. -/
inductive Search where
  | memq | memv | member | assq | assv | assoc
deriving DecidableEq, Repr, Inhabited

namespace Search

/-- The name of a search. -/
def name : Search → String
  | .memq => "memq"
  | .memv => "memv"
  | .member => "member"
  | .assq => "assq"
  | .assv => "assv"
  | .assoc => "assoc"

/-- The equality by which a search compares. -/
def equality : Search → Operation
  | .memq | .assq => .isEq
  | .memv | .assv => .isEqv
  | .member | .assoc => .isEqual

/-- Whether a search compares the first elements of pairs. -/
def keyed : Search → Bool
  | .memq | .memv | .member => false
  | .assq | .assv | .assoc => true

end Search

/-- The procedures of the prelude for lists, and those that they use. -/
inductive Procedure where
  | not | isNull | list | id | flip | curry
  | foldr | foldl | fold | and | length | reverse
  | memHelper
  | search (s : Search)
  | map | filter
deriving DecidableEq, Repr, Inhabited

/-- All of them. -/
def procedures : List Procedure :=
  [.not, .isNull, .list, .id, .flip, .curry, .foldr, .foldl, .fold, .and, .length, .reverse, .memHelper,
    .search .memq, .search .memv, .search .member, .search .assq, .search .assv, .search .assoc, .map, .filter]

theorem mem_procedures (p : Procedure) : p ∈ procedures := by
  cases p with
  | search s => cases s <;> decide
  | _ => decide

namespace Procedure

/-- The name under which the prelude defines a procedure. -/
def name : Procedure → String
  | .not => "not"
  | .isNull => "null?"
  | .list => "list"
  | .id => "id"
  | .flip => "flip"
  | .curry => "curry"
  | .foldr => "foldr"
  | .foldl => "foldl"
  | .fold => "fold"
  | .and => "and"
  | .length => "length"
  | .reverse => "reverse"
  | .memHelper => "mem-helper"
  | .search s => s.name
  | .map => "map"
  | .filter => "filter"

/-- The parameters of a procedure. -/
def parameters : Procedure → Parameters
  | .not => { fixed := ["x"], rest? := none }
  | .isNull | .id => { fixed := ["obj"], rest? := none }
  | .list => { fixed := [], rest? := some "objs" }
  | .flip => { fixed := ["func"], rest? := none }
  | .curry => { fixed := ["func", "arg1"], rest? := none }
  | .foldr => { fixed := ["func", "end", "lst"], rest? := none }
  | .foldl | .fold => { fixed := ["func", "accum", "lst"], rest? := none }
  | .and => { fixed := [], rest? := some "lst" }
  | .length | .reverse => { fixed := ["lst"], rest? := none }
  | .memHelper => { fixed := ["pred", "op"], rest? := none }
  | .search s => { fixed := ["obj", if s.keyed then "alist" else "lst"], rest? := none }
  | .map => { fixed := ["func", "lst"], rest? := none }
  | .filter => { fixed := ["pred", "lst"], rest? := none }

/-- The procedure inside `flip`. -/
def flipped : Value :=
  .list [.sym "func", .sym "arg2", .sym "arg1"]

/-- The procedure inside `curry`. -/
def curried : Value :=
  .list [.sym "apply", .sym "func", .list [.sym "cons", .sym "arg1", .list [.sym "list", .sym "arg"]]]

/-- The step of `length`. -/
def counting : Value :=
  .list [.sym "+", .sym "x", .num 1]

/-- The step of all searches. -/
def finding : Value :=
  .list [.sym "if",
    .list [.sym "and", .list [.sym "not", .sym "acc"], .list [.sym "pred", .list [.sym "op", .sym "next"]]],
    .sym "next", .sym "acc"]

/-- The step of `map`. -/
def mapping : Value :=
  .list [.sym "cons", .list [.sym "func", .sym "x"], .sym "y"]

/-- The step of `filter`. -/
def filtering : Value :=
  .list [.sym "if", .list [.sym "pred", .sym "x"], .list [.sym "cons", .sym "x", .sym "y"], .sym "y"]

/-- A procedure as an expression. -/
def lambda (params : List String) (body : Value) : Value :=
  .list [.sym "lambda", .list (params.map .sym), body]

/-- The body of a procedure. -/
def body : Procedure → Value
  | .not => .list [.sym "if", .sym "x", .bool false, .bool true]
  | .isNull =>
    .list [.sym "if", .list [.sym "eqv?", .sym "obj", .list [.sym "quote", .list []]], .bool true, .bool false]
  | .list => .sym "objs"
  | .id => .sym "obj"
  | .flip => lambda ["arg1", "arg2"] flipped
  | .curry => lambda ["arg"] curried
  | .foldr =>
    .list [.sym "if", .list [.sym "null?", .sym "lst"], .sym "end",
      .list [.sym "func", .list [.sym "car", .sym "lst"],
        .list [.sym "foldr", .sym "func", .sym "end", .list [.sym "cdr", .sym "lst"]]]]
  | .foldl | .fold =>
    .list [.sym "if", .list [.sym "null?", .sym "lst"], .sym "accum",
      .list [.sym "foldl", .sym "func", .list [.sym "func", .sym "accum", .list [.sym "car", .sym "lst"]],
        .list [.sym "cdr", .sym "lst"]]]
  | .and => .list [.sym "fold", .sym "&&", .bool true, .sym "lst"]
  | .length => .list [.sym "fold", lambda ["x", "y"] counting, .num 0, .sym "lst"]
  | .reverse => .list [.sym "fold", .list [.sym "flip", .sym "cons"], .list [.sym "quote", .list []], .sym "lst"]
  | .memHelper => lambda ["acc", "next"] finding
  | .search s =>
    .list [.sym "fold",
      .list [.sym "mem-helper", .list [.sym "curry", .sym s.equality.name, .sym "obj"],
        .sym (if s.keyed then "car" else "id")],
      .bool false, .sym (if s.keyed then "alist" else "lst")]
  | .map => .list [.sym "foldr", lambda ["x", "y"] mapping, .list [.sym "quote", .list []], .sym "lst"]
  | .filter => .list [.sym "foldr", lambda ["x", "y"] filtering, .list [.sym "quote", .list []], .sym "lst"]

/-- The value that the prelude gives the name of a procedure. -/
def value (p : Procedure) : Value :=
  p.parameters.closure [p.body] root

end Procedure

/-- A procedure expression gives a closure over the scope in which it is evaluated. -/
theorem EvaluatesTo.lambda (params : List String) (body : Value) (s : ScopeId) (i : Interpreter) :
    EvaluatesTo s (Procedure.lambda params body) i (.ok (.closure params none [body] s) i) :=
  .abstraction (.fixed params) [body]

/-- A scope binds the built-in procedures and those of the prelude under their names. -/
structure Heap.Knows (h : Heap) (s : ScopeId) : Prop where
  primitive : ∀ p : Primitive, h.lookup? s p.name = some (.prim p)
  procedure : ∀ p : Procedure, h.lookup? s p.name = some p.value

namespace Heap.Knows

variable {h k : Heap} {s : ScopeId}

theorem iff_of_lists : h.Knows s ↔ (∀ p ∈ primitives, h.lookup? s p.name = some (.prim p)) ∧
    ∀ p ∈ procedures, h.lookup? s p.name = some p.value :=
  ⟨fun knows => ⟨fun p _ => knows.primitive p, fun p _ => knows.procedure p⟩,
    fun both => ⟨fun p => both.1 p (mem_primitives p), fun p => both.2 p (mem_procedures p)⟩⟩

instance : Decidable (h.Knows s) :=
  have := List.decidableBAll (fun p : Primitive => h.lookup? s p.name = some (.prim p)) primitives
  have := List.decidableBAll (fun p : Procedure => h.lookup? s p.name = some p.value) procedures
  decidable_of_iff' _ iff_of_lists

theorem mono (knows : h.Knows s) (grows : h.GrowsTo k) : k.Knows s where
  primitive p := grows.lookup? (knows.primitive p)
  procedure p := grows.lookup? (knows.procedure p)

end Heap.Knows

/-- A session that has evaluated the prelude. -/
def preludeSession : Interpreter :=
  Ending.state (evalText preludeSource.toList (Interpreter.initial {} {} []))

theorem reachable_preludeSession : Reachable preludeSession := by
  have called := Reachable.call (.eval preludeSource.toList) (reachable_initial {} {} [])
  have same : ∀ (action : Action Value) (i : Interpreter),
      Ending.state ((action >>= fun v => pure (some v)) i) = Ending.state (action i) := by
    intro action i
    change Ending.state (EStateM.bind action _ i) = _
    unfold EStateM.bind
    cases action i <;> rfl
  rw [preludeSession, ← same]
  exact called

/-- What holds after the prelude is told by its text put down character by character, since the evaluation of `toList` in
    the kernel takes long. -/
theorem preludeSession_of_characters {holds : Interpreter → Prop}
    (written : ∃ characters, preludeSource = String.ofList characters ∧
      holds (Ending.state (evalText characters (Interpreter.initial {} {} [])))) : holds preludeSession := by
  obtain ⟨characters, same, held⟩ := written
  rwa [preludeSession, same, String.toList_ofList]

set_option maxRecDepth 20000 in
/-- The root scope of a session knows the procedures once the prelude is evaluated. -/
theorem knows_preludeSession : preludeSession.heap.Knows root :=
  @preludeSession_of_characters (·.heap.Knows root) ⟨_, rfl, by decide +kernel⟩

/-!
### Frames that know the procedures
-/

/-- The names that a prelude gives a meaning. -/
def knownNames : List String :=
  primitives.map Primitive.name ++ procedures.map Procedure.name

/-- A frame whose parameters have other names knows what its scope knows. -/
theorem IsFrame.knows {h k : Heap} {s frame : ScopeId} {params : List String} {rest? : Option String} {args : List Value}
    (isFrame : IsFrame h s (frameBindings params rest? args) k frame) (known : h.Knows s)
    (count : fits params rest? args.length = true) (foreign : ∀ name ∈ params ++ rest?.toList, name ∉ knownNames) :
    k.Knows frame := by
  have elsewhere : ∀ name ∈ knownNames, name ∉ (frameBindings params rest? args).map (·.1) := by
    rw [names_frameBindings count]
    exact fun name listed bound => foreign name bound listed
  refine ⟨fun p => isFrame.outer (elsewhere _ ?_) (known.primitive p), fun p => ?_⟩
  · exact List.mem_append_left _ (List.mem_map_of_mem (mem_primitives p))
  · refine isFrame.outer (elsewhere _ ?_) (known.procedure p)
    exact List.mem_append_right _ (List.mem_map_of_mem (mem_procedures p))

namespace Procedure

/-- The parameters of a procedure have different names, none of which the prelude gives a meaning. -/
theorem nodup_and_foreign_parameters (p : Procedure) :
    (p.parameters.fixed ++ p.parameters.rest?.toList).Nodup ∧
      ∀ name ∈ p.parameters.fixed ++ p.parameters.rest?.toList, name ∉ knownNames := by
  have each : ∀ p ∈ procedures, (p.parameters.fixed ++ p.parameters.rest?.toList).Nodup ∧
      ∀ name ∈ p.parameters.fixed ++ p.parameters.rest?.toList, name ∉ knownNames := by
    decide
  exact each p (mem_procedures p)

/-- To apply a procedure is to evaluate its body in a frame that knows all procedures. -/
theorem exists_frame (p : Procedure) (args : List Value) {i : Interpreter} (knows : i.heap.Knows root)
    (count : fits p.parameters.fixed p.parameters.rest? args.length = true) :
    ∃ j frame, OnlyGrew i j ∧ j.heap.Knows frame ∧
      IsFrame i.heap root (frameBindings p.parameters.fixed p.parameters.rest? args) j.heap frame ∧
      ∀ ending, EvaluatesTo frame p.body j ending → AppliesTo p.value args i ending := by
  obtain ⟨once, foreign⟩ := p.nodup_and_foreign_parameters
  obtain ⟨j, frame, grew, isFrame, enters⟩ := AppliesTo.exists_frame _ _ root args count once i
  exact ⟨j, frame, grew, isFrame.knows knows count foreign, isFrame, enters p.body⟩

/-- A procedure computes what its body gives in every frame that knows all procedures. -/
theorem computes (p : Procedure) {h : Heap} {args : List Value} {result : Except Fault Value} (knows : h.Knows root)
    (count : fits p.parameters.fixed p.parameters.rest? args.length = true)
    (gives : ∀ k frame, k.Knows frame →
      IsFrame h root (frameBindings p.parameters.fixed p.parameters.rest? args) k frame → Gives k frame p.body result) :
    Computes h p.value args result := by
  obtain ⟨once, foreign⟩ := p.nodup_and_foreign_parameters
  exact .closure count once fun k frame isFrame => gives k frame (isFrame.knows knows count foreign) isFrame

end Procedure

/-!
### Procedures without loops
-/

section Simple

variable {h : Heap} {i : Interpreter}

theorem computes_not (knows : h.Knows root) (v : Value) :
    Computes h Procedure.not.value [v] (.ok (.bool (!isTrue v))) := by
  refine Procedure.not.computes knows rfl fun k frame _ isFrame => .choice (.symbol isFrame.bound) ?_
  cases isTrue v with
  | true => exact .truth false
  | false => exact .truth true

theorem computes_id (knows : h.Knows root) (v : Value) : Computes h Procedure.id.value [v] (.ok v) :=
  Procedure.id.computes knows rfl fun _ _ _ isFrame => .symbol isFrame.bound

theorem computes_list (knows : h.Knows root) (vs : List Value) :
    Computes h Procedure.list.value vs (.ok (.list vs)) := by
  refine Procedure.list.computes knows ?_ fun _ _ _ isFrame => .symbol isFrame.bound
  simp [fits, Procedure.parameters]

/-- Only the empty list is strictly equal to the empty list. -/
theorem eqv_empty (h : Heap) (v : Value) : eqv h v (.list []) = decide (v = .list []) := by
  cases v with
  | list items => cases items <;> simp [eqv, eqvAll]
  | _ => simp [eqv]

theorem computes_isNull (knows : h.Knows root) (v : Value) :
    Computes h Procedure.isNull.value [v] (.ok (.bool (v = .list []))) := by
  refine Procedure.isNull.computes knows rfl fun k frame known isFrame => .choice (v := .bool (v = .list [])) ?_ ?_
  · refine .call rfl (known.primitive (.operation .isEqv)) (.cons (.symbol isFrame.bound) (.cons (.quote _) .nil)) ?_
    refine .operation fun l _ => ?_
    rw [Operation.call, callEqv, isEqv_eq_eqv, eqv_empty]
  · by_cases empty : v = .list []
    · simp only [empty, decide_true, isTrue, if_true]
      exact .truth true
    · simp only [empty, decide_false, isTrue, Bool.false_eq_true, if_false]
      exact .truth false

/-- `curry` gives a procedure that calls another one with one more argument in front. -/
theorem exists_curried (knows : i.heap.Knows root) (f v : Value) :
    ∃ j g, OnlyGrew i j ∧ AppliesTo Procedure.curry.value [f, v] i (.ok g j) ∧
      ∀ k x result, j.heap.GrowsTo k → Computes k f [v, x] result → Computes k g [x] result := by
  obtain ⟨j, frame, grew, known, isFrame, enters⟩ := Procedure.curry.exists_frame [f, v] knows rfl
  obtain ⟨func, arg1⟩ : j.heap.lookup? frame "func" = some f ∧ j.heap.lookup? frame "arg1" = some v := isFrame.bound
  refine ⟨j, _, grew, enters _ (.lambda ..), fun k x result later computes => ?_⟩
  refine .closure rfl (by decide) fun l inner innerFrame => ?_
  have innerKnown := innerFrame.knows (known.mono later) rfl (by decide)
  have rootKnown := knows.mono (grew.1.trans (later.trans innerFrame.grows))
  have computesThere := computes.mono innerFrame.grows
  have prepended : Gives l inner (.list [.sym "cons", .sym "arg1", .list [.sym "list", .sym "arg"]])
      (.ok (.list [v, x])) := by
    have rest : Gives l inner (.list [.sym "list", .sym "arg"]) (.ok (.list [x])) :=
      .call rfl (innerKnown.procedure .list) (.cons (.symbol innerFrame.bound) .nil) (computes_list rootKnown _)
    have first := Gives.symbol (innerFrame.outer_of_params rfl (by decide) (later.lookup? arg1))
    exact .call rfl (innerKnown.primitive (.operation .cons)) (.cons first (.cons rest .nil)) (.operation fun _ _ => rfl)
  have called := Gives.symbol (innerFrame.outer_of_params rfl (by decide) (later.lookup? func))
  exact .call rfl (innerKnown.primitive (.effect .apply)) (.cons called (.cons prepended .nil)) computesThere.spread

/-- `flip` gives a procedure that calls another one with its two arguments the other way round. -/
theorem exists_flipped (knows : i.heap.Knows root) (f : Value) :
    ∃ j g, OnlyGrew i j ∧ AppliesTo Procedure.flip.value [f] i (.ok g j) ∧
      ∀ k x y result, j.heap.GrowsTo k → Computes k f [y, x] result → Computes k g [x, y] result := by
  obtain ⟨j, frame, grew, known, isFrame, enters⟩ := Procedure.flip.exists_frame [f] knows rfl
  have func : j.heap.lookup? frame "func" = some f := isFrame.bound
  refine ⟨j, _, grew, enters _ (.lambda ..), fun k x y result later computes => ?_⟩
  refine .closure rfl (by decide) fun l inner innerFrame => ?_
  obtain ⟨arg1, arg2⟩ : l.lookup? inner "arg1" = some x ∧ l.lookup? inner "arg2" = some y := innerFrame.bound
  have called := innerFrame.outer_of_params rfl (by decide) (later.lookup? func)
  exact .call rfl called (.cons (.symbol arg2) (.cons (.symbol arg1) .nil)) (computes.mono innerFrame.grows)

end Simple

end SmallScheme
