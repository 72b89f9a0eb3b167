import SmallScheme.Proofs.World

/-
Module: SmallScheme.Proofs.Discipline
Purpose: What all evaluation respects. A discipline says which expressions, values and scopes a program works with and how
  two states are related, and asks of each single step on the memory and on the world that it stays within them. From
  that the evaluator at every depth does: from related states it ends alike, with a value of the discipline or with a
  fault. With a relation between a state and itself this is an invariant of all programs; with a relation between two
  states it says that programs do not tell them apart.
Main exports: SpecialForm.parts, Kinds, Discipline, Discipline.eval, Discipline.apply, Discipline.evalText, Discipline.runFile
-/

namespace SmallScheme

open Value (Canonical WellFormedOver)

/-- The elements of a special form that are expressions or data. -/
def SpecialForm.parts : SpecialForm → List Value
  | .quote datum => [datum]
  | .choice test yes no => [test, yes, no]
  | .assignment _ e | .definition _ e => [e]
  | .procedure _ _ body | .abstraction _ body => body
  | .loading _ => []

/-- The parts of a special form stand among the elements it is made of. -/
theorem SpecialForm.mem_of_mem_parts {k : Keyword} {elements : List Value} {form : SpecialForm}
    (made : SpecialForm.ofElements? k elements = some form) {part : Value} (member : part ∈ form.parts) :
    part ∈ elements := by
  unfold SpecialForm.ofElements? at made
  split at made
  · cases made
    exact member
  · cases made
    exact member
  · cases made
    exact List.mem_cons_of_mem _ member
  · cases made
    exact List.mem_cons_of_mem _ member
  · rcases Option.map_eq_some_iff.1 made with ⟨params, _, rfl⟩
    exact List.mem_cons_of_mem _ member
  · rcases Option.map_eq_some_iff.1 made with ⟨params, _, rfl⟩
    exact List.mem_cons_of_mem _ member
  · rcases Option.map_eq_some_iff.1 made with ⟨params, _, rfl⟩
    exact List.mem_cons_of_mem _ member
  · cases made
    exact absurd member List.not_mem_nil
  · cases made

/-- Kinds of expressions, values and scopes that belong together: what is read may be evaluated, values have lists and
    closures of the kind, and a closure of the kind has expressions as its body. -/
structure Kinds where
  /-- What is evaluated. -/
  expr : Value → Prop
  /-- What evaluation gives. -/
  value : Value → Prop
  /-- Where evaluation takes place. -/
  scope : ScopeId → Prop
  expr_of_canonical : ∀ {v}, Canonical v → expr v
  expr_element : ∀ {es e}, expr (.list es) → e ∈ es → expr e
  value_of_expr : ∀ {v}, expr v → value v
  value_bool : ∀ b, value (.bool b)
  value_str : ∀ s, value (.str s)
  value_port : ∀ id, value (.port id)
  value_list : ∀ {vs}, value (.list vs) ↔ ∀ v ∈ vs, value v
  value_closure : ∀ {params rest? body s}, (∀ form ∈ body, expr form) → scope s →
    value (.closure params rest? body s)
  expr_body : ∀ {params rest? body s}, value (.closure params rest? body s) → ∀ form ∈ body, expr form

/-- Expressions are data, and values are well formed over the scopes of a kind, in which evaluation takes place. -/
def Kinds.wellFormedOver (captured : ScopeId → Prop) : Kinds where
  expr := Canonical
  value := WellFormedOver captured
  scope := captured
  expr_of_canonical := id
  expr_element data member := Value.built_list.1 data _ member
  value_of_expr := Canonical.wellFormedOver
  value_bool _ := trivial
  value_str _ := trivial
  value_port _ := trivial
  value_list := Value.built_list
  value_closure body held := ⟨body, held⟩
  expr_body wellFormed := wellFormed.1

/-- Any expressions and values, in scopes of a kind. -/
def Kinds.within (scope : ScopeId → Prop) : Kinds where
  expr _ := True
  value _ := True
  scope := scope
  expr_of_canonical _ := trivial
  expr_element _ _ := trivial
  value_of_expr _ := trivial
  value_bool _ := trivial
  value_str _ := trivial
  value_port _ := trivial
  value_list := by simp
  value_closure _ _ := trivial
  expr_body _ _ _ := trivial

/-- Kinds of expressions, values and scopes, and a relation between states, that every step keeps to. -/
structure Discipline extends Kinds where
  states : Interpreter → Interpreter → Prop
  world : KeepsWorld states
  lookup? : ∀ {i j s}, states i j → scope s → ∀ name,
    j.heap.lookup? s name = i.heap.lookup? s name ∧ ∀ v, i.heap.lookup? s name = some v → value v
  cell? : ∀ {i j s}, states i j → scope s → ∀ name, j.heap.cell? s name = i.heap.cell? s name
  write : ∀ {i j s name c v}, states i j → scope s → i.heap.cell? s name = some c → value v →
    states { i with heap := i.heap.write c v } { j with heap := j.heap.write c v }
  define : ∀ {i j s v}, states i j → scope s → value v → ∀ name,
    states { i with heap := i.heap.define s name v } { j with heap := j.heap.define s name v }
  extend : ∀ {i j params rest? body s bindings}, states i j → value (.closure params rest? body s) →
    (∀ b ∈ bindings, value b.2) →
    (j.heap.extend s bindings).2 = (i.heap.extend s bindings).2 ∧ scope (i.heap.extend s bindings).2 ∧
      states { i with heap := (i.heap.extend s bindings).1 } { j with heap := (j.heap.extend s bindings).1 }
  operation : ∀ {i j args}, states i j → (∀ v ∈ args, value v) → ∀ op : Operation,
    op.call j.heap args = op.call i.heap args ∧ ∀ v, op.call i.heap args = .ok v → value v

namespace Discipline

variable (d : Discipline)

/-- An evaluator of nested expressions that keeps to the discipline. -/
def Evaluates (ev : Evaluate) : Prop :=
  ∀ s e, d.scope s → d.expr e → Respects d.states d.value (ev s e)

/-- An application of values that keeps to the discipline. -/
def Applies (ap : Apply) : Prop :=
  ∀ f args, d.value f → (∀ v ∈ args, d.value v) → Respects d.states d.value (ap f args)

variable {d}

/-!
### Names and memory
-/

theorem value_empty : d.value (.list []) :=
  d.value_list.2 fun _ member => absurd member List.not_mem_nil

theorem lookup {s : ScopeId} (held : d.scope s) (name : String) : Respects d.states d.value (lookup s name) := by
  intro i j related
  rcases d.lookup? related held name with ⟨same, values⟩
  simp only [SmallScheme.lookup, run_get_bind, same]
  cases found : i.heap.lookup? s name with
  | some v => exact .ok (values v found) related
  | none => exact .error related

theorem lookupHead {s : ScopeId} (held : d.scope s) (name : String) :
    Respects d.states d.value (lookupHead s name) := by
  intro i j related
  rcases d.lookup? related held name with ⟨same, values⟩
  simp only [SmallScheme.lookupHead, run_get_bind, same]
  cases found : i.heap.lookup? s name with
  | some v => exact .ok (values v found) related
  | none => exact .error related

theorem assign {s : ScopeId} {v : Value} (held : d.scope s) (value : d.value v) (name : String) :
    Respects d.states d.value (assign s name v) := by
  intro i j related
  simp only [SmallScheme.assign, run_get_bind, d.cell? related held name]
  cases found : i.heap.cell? s name with
  | some c => exact .ok value (d.write related held found value)
  | none => exact .error related

theorem defineName {s : ScopeId} {v : Value} (held : d.scope s) (value : d.value v) (name : String) :
    Respects d.states d.value (SmallScheme.define s name v) :=
  fun _ _ related => .ok value (d.define related held value name)

theorem newFrame {params : List String} {rest? : Option String} {body : List Value} {s : ScopeId}
    {bindings : List (String × Value)} (closure : d.value (.closure params rest? body s))
    (values : ∀ b ∈ bindings, d.value b.2) : Respects d.states d.scope (newFrame s bindings) := by
  intro i j related
  rcases d.extend related closure values with ⟨same, held, after⟩
  change Alike d.states d.scope (.ok (i.heap.extend s bindings).2 _) (.ok (j.heap.extend s bindings).2 _)
  rw [same]
  exact .ok held after

/-- The values bound in a call frame are arguments, or the list of the rest of them. -/
theorem value_of_mem_frameBindings {params : List String} {rest? : Option String} {args : List Value}
    (values : ∀ v ∈ args, d.value v) : ∀ b ∈ frameBindings params rest? args, d.value b.2 := by
  intro b member
  rcases List.mem_append.1 member with member | member
  · exact values _ (List.of_mem_zip member).2
  · cases rest? with
    | none => exact absurd member List.not_mem_nil
    | some rest =>
        rw [List.mem_singleton.1 member]
        exact d.value_list.2 fun v among => values v (List.mem_of_mem_drop among)

/-!
### Evaluation
-/

section Steps

variable {ev : Evaluate} {ap : Apply} (evaluates : d.Evaluates ev) (applies : d.Applies ap)
include evaluates

theorem evalEach {s : ScopeId} (held : d.scope s) {es : List Value} (exprs : ∀ e ∈ es, d.expr e) :
    Respects d.states (fun vs => ∀ v ∈ vs, d.value v) (evalEach ev s es) := by
  induction es with
  | nil => exact .pure fun _ member => absurd member List.not_mem_nil
  | cons e es ih =>
      rcases List.forall_mem_cons.1 exprs with ⟨first, others⟩
      apply (evaluates s e held first).bind
      intro v value
      apply (ih others).bind
      intro vs values
      exact .pure (List.forall_mem_cons.2 ⟨value, values⟩)

theorem evalSequence {s : ScopeId} (held : d.scope s) {last : Value} (start : d.value last) {forms : List Value}
    (exprs : ∀ form ∈ forms, d.expr form) : Respects d.states d.value (evalSequence ev s last forms) := by
  induction forms generalizing last with
  | nil => exact .pure start
  | cons form forms ih =>
      rcases List.forall_mem_cons.1 exprs with ⟨first, others⟩
      exact (evaluates s form held first).bind fun v value => ih value others

theorem evalForm {s : ScopeId} (held : d.scope s) {form : SpecialForm} (exprs : ∀ part ∈ form.parts, d.expr part) :
    Respects d.states d.value (evalForm ev s form) := by
  cases form with
  | quote datum => exact .pure (d.value_of_expr (exprs datum (by simp [SpecialForm.parts])))
  | choice test yes no =>
      apply (evaluates s test held (exprs _ (by simp [SpecialForm.parts]))).bind
      intro v _
      split
      · exact evaluates s yes held (exprs _ (by simp [SpecialForm.parts]))
      · exact evaluates s no held (exprs _ (by simp [SpecialForm.parts]))
  | assignment name e =>
      exact (evaluates s e held (exprs _ (by simp [SpecialForm.parts]))).bind fun v value => assign held value name
  | definition name e =>
      exact (evaluates s e held (exprs _ (by simp [SpecialForm.parts]))).bind fun v value => defineName held value name
  | procedure name params body => exact defineName held (d.value_closure exprs held) name
  | abstraction params body => exact .pure (d.value_closure exprs held)
  | loading file =>
      apply (d.world.loadForms file).bind
      intro forms data
      exact evalSequence evaluates held value_empty fun form member => d.expr_of_canonical (data form member)

include applies

theorem evalStep {s : ScopeId} {e : Value} (held : d.scope s) (expr : d.expr e) :
    Respects d.states d.value (evalStep ev ap s e) := by
  unfold SmallScheme.evalStep
  split
  · exact .pure (d.value_of_expr expr)
  · exact .pure (d.value_of_expr expr)
  · exact .pure (d.value_of_expr expr)
  · exact lookup held _
  · rename_i name args
    have exprs : ∀ part ∈ args, d.expr part :=
      fun part member => d.expr_element expr (List.mem_cons_of_mem _ member)
    split
    · split
      · rename_i form made
        exact evalForm evaluates held fun part member => exprs part (SpecialForm.mem_of_mem_parts made member)
      · exact .throw _
    · apply (lookupHead held name).bind
      intro f value
      exact (evalEach evaluates held exprs).bind fun vs values => applies f vs value values
  · rename_i head args _
    apply (evaluates s head held (d.expr_element expr List.mem_cons_self)).bind
    intro f value
    refine (evalEach evaluates held fun part member => ?_).bind fun vs values => applies f vs value values
    exact d.expr_element expr (List.mem_cons_of_mem _ member)
  · exact .throw _

end Steps

/-!
### Application
-/

theorem callClose (args : List Value) : Respects d.states d.value (callClose args) := by
  unfold SmallScheme.callClose
  split
  · exact (d.world.closePort _).bind fun _ _ => .pure (d.value_bool true)
  · exact .pure (d.value_bool false)
  · exact .throw _

theorem callRead (args : List Value) : Respects d.states d.value (callRead args) := by
  have parsed : ∀ line, Respects d.states d.value (Action.ofExcept (read line)) := fun line =>
    .ofExcept fun v success => d.value_of_expr (d.expr_of_canonical (read_canonical success))
  unfold SmallScheme.callRead
  split
  · exact d.world.readLineIn.bind fun line _ => parsed line
  · exact (d.world.readLineFrom _).bind fun line _ => parsed line
  · exact .throw _
  · exact .throw _

theorem callWrite (args : List Value) : Respects d.states d.value (callWrite args) := by
  unfold SmallScheme.callWrite
  split
  · exact (d.world.printOut _).bind fun _ _ => .pure (d.value_bool true)
  · exact (d.world.writeTo _ _).bind fun _ _ => .pure (d.value_bool true)
  · exact .throw _
  · exact .throw _

theorem callFile {α : Type} {kind : α → Prop} {use : String → Action α}
    (uses : ∀ name, Respects d.states kind (use name)) (args : List Value) :
    Respects d.states kind (do use (← Action.ofExcept (fileName args))) := by
  have named : Respects d.states (fun _ => True) (Action.ofExcept (fileName args)) := .ofExcept fun _ _ => trivial
  exact named.bind fun name _ => uses name

theorem effect {ap : Apply} (applies : d.Applies ap) (e : Effect) {args : List Value}
    (values : ∀ v ∈ args, d.value v) : Respects d.states d.value (e.call ap args) := by
  cases e with
  | apply =>
      simp only [Effect.call]
      split
      · rename_i f vs
        rcases List.forall_mem_cons.1 values with ⟨procedure, others⟩
        exact applies f vs procedure (d.value_list.1 (others _ List.mem_cons_self))
      · rename_i f vs _
        rcases List.forall_mem_cons.1 values with ⟨procedure, others⟩
        exact applies f vs procedure others
      · exact .throw _
  | openInput =>
      exact callFile (fun name => (d.world.openInputPort name).mono fun v ⟨id, port⟩ => port ▸ d.value_port id) args
  | openOutput =>
      exact callFile (fun name => (d.world.openOutputPort name).mono fun v ⟨id, port⟩ => port ▸ d.value_port id) args
  | closeInput => exact callClose args
  | closeOutput => exact callClose args
  | read => exact callRead args
  | write => exact callWrite args
  | readContents =>
      exact callFile (fun name => (d.world.readFile name).bind fun text _ => .pure (d.value_str _)) args
  | readAll =>
      refine callFile (fun name => (d.world.loadForms name).bind fun forms data => .pure ?_) args
      exact d.value_list.2 fun v member => d.value_of_expr (d.expr_of_canonical (data v member))

theorem operationCall (op : Operation) {args : List Value} (values : ∀ v ∈ args, d.value v) :
    Respects d.states d.value (do Action.ofExcept (op.call (← get).heap args)) := by
  intro i j related
  rcases d.operation related values op with ⟨same, gives⟩
  simp only [run_get_bind, same]
  exact Respects.ofExcept gives i j related

theorem applyStep {ev : Evaluate} {ap : Apply} (evaluates : d.Evaluates ev) (applies : d.Applies ap) {f : Value}
    {args : List Value} (procedure : d.value f) (values : ∀ v ∈ args, d.value v) :
    Respects d.states d.value (applyStep ev ap f args) := by
  unfold SmallScheme.applyStep
  split
  · exact operationCall _ values
  · exact effect applies _ values
  · split
    · exact .throw _
    · split
      · exact .throw _
      · apply (newFrame procedure (value_of_mem_frameBindings values)).bind
        intro frame held
        exact evalSequence evaluates held value_empty (d.expr_body procedure)
  · exact .throw _

/-!
### Programs
-/

/-- Evaluation and application at any depth keep to the discipline. -/
theorem eval_and_apply (depth : Nat) : d.Evaluates (SmallScheme.eval depth) ∧ d.Applies (SmallScheme.apply depth) := by
  induction depth with
  | zero => exact ⟨fun _ _ _ _ => .throw _, fun _ _ _ _ => .throw _⟩
  | succ depth ih =>
      rcases ih with ⟨evaluates, applies⟩
      exact ⟨fun _ _ held expr => evalStep evaluates applies held expr,
        fun _ _ procedure values => applyStep evaluates applies procedure values⟩

theorem eval (depth : Nat) {s : ScopeId} {e : Value} (held : d.scope s) (expr : d.expr e) :
    Respects d.states d.value (SmallScheme.eval depth s e) :=
  (eval_and_apply depth).1 s e held expr

theorem apply (depth : Nat) {f : Value} {args : List Value} (procedure : d.value f) (values : ∀ v ∈ args, d.value v) :
    Respects d.states d.value (SmallScheme.apply depth f args) :=
  (eval_and_apply depth).2 f args procedure values

theorem evalProgram (held : d.scope root) {last : Value} (start : d.value last) {forms : List Value}
    (exprs : ∀ form ∈ forms, d.expr form) : Respects d.states d.value (evalProgram last forms) := by
  induction forms generalizing last with
  | nil => exact .pure start
  | cons form forms ih =>
      rcases List.forall_mem_cons.1 exprs with ⟨first, others⟩
      apply (d.world.note _ _).bind
      intro _ _
      exact (eval maxDepth held first).bind fun v value => ih value others

theorem evalText (held : d.scope root) (source : List Char) : Respects d.states d.value (evalText source) := by
  apply (Respects.ofExcept fun forms success => readAll_canonical success).bind
  intro forms data
  exact evalProgram held value_empty fun form member => d.expr_of_canonical (data form member)

theorem runFile (held : d.scope root) (file : String) (args : List String) :
    Respects d.states d.value (runFile file args) := by
  have strings : d.value (.list (args.map .str)) := by
    apply d.value_list.2
    intro v member
    rcases List.mem_map.1 member with ⟨s, _, rfl⟩
    exact d.value_str s
  refine (defineName held strings "args").bind fun _ _ => eval maxDepth held (d.expr_of_canonical ?_)
  change SymbolWord "load".toList ∧ True ∧ True
  exact ⟨by decide, trivial, trivial⟩

theorem start (held : d.scope root) (prelude : Prelude) : Respects d.states (fun _ => True) (start prelude) := by
  cases prelude with
  | none => exact .pure trivial
  | configured =>
      apply d.world.configuredPrelude.bind
      intro source _
      exact (evalText held source).bind fun _ _ => .pure trivial
  | text source => exact (evalText held source).bind fun _ _ => .pure trivial

end Discipline

end SmallScheme
