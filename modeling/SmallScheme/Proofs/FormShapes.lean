import SmallScheme.Proofs.Runs
import SmallScheme.Session

/-
Module: SmallScheme.Proofs.FormShapes
Purpose: How special forms are written, as a relation between forms and expressions. A list that starts with a keyword is
  taken apart exactly as the relation says; if no form is written so, the list is refused as a whole, before anything in
  it is evaluated and with nothing changed. Parameters stand in an abstraction as they stand behind the name in the
  definition of a procedure, so that such a definition is one of the name by an abstraction.
Main exports: Parameters.Written, SpecialForm.Written, Parameters.ofValue?_eq_some_iff, SpecialForm.ofElements?_eq_some_iff,
  evalStep_of_written, evalStep_of_unwritten, special_forms_checked_first, definition_by_abstraction
-/

namespace SmallScheme

/-- How parameters are written: as one name for all arguments, as a list of names, or as names before a dot and a name for
    the rest. -/
inductive Parameters.Written : Parameters → Value → Prop where
  | rest (rest : String) : Written ⟨[], some rest⟩ (.sym rest)
  | fixed (names : List String) : Written ⟨names, none⟩ (.list (names.map .sym))
  | fixedAndRest (names : List String) (rest : String) : Written ⟨names, some rest⟩ (.dotted (names.map .sym) (.sym rest))

/-- How special forms are written. In the definition of a procedure the name is the first of a list of either kind, and
    the parameters are what is behind it. -/
inductive SpecialForm.Written : SpecialForm → Value → Prop where
  | quote (datum : Value) : Written (.quote datum) (.list [.sym "quote", datum])
  | choice (test yes no : Value) : Written (.choice test yes no) (.list [.sym "if", test, yes, no])
  | assignment (name : String) (e : Value) : Written (.assignment name e) (.list [.sym "set!", .sym name, e])
  | definition (name : String) (e : Value) : Written (.definition name e) (.list [.sym "define", .sym name, e])
  | procedure {name : String} {params : Parameters} {target spec : Value} (named : target.first? = some (.sym name))
      (behind : target.rest? = some spec) (written : params.Written spec) (body : List Value) :
      Written (.procedure name params body) (.list (.sym "define" :: target :: body))
  | abstraction {params : Parameters} {spec : Value} (written : params.Written spec) (body : List Value) :
      Written (.abstraction params body) (.list (.sym "lambda" :: spec :: body))
  | loading (file : String) : Written (.loading file) (.list [.sym "load", .str file])

/-!
### Parameters
-/

theorem mapM_symbolName?_eq_some_iff {vs : List Value} {names : List String} :
    vs.mapM symbolName? = some names ↔ vs = names.map .sym := by
  induction vs generalizing names with
  | nil => simp [eq_comm]
  | cons v vs ih =>
      rw [List.mapM_cons]
      constructor
      · intro named
        obtain ⟨name, first, others⟩ := Option.bind_eq_some_iff.1 named
        obtain ⟨rest, restNamed, ⟨⟩⟩ := Option.bind_eq_some_iff.1 others
        cases v <;> cases first
        rw [ih.1 restNamed]
        rfl
      · intro same
        cases names with
        | nil => cases same
        | cons name names =>
            obtain ⟨rfl, others⟩ := List.cons.inj same
            rw [ih.2 others]
            rfl

/-- A value is taken as parameters exactly if they are written so. -/
theorem Parameters.ofValue?_eq_some_iff {v : Value} {params : Parameters} :
    ofValue? v = some params ↔ params.Written v := by
  constructor
  · intro taken
    unfold ofValue? at taken
    split at taken
    · cases taken
      exact .rest _
    · obtain ⟨names, named, rfl⟩ := Option.map_eq_some_iff.1 taken
      rw [mapM_symbolName?_eq_some_iff.1 named]
      exact .fixed names
    · obtain ⟨names, named, rfl⟩ := Option.map_eq_some_iff.1 taken
      rw [mapM_symbolName?_eq_some_iff.1 named]
      exact .fixedAndRest names _
    · cases taken
  · intro written
    cases written with
    | rest => rfl
    | fixed names => rw [ofValue?, mapM_symbolName?_eq_some_iff.2 rfl]; rfl
    | fixedAndRest names rest => rw [ofValue?, mapM_symbolName?_eq_some_iff.2 rfl]; rfl

/-!
### Special forms
-/

/-- The names of all keywords. -/
theorem Keyword.names_eq : [Keyword.quote, .choice, .assignment, .definition, .abstraction, .loading].map Keyword.name =
    ["quote", "if", "set!", "define", "lambda", "load"] :=
  rfl

theorem Keyword.name_injective {k l : Keyword} (same : k.name = l.name) : k = l := by
  have found := Keyword.ofName?_name k
  rw [same, Keyword.ofName?_name] at found
  exact (Option.some.inj found).symm

namespace SpecialForm

variable {k : Keyword} {args body : List Value} {target spec : Value} {name : String} {form : SpecialForm}

/-- A list of either kind that starts with a name is the head of the definition of a procedure, with what is behind the
    name as its parameters. -/
theorem ofElements?_procedure (named : target.first? = some (.sym name)) (behind : target.rest? = some spec)
    (body : List Value) :
    ofElements? .definition (target :: body) = (Parameters.ofValue? spec).map (.procedure name · body) := by
  unfold Value.first? at named
  split at named <;> cases named
  · cases behind
    rfl
  · rename_i heads tail
    cases heads <;> cases behind <;> rfl

/-- A written form starts with its keyword, and the elements behind it are taken apart into the form. -/
theorem Written.exists_elements {e : Value} (written : form.Written e) :
    ∃ (k : Keyword) (args : List Value), e = .list (.sym k.name :: args) ∧ ofElements? k args = some form := by
  cases written with
  | quote => exact ⟨.quote, _, rfl, rfl⟩
  | choice => exact ⟨.choice, _, rfl, rfl⟩
  | assignment => exact ⟨.assignment, _, rfl, rfl⟩
  | definition => exact ⟨.definition, _, rfl, rfl⟩
  | procedure named behind written body =>
      refine ⟨.definition, _, rfl, ?_⟩
      rw [ofElements?_procedure named behind, Parameters.ofValue?_eq_some_iff.2 written]
      rfl
  | abstraction written body =>
      refine ⟨.abstraction, _, rfl, ?_⟩
      rw [ofElements?, Parameters.ofValue?_eq_some_iff.2 written]
      rfl
  | loading => exact ⟨.loading, _, rfl, rfl⟩

theorem ofElements?_eq_some_iff : ofElements? k args = some form ↔ form.Written (.list (.sym k.name :: args)) := by
  constructor
  · intro taken
    unfold ofElements? at taken
    split at taken
    · cases taken
      exact .quote _
    · cases taken
      exact .choice ..
    · cases taken
      exact .assignment ..
    · cases taken
      exact .definition ..
    · obtain ⟨params, written, rfl⟩ := Option.map_eq_some_iff.1 taken
      exact .procedure rfl rfl (Parameters.ofValue?_eq_some_iff.1 written) _
    · rename_i heads tail _
      obtain ⟨params, written, rfl⟩ := Option.map_eq_some_iff.1 taken
      refine .procedure rfl ?_ (Parameters.ofValue?_eq_some_iff.1 written) _
      cases heads <;> rfl
    · obtain ⟨params, written, rfl⟩ := Option.map_eq_some_iff.1 taken
      exact .abstraction (Parameters.ofValue?_eq_some_iff.1 written) _
    · cases taken
      exact .loading _
    · cases taken
  · intro written
    obtain ⟨l, others, same, taken⟩ := written.exists_elements
    simp only [Value.list.injEq, List.cons.injEq, Value.sym.injEq] at same
    obtain ⟨sameName, rfl⟩ := same
    cases Keyword.name_injective sameName
    exact taken

/-- No form is written as a list that is not taken apart, and only then. -/
theorem ofElements?_eq_none_iff :
    ofElements? k args = none ↔ ∀ form : SpecialForm, ¬ form.Written (.list (.sym k.name :: args)) := by
  rw [Option.eq_none_iff_forall_ne_some]
  exact forall_congr' fun form => not_congr ofElements?_eq_some_iff

end SpecialForm

/-!
### Evaluation
-/

section Evaluation

variable {e target spec : Value} {form : SpecialForm} {params : Parameters} {name : String}

/-- A written form is evaluated by its parts. -/
theorem evalStep_of_written (written : form.Written e) (ev : Evaluate) (ap : Apply) (s : ScopeId) :
    evalStep ev ap s e = evalForm ev s form := by
  obtain ⟨k, args, rfl, taken⟩ := written.exists_elements
  simp only [evalStep, Keyword.ofName?_name, taken]

/-- A list that starts with a keyword and is no written form is refused as a whole, whatever its parts would do. -/
theorem evalStep_of_unwritten {k : Keyword} {args : List Value}
    (unwritten : ∀ form : SpecialForm, ¬ form.Written (.list (.sym k.name :: args))) (ev : Evaluate) (ap : Apply)
    (s : ScopeId) : evalStep ev ap s (.list (.sym k.name :: args)) = throw (.badForm (.list (.sym k.name :: args))) := by
  have notTaken := SpecialForm.ofElements?_eq_none_iff.2 unwritten
  simp only [evalStep, Keyword.ofName?_name, notTaken]

theorem eval_of_unwritten {k : Keyword} {args : List Value}
    (unwritten : ∀ form : SpecialForm, ¬ form.Written (.list (.sym k.name :: args))) (depth : Nat) (s : ScopeId)
    (i : Interpreter) :
    eval (depth + 1) s (.list (.sym k.name :: args)) i = .error (.badForm (.list (.sym k.name :: args))) i :=
  congrFun (evalStep_of_unwritten unwritten (eval depth) (apply depth) s) i

theorem eval_quote {datum : Value} (written : (SpecialForm.quote datum).Written e) (depth : Nat) (s : ScopeId)
    (i : Interpreter) : eval (depth + 1) s e i = .ok datum i := by
  rw [eval, evalStep_of_written written]
  rfl

theorem eval_abstraction {body : List Value} (written : (SpecialForm.abstraction params body).Written e) (depth : Nat)
    (s : ScopeId) (i : Interpreter) : eval (depth + 1) s e i = .ok (params.closure body s) i := by
  rw [eval, evalStep_of_written written]
  rfl

theorem eval_procedure {body : List Value} (written : (SpecialForm.procedure name params body).Written e) (depth : Nat)
    (s : ScopeId) (i : Interpreter) :
    eval (depth + 1) s e i =
      .ok (params.closure body s) { i with heap := i.heap.define s name (params.closure body s) } := by
  rw [eval, evalStep_of_written written]
  rfl

/-- The shape of a list that starts with a keyword is checked before all else. If no form is written so, evaluation stops
    with the list as a bad form and with nothing changed, whatever the evaluation of its parts would do and whatever files
    there are; if one is, evaluation goes on by the parts of that form. A quote gives its datum then, an abstraction its
    closure, and the definition of a procedure gives its closure and binds the name to it; none of them fails. -/
theorem special_forms_checked_first {keyword : String}
    (special : keyword ∈ ["quote", "if", "set!", "define", "lambda", "load"]) (args : List Value) (s : ScopeId)
    (i : Interpreter) :
    let e := Value.list (.sym keyword :: args)
    ((∀ form : SpecialForm, ¬ form.Written e) →
      (∀ ev ap, evalStep ev ap s e i = .error (.badForm e) i) ∧
      ∀ depth, eval (depth + 1) s e i = .error (.badForm e) i) ∧
    (∀ form : SpecialForm, form.Written e → ∀ ev ap, evalStep ev ap s e = evalForm ev s form) ∧
    (∀ datum depth, (SpecialForm.quote datum).Written e → eval (depth + 1) s e i = .ok datum i) ∧
    (∀ params body depth, (SpecialForm.abstraction params body).Written e →
      eval (depth + 1) s e i = .ok (params.closure body s) i) ∧
    ∀ name params body depth, (SpecialForm.procedure name params body).Written e →
      eval (depth + 1) s e i =
        .ok (params.closure body s) { i with heap := i.heap.define s name (params.closure body s) } := by
  intro e
  refine ⟨fun unwritten => ?_, fun form written ev ap => evalStep_of_written written ev ap s,
    fun datum depth written => eval_quote written depth s i,
    fun params body depth written => eval_abstraction written depth s i,
    fun name params body depth written => eval_procedure written depth s i⟩
  obtain ⟨k, _, rfl⟩ := List.mem_map.1 (Keyword.names_eq ▸ special)
  exact ⟨fun ev ap => congrFun (evalStep_of_unwritten unwritten ev ap s) i,
    fun depth => eval_of_unwritten unwritten depth s i⟩

/-- The definition of a procedure with a number where the name for the rest should stand. -/
def misplacedNumber : Value :=
  .list [.sym "define", .dotted [.sym "f", .sym "x"] (.num 5), .sym "x"]

/-- A file that is named by a call, which would have to be evaluated first. -/
def computedFile : Value :=
  .list [.sym "load", .list [.sym "write", .str "file"]]

theorem special_forms_checked_first_misplacedSample :
    let i := Interpreter.initial {} {} []
    "define" ∈ ["quote", "if", "set!", "define", "lambda", "load"] ∧
      (∀ form : SpecialForm, ¬ form.Written misplacedNumber) ∧
      eval 1 root misplacedNumber i = .error (.badForm misplacedNumber) i ∧
      "load" ∈ ["quote", "if", "set!", "define", "lambda", "load"] ∧
      (∀ form : SpecialForm, ¬ form.Written computedFile) ∧
      eval 1 root computedFile i = .error (.badForm computedFile) i := by
  intro i
  have definition : ∀ form : SpecialForm, ¬ form.Written misplacedNumber :=
    SpecialForm.ofElements?_eq_none_iff (k := .definition).1 rfl
  have loading : ∀ form : SpecialForm, ¬ form.Written computedFile :=
    SpecialForm.ofElements?_eq_none_iff (k := .loading).1 rfl
  refine ⟨by decide, definition, ?_, by decide, loading, ?_⟩
  · exact ((special_forms_checked_first (by decide) _ root i).1 definition).2 0
  · exact ((special_forms_checked_first (by decide) _ root i).1 loading).2 0

/-- The definition of a procedure is the definition of its name by an abstraction. Either what is behind the name is no
    parameters; then both are refused with nothing changed, the one as a whole and the other for its abstraction. Or both
    give one closure, over the same scope, and lead to the same state, in which the name is bound to it. -/
theorem definition_by_abstraction (named : target.first? = some (.sym name)) (behind : target.rest? = some spec)
    (body : List Value) (s : ScopeId) (i : Interpreter) :
    let short := Value.list (.sym "define" :: target :: body)
    let abstraction := Value.list (.sym "lambda" :: spec :: body)
    let long := Value.list [.sym "define", .sym name, abstraction]
    ((∀ params : Parameters, ¬ params.Written spec) ∧ ∀ depth,
      eval (depth + 1) s short i = .error (.badForm short) i ∧
      eval (depth + 2) s long i = .error (.badForm abstraction) i) ∨
    ∃ params : Parameters, params.Written spec ∧ ∀ depth,
      let made := params.closure body s
      let after := { i with heap := i.heap.define s name made }
      eval (depth + 1) s short i = .ok made after ∧ eval (depth + 2) s long i = .ok made after := by
  intro short abstraction long
  have defines : ∀ depth, eval (depth + 2) s long = eval (depth + 1) s abstraction >>= define s name := by
    intro depth
    rw [eval, evalStep_of_written (.definition name abstraction)]
    rfl
  by_cases takes : ∃ params : Parameters, params.Written spec
  · obtain ⟨params, written⟩ := takes
    refine .inr ⟨params, written, fun depth => ⟨eval_procedure (.procedure named behind written body) depth s i, ?_⟩⟩
    have made := eval_abstraction (.abstraction written body) depth s i
    rw [defines]
    exact run_bind_of_ok made (define s name)
  · have noParameters : ∀ params : Parameters, ¬ params.Written spec := not_exists.1 takes
    have notTaken : Parameters.ofValue? spec = none := by
      rw [Option.eq_none_iff_forall_ne_some]
      exact fun params taken => noParameters params (Parameters.ofValue?_eq_some_iff.1 taken)
    have shortUnwritten : ∀ form : SpecialForm, ¬ form.Written (.list (.sym Keyword.definition.name :: target :: body)) := by
      rw [← SpecialForm.ofElements?_eq_none_iff, SpecialForm.ofElements?_procedure named behind, notTaken]
      rfl
    have abstractionUnwritten : ∀ form : SpecialForm,
        ¬ form.Written (.list (.sym Keyword.abstraction.name :: spec :: body)) := by
      rw [← SpecialForm.ofElements?_eq_none_iff, SpecialForm.ofElements?, notTaken]
      rfl
    refine .inl ⟨noParameters, fun depth => ⟨eval_of_unwritten shortUnwritten depth s i, ?_⟩⟩
    rw [defines]
    exact run_bind_of_error (eval_of_unwritten abstractionUnwritten depth s i) (define s name)

/-- A name with parameters behind it, of which the last is for the rest. -/
def spreadHead : Value :=
  .dotted [.sym "f", .sym "x"] (.sym "r")

/-- A name with a number where the second parameter should stand. -/
def numberedHead : Value :=
  .list [.sym "f", .sym "x", .num 5]

theorem definition_by_abstraction_headsSample :
    let i := Interpreter.initial {} {} []
    spreadHead.first? = some (.sym "f") ∧ spreadHead.rest? = some (.dotted [.sym "x"] (.sym "r")) ∧
      numberedHead.first? = some (.sym "f") ∧ numberedHead.rest? = some (.list [.sym "x", .num 5]) ∧
      (let made := Value.closure ["x"] (some "r") [.sym "r"] root
      let abstraction := Value.list [.sym "lambda", .dotted [.sym "x"] (.sym "r"), .sym "r"]
      ∃ after, after.heap.lookup? root "f" = some made ∧
        eval 1 root (.list [.sym "define", spreadHead, .sym "r"]) i = .ok made after ∧
        eval 2 root (.list [.sym "define", .sym "f", abstraction]) i = .ok made after) ∧
      let abstraction := Value.list [.sym "lambda", .list [.sym "x", .num 5], .sym "x"]
      eval 2 root (.list [.sym "define", .sym "f", abstraction]) i =
        .error (.badForm abstraction) i := by
  intro i
  refine ⟨rfl, rfl, rfl, rfl, ?_, ?_⟩
  · have spread : (Parameters.mk ["x"] (some "r")).Written (.dotted [.sym "x"] (.sym "r")) := .fixedAndRest ["x"] "r"
    rcases @definition_by_abstraction spreadHead _ _ rfl rfl [.sym "r"] root i with
      ⟨noParameters, _⟩ | ⟨params, written, same⟩
    · exact absurd spread (noParameters _)
    · cases (Parameters.ofValue?_eq_some_iff.2 written).symm.trans (Parameters.ofValue?_eq_some_iff.2 spread)
      exact ⟨_, by decide +kernel, same 0⟩
  · rcases @definition_by_abstraction numberedHead _ _ rfl rfl [.sym "x"] root i with
      ⟨_, refused⟩ | ⟨params, written, _⟩
    · exact (refused 0).2
    · cases Parameters.ofValue?_eq_some_iff.2 written

end Evaluation

end SmallScheme
