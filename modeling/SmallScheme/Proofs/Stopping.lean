import SmallScheme.Proofs.Except
import SmallScheme.Proofs.World

/-
Module: SmallScheme.Proofs.Stopping
Purpose: What can stop a program. Whatever is evaluated, in whatever state, it ends with a value, with an error of the
  language, or with one of four failures of the host: at a numeral that has more digits than are ever converted, at a
  file name with a null character, at a path that the file system does not look up, or at the closing of a port whose
  file is full. The other failures of the host belong to the start of a run and never come from a program. Every built-in
  procedure and every step of the evaluator stops by such a fault only, so by induction on the limit of nesting every
  evaluation does.
Main exports: Fault.Proper, Fault.FromHost, Fault.proper_iff, FailsProperly, StopsProperly, eval_and_apply_stopProperly,
  evalText_stopsProperly
-/

namespace SmallScheme

/-- The faults that programs can stop by. -/
def Fault.Proper : Fault → Prop
  | .badRecursionLimit _ | .recursionLimitTooLarge | .noPreludeFile | .undecodablePrelude _ => False
  | _ => True

/-- The failures of the host that programs can run into. -/
def Fault.FromHost : Fault → Prop
  | .numeralTooLong _ | .nullInName | .outOfReach .. | .noRoom => True
  | _ => False

/-- No failure of the host is an error of the language. -/
theorem Fault.FromHost.isLanguageError {fault : Fault} (fromHost : fault.FromHost) : fault.isLanguageError = false := by
  cases fault <;> first | rfl | exact fromHost.elim

theorem Fault.proper_ofRefusal {worded : Trouble → Fault} (proper : ∀ trouble, (worded trouble).Proper)
    (refusal : Refusal) : (Fault.ofRefusal worded refusal).Proper := by
  cases refusal with
  | nullInName => trivial
  | trouble trouble => exact proper trouble

/-- A computation that fails does so with a fault of programs. -/
def FailsProperly {α : Type} (x : Except Fault α) : Prop :=
  ∀ fault, x = .error fault → fault.Proper

/-- An action that stops does so by a fault of programs. -/
def StopsProperly {α : Type} (action : Action α) : Prop :=
  ∀ i fault after, action i = .error fault after → fault.Proper

namespace FailsProperly

variable {α β : Type}

theorem ok (a : α) : FailsProperly (.ok a) := by
  intro fault failed
  cases failed

theorem error {fault : Fault} (proper : fault.Proper) : FailsProperly (.error fault : Except Fault α) := by
  intro other failed
  cases failed
  exact proper

theorem bind {x : Except Fault α} {f : α → Except Fault β} (first : FailsProperly x)
    (rest : ∀ a, FailsProperly (f a)) : FailsProperly (x >>= f) := by
  intro fault failed
  rcases bind_eq_error_iff.1 failed with here | ⟨a, _, later⟩
  · exact first fault here
  · exact rest a fault later

theorem map {x : Except Fault α} (fails : FailsProperly x) (f : α → β) : FailsProperly (x.map f) :=
  fun fault failed => fails fault (map_eq_error_iff.1 failed)

theorem mapM {f : α → Except Fault β} (each : ∀ a, FailsProperly (f a)) (as : List α) :
    FailsProperly (as.mapM f) := by
  induction as with
  | nil => exact ok []
  | cons a as ih =>
      rw [List.mapM_cons]
      exact (each a).bind fun b => ih.bind fun bs => ok (b :: bs)

theorem findM? {p : α → Except Fault Bool} (each : ∀ a, FailsProperly (p a)) (as : List α) :
    FailsProperly (as.findM? p) := by
  induction as with
  | nil => exact ok none
  | cons a as ih =>
      rw [List.findM?]
      apply (each a).bind
      intro found
      cases found with
      | true => exact ok (some a)
      | false => exact ih

theorem foldlM {f : β → α → Except Fault β} (each : ∀ b a, FailsProperly (f b a)) (as : List α) (b : β) :
    FailsProperly (as.foldlM f b) := by
  induction as generalizing b with
  | nil => exact ok b
  | cons a as ih =>
      rw [List.foldlM_cons]
      exact (each b a).bind ih

/-!
### Reading and computing
-/

theorem ofReader (source : List Char) (failure : Reader.Failure) : (Fault.ofReader source failure).Proper := by
  cases failure <;> trivial

theorem tokenize (source : List Char) : FailsProperly (tokenize source) := by
  simp only [SmallScheme.tokenize]
  split
  · exact ok _
  · exact error trivial

theorem read (source : List Char) : FailsProperly (read source) := by
  apply (tokenize source).bind
  intro tokens
  split
  · exact error (ofReader source _)
  · exact ok _
  · exact error (ofReader source _)

theorem readAll (source : List Char) : FailsProperly (readAll source) := by
  apply (tokenize source).bind
  intro tokens
  split
  · exact error (ofReader source _)
  · exact ok _

theorem numberIn (s : String) : FailsProperly (numberIn s) := by
  unfold SmallScheme.numberIn
  split
  · exact error trivial
  · split
    · exact ok _
    · exact error trivial
    · exact error trivial

theorem toNumber : ∀ v : Value, FailsProperly (toNumber v)
  | .num n => ok n
  | .str s => numberIn s
  | .list [v] => toNumber v
  | .list [] | .list (_ :: _ :: _) | .bool _ | .sym _ | .dotted .. | .closure .. | .prim _ | .port _ => error trivial

theorem toText (v : Value) : FailsProperly (toText v) := by
  unfold SmallScheme.toText
  split <;> first | exact ok _ | exact error trivial

theorem toTruth (v : Value) : FailsProperly (toTruth v) := by
  unfold SmallScheme.toTruth
  split
  · exact ok _
  · exact error trivial

theorem arithmetic (op : Arithmetic) (args : List Value) : FailsProperly (op.call args) := by
  have combine : ∀ a b, FailsProperly (op.combine a b) := by
    intro a b
    unfold Arithmetic.combine
    cases op with
    | add | subtract | multiply => exact ok _
    | divide | modulo | quotient | remainder =>
        simp only
        split
        · exact error trivial
        · exact ok _
  unfold Arithmetic.call
  split
  · exact error trivial
  · apply (mapM toNumber args).bind
    intro ns
    refine bind ?_ fun n => ok _
    cases ns with
    | nil => exact ok 0
    | cons n ns => exact foldlM combine ns n

theorem callTest {coerce : Value → Except Fault α} (coerces : ∀ v, FailsProperly (coerce v))
    (test : α → α → Bool) (args : List Value) : FailsProperly (callTest coerce test args) := by
  unfold SmallScheme.callTest
  split
  · exact (coerces _).bind fun a => (coerces _).bind fun b => ok _
  · exact error trivial

/-!
### Equality

A coercion that does not take a value means that the values are not equal that way; only a numeral that is too long
stands.
-/

theorem equalAfter [BEq α] {coerce : Value → Except Fault α} (coerces : ∀ v, FailsProperly (coerce v))
    (a b : Value) : FailsProperly (equalAfter coerce a b) := by
  unfold SmallScheme.equalAfter
  split
  · exact ok false
  · rename_i fault _ refused
    exact error (coerces a fault refused)
  · split
    · exact ok false
    · rename_i fault _ refused
      exact error (coerces b fault refused)
    · exact ok _

theorem orElseTest {first : Except Fault Bool} {second : Unit → Except Fault Bool} (one : FailsProperly first)
    (other : FailsProperly (second ())) : FailsProperly (orElseTest first second) := by
  unfold SmallScheme.orElseTest
  split
  · exact other
  · exact one

theorem andThenTest {first : Except Fault Bool} {second : Unit → Except Fault Bool} (one : FailsProperly first)
    (other : FailsProperly (second ())) : FailsProperly (andThenTest first second) := by
  unfold SmallScheme.andThenTest
  split
  · exact other
  · exact one

theorem agree (h : Heap) (a b : Value) : FailsProperly (agree h a b) := by
  refine orElseTest (equalAfter toNumber a b) ?_
  refine orElseTest (equalAfter toText a b) ?_
  exact orElseTest (equalAfter toTruth a b) (ok _)

mutual

theorem isEqual (h : Heap) (a b : Value) : FailsProperly (isEqual h a b) := by
  unfold SmallScheme.isEqual
  split
  · split
    · exact eachEqual h _ _
    · exact ok false
  · split
    · exact andThenTest (eachEqual h _ _) (isEqual h _ _)
    · exact ok false
  · exact agree h a b

theorem eachEqual (h : Heap) (xs ys : List Value) : FailsProperly (eachEqual h xs ys) := by
  unfold SmallScheme.eachEqual
  split
  · exact andThenTest (isEqual h _ _) (eachEqual h _ _)
  · exact ok true

end

theorem operation (h : Heap) (op : Operation) (args : List Value) : FailsProperly (op.call h args) := by
  cases op with
  | arithmetic op => exact arithmetic op args
  | numberTest test => exact callTest toNumber test.holds args
  | stringTest test => exact callTest toText test.holds args
  | connective op => exact callTest toTruth op.holds args
  | car =>
      change FailsProperly (callFirst args)
      unfold callFirst
      split
      · split
        · exact ok _
        · exact error trivial
      · exact error trivial
  | cdr =>
      change FailsProperly (callRest args)
      unfold callRest
      split
      · split
        · exact ok _
        · exact error trivial
      · exact error trivial
  | cons =>
      change FailsProperly (callCons args)
      unfold callCons
      split
      · exact ok _
      · exact error trivial
  | isEq | isEqv =>
      change FailsProperly (callEqv h args)
      unfold callEqv
      split
      · exact ok _
      · exact error trivial
  | isEqual =>
      change FailsProperly (callEqual h args)
      unfold callEqual
      split
      · exact (isEqual h _ _).map Value.bool
      · exact error trivial

theorem fileName (args : List Value) : FailsProperly (fileName args) := by
  unfold SmallScheme.fileName
  split
  · exact ok _
  · exact error trivial
  · exact error trivial

theorem isFile (i : Interpreter) (path : Path) : FailsProperly (i.isFile path) := by
  unfold Interpreter.isFile
  cases i.files.isFile path with
  | ok found => exact ok found
  | error trouble => exact error trivial

theorem resolve (i : Interpreter) (name : String) : FailsProperly (i.resolve name) := by
  simp only [Interpreter.resolve]
  split
  · exact ok _
  · exact (findM? (isFile i) _).bind fun _ => ok _

theorem readFile (i : Interpreter) (name : String) : FailsProperly (i.readFile name) := by
  apply (resolve i name).bind
  intro path
  split
  · exact error (Fault.proper_ofRefusal (fun _ => by trivial) _)
  · split
    · exact error trivial
    · exact ok _

end FailsProperly

namespace StopsProperly

variable {α β : Type}

theorem pure (a : α) : StopsProperly (pure a) := by
  intro i fault after stopped
  cases stopped

theorem throw {fault : Fault} (proper : fault.Proper) : StopsProperly (throw fault : Action α) := by
  intro i other after stopped
  cases stopped
  exact proper

theorem ofExcept {x : Except Fault α} (fails : FailsProperly x) : StopsProperly (Action.ofExcept x) := by
  cases x with
  | ok a => exact pure a
  | error fault => exact throw (fails fault rfl)

theorem modify (f : Interpreter → Interpreter) : StopsProperly (modify f) := by
  intro i fault after stopped
  cases stopped

theorem bind {action : Action α} {next : α → Action β} (first : StopsProperly action)
    (rest : ∀ a, StopsProperly (next a)) : StopsProperly (action >>= next) := by
  intro i fault after stopped
  cases ended : action i with
  | ok a j =>
      rw [run_bind_of_ok ended] at stopped
      exact rest a j fault after stopped
  | error other j =>
      rw [run_bind_of_error ended] at stopped
      cases stopped
      exact first i fault after ended

/-- What is done after looking at the state may depend on the state. -/
theorem get_bind {next : Interpreter → Action α} (rest : ∀ i, StopsProperly (next i)) :
    StopsProperly (get >>= next) :=
  fun i => rest i i

/-- What is done only if a test has not stopped before. -/
theorem guarded (fault : Fault) (proper : fault.Proper) {test : Prop} [Decidable test]
    {next : PUnit → Action α} (rest : ∀ u, StopsProperly (next u)) :
    StopsProperly (if test then MonadExcept.throw fault >>= next else next ⟨⟩) := by
  split
  · exact (throw proper).bind rest
  · exact rest ⟨⟩

/-!
### Actions on the state
-/

theorem lookup (s : ScopeId) (name : String) : StopsProperly (lookup s name) := by
  apply get_bind
  intro i
  split
  · exact pure _
  · exact throw trivial

theorem lookupHead (s : ScopeId) (name : String) : StopsProperly (lookupHead s name) := by
  apply get_bind
  intro i
  split
  · exact pure _
  · exact throw trivial

theorem assign (s : ScopeId) (name : String) (v : Value) : StopsProperly (assign s name v) := by
  apply get_bind
  intro i
  split
  · exact (modify _).bind fun _ => pure v
  · exact throw trivial

theorem define (s : ScopeId) (name : String) (v : Value) : StopsProperly (define s name v) :=
  (modify _).bind fun _ => pure v

theorem note (recorder : Recorder) (text : String) : StopsProperly (note recorder text) :=
  modify _

theorem readFile (name : String) : StopsProperly (readFile name) :=
  get_bind fun i => ofExcept (.readFile i name)

theorem loadForms (name : String) : StopsProperly (loadForms name) := by
  apply (note _ _).bind
  intro _
  apply (readFile name).bind
  intro source
  exact (ofExcept (.readAll source)).bind fun forms => (note _ _).bind fun _ => pure forms

theorem addPort (port : Port) : StopsProperly (addPort port) :=
  get_bind fun _ => (modify _).bind fun _ => pure _

theorem openInputPort (name : String) : StopsProperly (openInputPort name) := by
  apply get_bind
  intro i
  split
  · exact addPort _
  · exact throw (Fault.proper_ofRefusal (fun _ => by trivial) _)

theorem openOutputPort (name : String) : StopsProperly (openOutputPort name) := by
  apply get_bind
  intro i
  split
  · exact (modify _).bind fun _ => addPort _
  · exact throw (Fault.proper_ofRefusal (fun _ => by trivial) _)

theorem closePort (id : PortId) : StopsProperly (closePort id) := by
  refine bind (fun i fault after stopped => ?_) fun _ => modify _
  rw [run_closeStream] at stopped
  split at stopped
  · cases stopped
  · split at stopped <;> cases stopped
    trivial

theorem readLineFrom (id : PortId) : StopsProperly (readLineFrom id) := by
  refine get_bind fun i => guarded .closedPort trivial fun _ => ?_
  split
  · exact throw trivial
  · dsimp only
    split
    · exact (modify fun _ => _).bind fun _ => pure _
    · exact (modify fun _ => _).bind fun _ => throw trivial

theorem writeTo (id : PortId) (text : List Char) : StopsProperly (writeTo id text) := by
  refine get_bind fun i => guarded .closedPort trivial fun _ => ?_
  split
  · exact throw trivial
  · exact modify fun _ => _

theorem callRead (args : List Value) : StopsProperly (callRead args) := by
  have parsed : ∀ line, StopsProperly (Action.ofExcept (read line)) := fun line => ofExcept (.read line)
  unfold SmallScheme.callRead
  split
  · exact bind (get_bind fun _ => (modify fun _ => _).bind fun _ => pure _) parsed
  · exact (readLineFrom _).bind parsed
  · exact throw trivial
  · exact throw trivial

theorem callWrite (args : List Value) : StopsProperly (callWrite args) := by
  unfold SmallScheme.callWrite
  split
  · exact (modify _).bind fun _ => pure _
  · exact (writeTo _ _).bind fun _ => pure _
  · exact throw trivial
  · exact throw trivial

theorem callClose (args : List Value) : StopsProperly (callClose args) := by
  unfold SmallScheme.callClose
  split
  · exact (closePort _).bind fun _ => pure _
  · exact pure _
  · exact throw trivial

theorem effect {ap : Apply} (applies : ∀ f args, StopsProperly (ap f args)) (e : Effect) (args : List Value) :
    StopsProperly (e.call ap args) := by
  have named : StopsProperly (Action.ofExcept (fileName args)) := ofExcept (.fileName args)
  cases e with
  | apply =>
      simp only [Effect.call]
      split
      · exact applies _ _
      · exact applies _ _
      · exact throw trivial
  | openInput => exact named.bind openInputPort
  | openOutput => exact named.bind openOutputPort
  | closeInput | closeOutput => exact callClose args
  | read => exact callRead args
  | write => exact callWrite args
  | readContents => exact named.bind fun name => (readFile name).bind fun _ => pure _
  | readAll => exact named.bind fun name => (loadForms name).bind fun _ => pure _

/-!
### Evaluation
-/

section Steps

variable {ev : Evaluate} {ap : Apply} (evaluates : ∀ s e, StopsProperly (ev s e))
  (applies : ∀ f args, StopsProperly (ap f args))
include evaluates

theorem evalEach (s : ScopeId) (es : List Value) : StopsProperly (evalEach ev s es) := by
  induction es with
  | nil => exact pure []
  | cons e es ih => exact (evaluates s e).bind fun v => ih.bind fun vs => pure (v :: vs)

theorem evalSequence (s : ScopeId) (last : Value) (forms : List Value) :
    StopsProperly (evalSequence ev s last forms) := by
  induction forms generalizing last with
  | nil => exact pure last
  | cons form forms ih => exact (evaluates s form).bind ih

theorem evalForm (s : ScopeId) (form : SpecialForm) : StopsProperly (evalForm ev s form) := by
  cases form with
  | quote | abstraction => exact pure _
  | choice test yes no =>
      apply (evaluates s test).bind
      intro v
      split
      · exact evaluates s yes
      · exact evaluates s no
  | assignment name e => exact (evaluates s e).bind fun v => assign s name v
  | definition name e => exact (evaluates s e).bind fun v => define s name v
  | procedure name params body => exact define s name _
  | loading file => exact (loadForms file).bind fun forms => evalSequence evaluates s _ forms

include applies

theorem evalStep (s : ScopeId) (e : Value) : StopsProperly (evalStep ev ap s e) := by
  unfold SmallScheme.evalStep
  split
  · exact pure _
  · exact pure _
  · exact pure _
  · exact lookup s _
  · split
    · split
      · exact evalForm evaluates s _
      · exact throw trivial
    · exact (lookupHead s _).bind fun f => (evalEach evaluates s _).bind fun vs => applies f vs
  · exact (evaluates s _).bind fun f => (evalEach evaluates s _).bind fun vs => applies f vs
  · exact throw trivial

theorem applyStep (f : Value) (args : List Value) : StopsProperly (applyStep ev ap f args) := by
  unfold SmallScheme.applyStep
  split
  · exact get_bind fun i => ofExcept (.operation i.heap _ args)
  · exact effect applies _ args
  · split
    · exact throw trivial
    · split
      · exact throw trivial
      · refine bind (fun i fault after stopped => ?_) fun frame => evalSequence evaluates frame _ _
        cases stopped
  · exact throw trivial

end Steps

end StopsProperly

end SmallScheme
