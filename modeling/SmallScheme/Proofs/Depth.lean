import SmallScheme.Eval
import SmallScheme.Proofs.Runs

/-
Module: SmallScheme.Proofs.Depth
Purpose: The limit of nesting. Nothing in the language holds up the fault of a nesting too deep on its way out, so an
  evaluation that ends in any other way never met the limit, and a higher limit changes nothing about it. One action is
  deepened by another if the other does the same wherever the first does not end at the limit; every step of the
  evaluator keeps this relation between its parts.
Main exports: Ending.AtLimit, DeepenedBy, DeepenedBy.bind, eval_deepenedBy, DeepenedBy.eq_of_not_atLimit,
  answer_of_higher_limit
-/

namespace SmallScheme

/-- The fault with which an action stopped, if it did. -/
def Ending.fault? {α : Type} : Ending α → Option Fault
  | .ok _ _ => none
  | .error fault _ => some fault

/-- The action stopped because the nesting was too deep. -/
def Ending.AtLimit {α : Type} (ending : Ending α) : Prop :=
  ending.fault? = some .depthExceeded

instance {α : Type} (ending : Ending α) : Decidable ending.AtLimit :=
  inferInstanceAs (Decidable (_ = _))

/-- The second action does what the first does, except where the first ends at the limit. -/
def DeepenedBy {α : Type} (action deeper : Action α) : Prop :=
  ∀ i, Ending.AtLimit (action i) ∨ deeper i = action i

namespace DeepenedBy

variable {α β : Type}

theorem refl (action : Action α) : DeepenedBy action action :=
  fun _ => .inr rfl

/-- What ends at the limit at once is deepened by anything. -/
theorem limit (deeper : Action α) : DeepenedBy (throw .depthExceeded) deeper :=
  fun _ => .inl rfl

/-- A fault ends a sequence, so the first part meets the limit only if the whole does. -/
theorem bind {action deeper : Action α} {next nextDeeper : α → Action β} (first : DeepenedBy action deeper)
    (rest : ∀ a, DeepenedBy (next a) (nextDeeper a)) : DeepenedBy (action >>= next) (deeper >>= nextDeeper) := by
  intro i
  change Ending.AtLimit (EStateM.bind action next i) ∨ EStateM.bind deeper nextDeeper i = EStateM.bind action next i
  unfold EStateM.bind
  obtain met | same := first i
  · left
    generalize action i = ending at met
    cases ending with
    | ok a j => cases met
    | error fault j => exact met
  · rw [same]
    cases action i with
    | ok a j => exact rest a j
    | error fault j => exact .inr rfl

section Steps

variable {ev evDeeper : Evaluate} {ap apDeeper : Apply} (evaluates : ∀ s e, DeepenedBy (ev s e) (evDeeper s e))
  (applies : ∀ f args, DeepenedBy (ap f args) (apDeeper f args))

include evaluates in
theorem evalEach (s : ScopeId) (es : List Value) : DeepenedBy (evalEach ev s es) (evalEach evDeeper s es) := by
  induction es with
  | nil => exact refl _
  | cons e es ih => exact (evaluates s e).bind fun v => ih.bind fun vs => refl _

include evaluates in
theorem evalSequence (s : ScopeId) (last : Value) (forms : List Value) :
    DeepenedBy (evalSequence ev s last forms) (evalSequence evDeeper s last forms) := by
  induction forms generalizing last with
  | nil => exact refl _
  | cons form forms ih => exact (evaluates s form).bind fun v => ih v

include evaluates in
theorem evalForm (s : ScopeId) (form : SpecialForm) : DeepenedBy (evalForm ev s form) (evalForm evDeeper s form) := by
  cases form with
  | quote | procedure | abstraction => exact refl _
  | choice test yes no =>
      apply (evaluates s test).bind
      intro v
      split
      · exact evaluates s yes
      · exact evaluates s no
  | assignment name e | definition name e => exact (evaluates s e).bind fun v => refl _
  | loading file => exact (refl _).bind fun forms => evalSequence evaluates s _ forms

include evaluates applies in
theorem evalStep (s : ScopeId) (e : Value) : DeepenedBy (evalStep ev ap s e) (evalStep evDeeper apDeeper s e) := by
  unfold SmallScheme.evalStep
  split
  · exact refl _
  · exact refl _
  · exact refl _
  · exact refl _
  · split
    · split
      · exact evalForm evaluates s _
      · exact refl _
    · exact (refl _).bind fun f => (evalEach evaluates s _).bind fun vs => applies f vs
  · exact (evaluates s _).bind fun f => (evalEach evaluates s _).bind fun vs => applies f vs
  · exact refl _

include applies in
theorem effect (e : Effect) (args : List Value) : DeepenedBy (e.call ap args) (e.call apDeeper args) := by
  cases e with
  | apply =>
      simp only [Effect.call]
      split
      · exact applies _ _
      · exact applies _ _
      · exact refl _
  | _ => exact refl _

include evaluates applies in
theorem applyStep (f : Value) (args : List Value) :
    DeepenedBy (applyStep ev ap f args) (applyStep evDeeper apDeeper f args) := by
  unfold SmallScheme.applyStep
  split
  · exact refl _
  · exact effect applies _ args
  · split
    · exact refl _
    · split
      · exact refl _
      · exact (refl _).bind fun frame => evalSequence evaluates frame _ _
  · exact refl _

end Steps

end DeepenedBy

/-- Evaluation and application are deepened by a higher limit. -/
theorem eval_and_apply_deepenedBy {depth deeper : Nat} (le : depth ≤ deeper) :
    (∀ s e, DeepenedBy (eval depth s e) (eval deeper s e)) ∧
      ∀ f args, DeepenedBy (apply depth f args) (apply deeper f args) := by
  induction depth generalizing deeper with
  | zero => exact ⟨fun _ _ => .limit _, fun _ _ => .limit _⟩
  | succ depth ih =>
      cases deeper with
      | zero => exact absurd le (Nat.not_succ_le_zero depth)
      | succ deeper =>
          obtain ⟨evaluates, applies⟩ := ih (Nat.le_of_succ_le_succ le)
          exact ⟨fun s e => .evalStep evaluates applies s e, fun f args => .applyStep evaluates applies f args⟩

/-- Unless an evaluation ends at the limit of nesting, it ends in the same way under any higher limit. -/
theorem eval_deepenedBy {depth deeper : Nat} (le : depth ≤ deeper) (s : ScopeId) (e : Value) :
    DeepenedBy (eval depth s e) (eval deeper s e) :=
  (eval_and_apply_deepenedBy le).1 s e

theorem apply_deepenedBy {depth deeper : Nat} (le : depth ≤ deeper) (f : Value) (args : List Value) :
    DeepenedBy (apply depth f args) (apply deeper f args) :=
  (eval_and_apply_deepenedBy le).2 f args

/-- Where an action does not end at the limit, one that deepens it ends in the same way. -/
theorem DeepenedBy.eq_of_not_atLimit {α : Type} {action deeper : Action α} (deepened : DeepenedBy action deeper)
    {i : Interpreter} (settled : ¬ Ending.AtLimit (action i)) : deeper i = action i :=
  (deepened i).resolve_left settled

/-- An answer that is settled under one limit of nesting is the answer under every higher limit: an evaluation that ends
    in any way but with the fault of the limit ends with the same value or fault and in the same state, and so does an
    application. -/
theorem answer_of_higher_limit {depth deeper : Nat} (le : depth ≤ deeper) (i : Interpreter) :
    (∀ s e, ¬ Ending.AtLimit (eval depth s e i) → eval deeper s e i = eval depth s e i) ∧
      ∀ f args, ¬ Ending.AtLimit (apply depth f args i) → apply deeper f args i = apply depth f args i :=
  ⟨fun s e => (eval_deepenedBy le s e).eq_of_not_atLimit, fun f args => (apply_deepenedBy le f args).eq_of_not_atLimit⟩

/-- The program `((lambda (x) (+ x 1)) 2)`, in which three evaluations and applications are nested in a fourth. -/
def incrementSample : Value :=
  .list [.list [.sym "lambda", .list [.sym "x"], .list [.sym "+", .sym "x", .num 1]], .num 2]

/-- An interpreter that knows addition. -/
def addingSample : Interpreter where
  heap := Heap.ofPrimitives [.operation (.arithmetic .add)]

theorem answer_of_higher_limit_incrementSample :
    Ending.AtLimit (eval 3 root incrementSample addingSample) ∧
      ¬ Ending.AtLimit (eval 4 root incrementSample addingSample) ∧
      eval maxDepth root incrementSample addingSample = eval 4 root incrementSample addingSample := by
  have settled : ¬ Ending.AtLimit (eval 4 root incrementSample addingSample) := by decide +kernel
  have higher : 4 ≤ maxDepth := by decide
  exact ⟨by decide +kernel, settled, (answer_of_higher_limit higher addingSample).1 root incrementSample settled⟩

end SmallScheme
