import Mathlib.Data.List.Forall2

/-
Module: SmallScheme.Proofs.Except
Purpose: How a computation that may fail comes to succeed: a mapped one only if the computation does, a sequence only if
  each part does, a list only if each element does, and a fold only by steps that succeed, so what each of them keeps
  holds at the end. A fold that fails does so at one element, behind those that it has taken, and so does a list that is
  mapped. If the steps of two folds correspond, the folds do.
Main exports: map_eq_ok_iff, map_eq_error_iff, bind_eq_ok_iff, bind_eq_error_iff, of_foldlM_eq_ok, foldlM_map_of_step,
  exists_of_foldlM_eq_error, exists_first_of_not_forall, forall₂_of_mapM_eq_ok, mapM_eq_ok_iff,
  mapM_eq_error_iff
-/

namespace SmallScheme

variable {ε α β : Type} {x : Except ε α} {b : β}

theorem map_eq_ok_iff {f : α → β} : x.map f = .ok b ↔ ∃ a, x = .ok a ∧ f a = b := by
  cases x <;> simp [Except.map]

theorem map_eq_error_iff {f : α → β} {e : ε} : x.map f = .error e ↔ x = .error e := by
  cases x <;> simp [Except.map]

theorem bind_eq_ok_iff {f : α → Except ε β} : (x >>= f) = .ok b ↔ ∃ a, x = .ok a ∧ f a = .ok b := by
  cases x <;> simp [bind, Except.bind]

theorem bind_eq_error_iff {f : α → Except ε β} {e : ε} :
    (x >>= f) = .error e ↔ x = .error e ∨ ∃ a, x = .ok a ∧ f a = .error e := by
  cases x <;> simp [bind, Except.bind]

/-- What every successful step of a fold keeps holds after a successful fold. -/
theorem of_foldlM_eq_ok {f : β → α → Except ε β} {kept : β → Prop}
    (step : ∀ b a c, kept b → f b a = .ok c → kept c) {as : List α} {b c : β} (start : kept b)
    (folded : as.foldlM f b = .ok c) : kept c := by
  induction as generalizing b with
  | nil =>
      cases folded
      exact start
  | cons a as ih =>
      rw [List.foldlM_cons] at folded
      obtain ⟨next, first, rest⟩ := bind_eq_ok_iff.1 folded
      exact ih (step b a next start first) rest

/-- If a step on mapped arguments gives the mapped result of the step, so does a whole fold. -/
theorem foldlM_map_of_step {ε' α' β' : Type} {f : β → α → Except ε β} {g : β' → α' → Except ε' β'} {onState : β → β'}
    {onElement : α → α'} {onError : ε → ε'}
    (step : ∀ b a, g (onState b) (onElement a) = ((f b a).map onState).mapError onError) (as : List α) (b : β) :
    (as.map onElement).foldlM g (onState b) = ((as.foldlM f b).map onState).mapError onError := by
  induction as generalizing b with
  | nil => rfl
  | cons a as ih =>
      rw [List.map_cons, List.foldlM_cons, List.foldlM_cons, step]
      cases f b a with
      | error e => rfl
      | ok next => exact ih next

/-- A fold that fails does so at an element, behind elements that it takes. -/
theorem exists_of_foldlM_eq_error {f : β → α → Except ε β} {as : List α} {b : β} {e : ε}
    (failed : as.foldlM f b = .error e) :
    ∃ before a after c, as = before ++ a :: after ∧ before.foldlM f b = .ok c ∧ f c a = .error e := by
  induction as generalizing b with
  | nil => cases failed
  | cons a as ih =>
      rw [List.foldlM_cons] at failed
      rcases bind_eq_error_iff.1 failed with here | ⟨next, taken, later⟩
      · exact ⟨[], a, as, b, rfl, rfl, here⟩
      · rcases ih later with ⟨before, d, after, c, rfl, takenBefore, refused⟩
        refine ⟨a :: before, d, after, c, rfl, ?_, refused⟩
        rw [List.foldlM_cons]
        exact bind_eq_ok_iff.2 ⟨next, taken, takenBefore⟩

/-- A list whose elements are not all of a kind has a first that is not. -/
theorem exists_first_of_not_forall {α : Type} {kind : α → Prop} {as : List α} (notAll : ¬ ∀ a ∈ as, kind a) :
    ∃ before a after, as = before ++ a :: after ∧ ¬ kind a ∧ ∀ b ∈ before, kind b := by
  induction as with
  | nil => exact absurd (fun _ member => absurd member List.not_mem_nil) notAll
  | cons a as ih =>
      by_cases here : kind a
      · obtain ⟨before, b, after, rfl, other, others⟩ := ih fun later => notAll (List.forall_mem_cons.2 ⟨here, later⟩)
        exact ⟨a :: before, b, after, rfl, other, List.forall_mem_cons.2 ⟨here, others⟩⟩
      · exact ⟨[], a, as, rfl, here, fun _ member => absurd member List.not_mem_nil⟩

/-- A list mapped without failure is mapped element by element. -/
theorem forall₂_of_mapM_eq_ok {f : α → Except ε β} {as : List α} {bs : List β} (mapped : as.mapM f = .ok bs) :
    List.Forall₂ (fun a b => f a = .ok b) as bs := by
  induction as generalizing bs with
  | nil =>
      cases mapped
      exact .nil
  | cons a as ih =>
      rw [List.mapM_cons] at mapped
      obtain ⟨b, first, rest⟩ := bind_eq_ok_iff.1 mapped
      obtain ⟨others, mappedRest, gives⟩ := bind_eq_ok_iff.1 rest
      cases gives
      exact .cons first (ih mappedRest)

/-- A list is mapped without failure exactly if each element is. -/
theorem mapM_eq_ok_iff {f : α → Except ε β} {as : List α} {bs : List β} :
    as.mapM f = .ok bs ↔ List.Forall₂ (fun a b => f a = .ok b) as bs := by
  refine ⟨forall₂_of_mapM_eq_ok, fun each => ?_⟩
  induction each with
  | nil => rfl
  | cons first _ ih =>
      rw [List.mapM_cons]
      exact bind_eq_ok_iff.2 ⟨_, first, bind_eq_ok_iff.2 ⟨_, ih, rfl⟩⟩

/-- The failure of a list is that of the first element which fails. -/
theorem mapM_eq_error_iff {f : α → Except ε β} {as : List α} {e : ε} :
    as.mapM f = .error e ↔
      ∃ before a after, as = before ++ a :: after ∧ (∀ x ∈ before, ∃ b, f x = .ok b) ∧ f a = .error e := by
  constructor
  · intro failed
    induction as with
    | nil => cases failed
    | cons a as ih =>
        rw [List.mapM_cons] at failed
        rcases bind_eq_error_iff.1 failed with here | ⟨b, taken, later⟩
        · exact ⟨[], a, as, rfl, by simp, here⟩
        · rcases bind_eq_error_iff.1 later with others | ⟨_, _, impossible⟩
          · obtain ⟨before, c, after, rfl, takenBefore, refused⟩ := ih others
            exact ⟨a :: before, c, after, rfl, List.forall_mem_cons.2 ⟨⟨b, taken⟩, takenBefore⟩, refused⟩
          · cases impossible
  · rintro ⟨before, a, after, rfl, taken, refused⟩
    induction before with
    | nil =>
        rw [List.nil_append, List.mapM_cons]
        exact bind_eq_error_iff.2 (.inl refused)
    | cons x before ih =>
        obtain ⟨⟨b, first⟩, others⟩ := List.forall_mem_cons.1 taken
        rw [List.cons_append, List.mapM_cons]
        exact bind_eq_error_iff.2 (.inr ⟨b, first, bind_eq_error_iff.2 (.inl (ih others))⟩)

end SmallScheme
