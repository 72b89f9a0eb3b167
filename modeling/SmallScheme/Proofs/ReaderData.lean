import SmallScheme.Proofs.Grammar
import SmallScheme.Reader

/-
Module: SmallScheme.Proofs.ReaderData
Purpose: The reader produces canonical data only. Every value that the reader holds while it reads, in an open list or
  before a dot, is canonical; a token keeps this and a finished value is canonical too. It holds of every text, also
  of one that is refused in the end.
Main exports: State.HoldsData, Step.holdsData_of_step, read_canonical, readAll_canonical
-/

namespace SmallScheme

namespace Reader

open Value (Canonical)

/-- All values that an open frame holds are canonical, and before a dot there is at least one. -/
def Frame.HoldsData : Frame → Prop
  | .quote => True
  | .items _ before => ∀ v ∈ before, Canonical v
  | .tail heads => heads ≠ [] ∧ ∀ v ∈ heads, Canonical v

/-- All values that the reader holds are canonical. -/
def State.HoldsData : State → Prop
  | .reading stack => ∀ frame ∈ stack, frame.HoldsData
  | .closing heads tail stack =>
      heads ≠ [] ∧ (∀ v ∈ heads, Canonical v) ∧ Canonical tail ∧ ∀ frame ∈ stack, frame.HoldsData

/-- What a token leads to is canonical. -/
def Step.HoldsData : Step → Prop
  | .more state => state.HoldsData
  | .finished v => Canonical v

theorem canonical_quotation {v : Value} (data : Canonical v) : Canonical (quotation v) := by
  refine Value.built_list.2 ?_
  rintro w (_ | ⟨_, _ | ⟨_, ⟨⟩⟩⟩)
  · change SymbolWord "quote".toList
    decide
  · exact data

/-- A word or a string is a leaf of data. -/
theorem canonical_of_wordDenotes {chars : List Char} {v : Value} (denotes : WordDenotes chars v) : Canonical v := by
  cases denotes with
  | truth | falsity => trivial
  | number written short fits => exact fits
  | symbol word =>
      change SymbolWord (String.ofList chars).toList
      rwa [String.toList_ofList]

theorem deliver_holdsData {v : Value} {stack : List Frame} (data : Canonical v)
    (held : ∀ frame ∈ stack, frame.HoldsData) : (deliver v stack).HoldsData := by
  induction stack generalizing v with
  | nil => exact data
  | cons frame stack ih =>
      rcases List.forall_mem_cons.1 held with ⟨top, others⟩
      cases frame with
      | quote => exact ih (canonical_quotation data) others
      | items opened before =>
          exact List.forall_mem_cons.2 ⟨List.forall_mem_cons.2 ⟨data, top⟩, others⟩
      | tail heads => exact ⟨top.1, top.2, data, others⟩

/-- A token that is taken keeps everything canonical. -/
theorem Step.holdsData_of_step {state : State} {t : Token} {step : Step} (held : state.HoldsData)
    (taken : state.step t = .ok step) : step.HoldsData := by
  cases step_eq_ok_iff.1 taken with
  | word lexeme denotes => exact deliver_holdsData (canonical_of_wordDenotes denotes) held
  | string lexeme denotes => exact deliver_holdsData trivial held
  | quote lexeme => exact List.forall_mem_cons.2 ⟨trivial, held⟩
  | openParen lexeme => exact List.forall_mem_cons.2 ⟨by simp [Frame.HoldsData], held⟩
  | closeItems lexeme =>
      rcases List.forall_mem_cons.1 held with ⟨top, others⟩
      exact deliver_holdsData (Value.built_list.2 fun v member => top v (List.mem_reverse.1 member)) others
  | dot lexeme nonempty =>
      rcases List.forall_mem_cons.1 held with ⟨top, others⟩
      refine List.forall_mem_cons.2 ⟨⟨?_, fun v member => top v (List.mem_reverse.1 member)⟩, others⟩
      exact fun empty => nonempty (List.reverse_eq_nil_iff.1 empty)
  | closeTail lexeme =>
      rcases held with ⟨nonempty, headsData, tailData, others⟩
      exact deliver_holdsData (Value.Built.joinTail nonempty headsData tailData) others

theorem canonical_of_run {state : State} {ts rest : List Token} {v : Value} (held : state.HoldsData)
    (finished : run state ts = (.ok v, rest)) : Canonical v := by
  induction ts generalizing state with
  | nil => simp [run] at finished
  | cons t ts ih =>
      rw [run] at finished
      split at finished
      · rename_i w taken
        cases finished
        exact Step.holdsData_of_step held taken
      · rename_i next taken
        exact ih (Step.holdsData_of_step held taken) finished
      · cases finished

/-- All values of a program read so far are canonical. -/
def Progress.HoldsData (p : Progress) : Prop :=
  p.state.HoldsData ∧ ∀ v ∈ p.forms, Canonical v

theorem holdsData_initial : (State.reading []).HoldsData :=
  fun _ member => absurd member List.not_mem_nil

theorem Progress.holdsData_of_push {before after : Progress} {t : Token} (held : before.HoldsData)
    (pushed : before.push t = .ok after) : after.HoldsData := by
  rcases held with ⟨stateData, formsData⟩
  unfold Progress.push at pushed
  split at pushed <;> cases pushed
  · rename_i step
    exact ⟨Step.holdsData_of_step stateData step, formsData⟩
  · rename_i step
    have finishedData := Step.holdsData_of_step stateData step
    exact ⟨holdsData_initial, List.forall_mem_cons.2 ⟨finishedData, formsData⟩⟩

/-- All values of a program are canonical. -/
theorem canonical_of_parseAll {ts : List Token} {vs : List Value} (parsed : parseAll ts = .ok vs) :
    ∀ v ∈ vs, Canonical v := by
  rcases bind_eq_ok_iff.1 parsed with ⟨progress, taken, finished⟩
  have start : Progress.HoldsData {} := ⟨holdsData_initial, fun _ member => absurd member List.not_mem_nil⟩
  have held : progress.HoldsData :=
    of_foldlM_eq_ok (fun _ _ _ => Progress.holdsData_of_push) start taken
  unfold Progress.finish at finished
  split at finished <;> cases finished
  exact fun v member => held.2 v (List.mem_reverse.1 member)

end Reader

/-- A value that is read is canonical. -/
theorem read_canonical {source : List Char} {v : Value} (success : read source = .ok v) : v.Canonical := by
  rcases bind_eq_ok_iff.1 success with ⟨tokens, _, parsed⟩
  split at parsed
  · cases parsed
  · rename_i w finished
    cases parsed
    exact Reader.canonical_of_run Reader.holdsData_initial finished
  · cases parsed

/-- All values of a text that is read are canonical. -/
theorem readAll_canonical {source : List Char} {vs : List Value} (success : readAll source = .ok vs) :
    ∀ v ∈ vs, v.Canonical := by
  rcases bind_eq_ok_iff.1 success with ⟨tokens, _, parsed⟩
  split at parsed
  · cases parsed
  · rename_i ws finished
    cases parsed
    exact Reader.canonical_of_parseAll finished

end SmallScheme
