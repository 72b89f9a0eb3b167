import SmallScheme.Proofs.Associations
import SmallScheme.Proofs.Extension
import SmallScheme.Proofs.Settling

/-
Module: SmallScheme.Proofs.Frames
Purpose: Calls that let the memory grow. A call of a closure whose parameters are different makes a frame, in which the
  parameters have the arguments as their values and all other names the values they have in the scope of the closure; to
  make it lets the memory grow. Any application that leaves the cells there are unchanged does, since it cannot change a
  scope.
Main exports: OnlyGrew, IsFrame, AppliesTo.exists_frame, Steady
-/

namespace SmallScheme

/-- Nothing has happened but that the memory has grown. -/
def OnlyGrew (i j : Interpreter) : Prop :=
  OnHeap Heap.GrowsTo i j

theorem OnlyGrew.refl (i : Interpreter) : OnlyGrew i i :=
  ⟨.refl _, rfl⟩

theorem OnlyGrew.trans {i j k : Interpreter} (first : OnlyGrew i j) (second : OnlyGrew j k) : OnlyGrew i k :=
  ⟨first.1.trans second.1, by rw [second.2, first.2]⟩

/-- A scope of a later memory is a frame made of a scope with some bindings: the names that are bound have their values in
    it, and all others have those they have in the other scope. -/
structure IsFrame (h : Heap) (s : ScopeId) (bindings : List (String × Value)) (k : Heap) (frame : ScopeId) : Prop where
  grows : h.GrowsTo k
  bound : bindings.Forall fun b => k.lookup? frame b.1 = some b.2
  outer : ∀ {name v}, name ∉ bindings.map (·.1) → h.lookup? s name = some v → k.lookup? frame name = some v

/-- A frame made later of the same scope is one. -/
theorem IsFrame.of_later {h i k : Heap} {s frame : ScopeId} {bindings : List (String × Value)}
    (isFrame : IsFrame i s bindings k frame) (later : h.GrowsTo i) : IsFrame h s bindings k frame where
  grows := later.trans isFrame.grows
  bound := isFrame.bound
  outer foreign found := isFrame.outer foreign (later.lookup? found)

/-- An extension of a scope by names that are bound once is a frame. -/
theorem isFrame_extend (h : Heap) (s : ScopeId) {bindings : List (String × Value)}
    (once : (bindings.map (·.1)).Nodup) : IsFrame h s bindings (h.extend s bindings).1 h.scopes.size := by
  have made := h.makesFrame_extend s bindings
  refine ⟨made.grows, List.forall_iff_forall_mem.2 fun b member => ?_, fun {name v} foreign found => ?_⟩
  · obtain ⟨c, owned, _, holds⟩ := made.bound (lastValue?_of_mem once member)
    rw [Heap.lookup?, (Heap.cell?_of_ownedCell? owned).2, Option.bind_some, holds]
  · obtain ⟨c, associated, holds⟩ := Option.bind_eq_some_iff.1 found
    have inside : c < h.cells.size := (Array.getElem?_eq_some_iff.1 holds).1
    have inherited := (made.unbound (lastValue?_eq_none_iff.2 foreign)).2
    rw [Heap.lookup?, inherited, associated, Option.bind_some, made.grows.cells c inside, holds]

/-- The names that a call binds are those of the parameters. -/
theorem names_frameBindings {params : List String} {rest? : Option String} {args : List Value}
    (count : fits params rest? args.length = true) :
    (frameBindings params rest? args).map (·.1) = params ++ rest?.toList := by
  have enough : params.length ≤ args.length := by
    unfold fits at count
    split at count
    · exact of_decide_eq_true count
    · exact Nat.le_of_eq (of_decide_eq_true count).symm
  cases rest? <;> simp [frameBindings, List.map_fst_zip enough]

/-- A name that is no parameter has in the frame the value that it has in the scope. -/
theorem IsFrame.outer_of_params {h k : Heap} {s frame : ScopeId} {params : List String} {rest? : Option String}
    {args : List Value} {name : String} {v : Value}
    (isFrame : IsFrame h s (frameBindings params rest? args) k frame) (count : fits params rest? args.length = true)
    (foreign : name ∉ params ++ rest?.toList) (found : h.lookup? s name = some v) : k.lookup? frame name = some v :=
  isFrame.outer (by rwa [names_frameBindings count]) found

namespace AppliesTo

variable {f : Value} {args : List Value} {i : Interpreter} {ending : Ending Value}

/-- The application of a closure with one form in its body is the evaluation of the form in a frame. -/
theorem exists_frame (params : List String) (rest? : Option String) (s : ScopeId) (args : List Value)
    (count : fits params rest? args.length = true) (once : (params ++ rest?.toList).Nodup) (i : Interpreter) :
    ∃ j frame, OnlyGrew i j ∧ IsFrame i.heap s (frameBindings params rest? args) j.heap frame ∧
      ∀ form ending, EvaluatesTo frame form j ending → AppliesTo (.closure params rest? [form] s) args i ending := by
  have isFrame := isFrame_extend i.heap s (names_frameBindings count ▸ once)
  exact ⟨_, _, ⟨isFrame.grows, rfl⟩, isFrame, fun form ending body => AppliesTo.closure count body⟩

/-- An application that leaves the cells there are unchanged lets the memory grow, since no call changes a scope there
    is. -/
theorem growsTo (applies : AppliesTo f args i ending)
    (kept : ∀ c, c < i.heap.cells.size → (Ending.state ending).heap.cells[c]? = i.heap.cells[c]?) :
    i.heap.GrowsTo (Ending.state ending).heap := by
  obtain ⟨depth, rfl⟩ := applies.exists_apply
  let keeping := associationKeeping i.heap.scopes.size i.heap
  have respects : Respects keeping.discipline.states keeping.value (apply depth f args) :=
    keeping.discipline.apply depth trivial fun _ _ => trivial
  have changes := (MemoryInvariant.holds_of_respects respects (.refl _ i.heap)).1
  exact ⟨changes.scopes_le, kept, fun s old => changes.others s old (Nat.ne_of_lt old)⟩

end AppliesTo

/-- In a memory and in all later ones, the applications of a value to arguments of a kind end and leave the cells there
    are unchanged. -/
def Steady (f : Value) (kind : List Value → Prop) (h : Heap) : Prop :=
  ∀ i : Interpreter, h.GrowsTo i.heap → ∀ args, kind args →
    ∃ ending, AppliesTo f args i ending ∧
      ∀ c, c < i.heap.cells.size → (Ending.state ending).heap.cells[c]? = i.heap.cells[c]?

namespace Steady

variable {f : Value} {kind narrower : List Value → Prop} {h k : Heap}

theorem mono (steady : Steady f kind h) (grows : h.GrowsTo k) : Steady f kind k :=
  fun i later => steady i (grows.trans later)

theorem narrow (steady : Steady f kind h) (narrows : ∀ args, narrower args → kind args) : Steady f narrower h :=
  fun i later args allowed => steady i later args (narrows args allowed)

/-- A built-in procedure that only computes leaves the state as it is. -/
theorem operation (op : Operation) (kind : List Value → Prop) (h : Heap) : Steady (.prim (.operation op)) kind h := by
  intro i _ args _
  cases called : op.call i.heap args with
  | ok v => exact ⟨_, .operation called, fun _ _ => rfl⟩
  | error fault => exact ⟨_, .operation_error called, fun _ _ => rfl⟩

/-- The applications of a steady value let the memory grow. -/
theorem exists_ending (steady : Steady f kind h) (args : List Value) (allowed : kind args) {i : Interpreter}
    (later : h.GrowsTo i.heap) :
    ∃ ending, AppliesTo f args i ending ∧ i.heap.GrowsTo (Ending.state ending).heap := by
  obtain ⟨ending, applies, kept⟩ := steady i later args allowed
  exact ⟨ending, applies, applies.growsTo kept⟩

end Steady

end SmallScheme
