import SmallScheme.Proofs.WellFormedness

/-
Module: SmallScheme.Proofs.Encapsulation
Purpose: Which cells an evaluation can see. From a scope one reaches the cells of its names, the scopes that closures in
  reached cells have captured, and so on. An evaluation in that scope stays among what is reached at its start and
  what it makes itself: it leaves every other cell as it is, and does the same whatever the others hold. So the state
  inside a closure is hidden from all programs that do not reach it.
Main exports: Value.captures, ReachesScope, ReachesCell, Region, Region.Closed, Indistinguishable, encapsulation,
  eval_encapsulated
-/

namespace SmallScheme

open Value (Canonical WellFormed WellFormedOver RuntimeLeaf)

/-!
### Reaching
-/

namespace Value

mutual

/-- The scopes that the closures in a value have captured. -/
def captures : Value → List ScopeId
  | .closure _ _ _ s => [s]
  | .list items => capturesAll items
  | .dotted heads tail => capturesAll heads ++ captures tail
  | .bool _ | .num _ | .str _ | .sym _ | .prim _ | .port _ => []

/-- The scopes that the closures in a list of values have captured. -/
def capturesAll : List Value → List ScopeId
  | [] => []
  | v :: vs => captures v ++ capturesAll vs

end

mutual

/-- A well-formed value is well formed over the scopes it captures. -/
theorem wellFormedOver_of_captures {kind : ScopeId → Prop} :
    ∀ {v : Value}, WellFormed v → (∀ s ∈ captures v, kind s) → WellFormedOver kind v
  | .bool _, wellFormed, _ | .num _, wellFormed, _ | .str _, wellFormed, _ | .sym _, wellFormed, _
  | .prim _, wellFormed, _ | .port _, wellFormed, _ => wellFormed
  | .closure .., wellFormed, within => ⟨wellFormed.1, within _ (by simp [captures])⟩
  | .list items, wellFormed, within => builtAll_of_captures wellFormed within
  | .dotted heads tail, wellFormed, within => by
      rcases wellFormed with ⟨nonempty, headsFormed, plain, tailFormed⟩
      refine ⟨nonempty, builtAll_of_captures headsFormed fun s member => ?_, plain,
        wellFormedOver_of_captures tailFormed fun s member => ?_⟩
      · exact within s (List.mem_append_left _ member)
      · exact within s (List.mem_append_right _ member)

theorem builtAll_of_captures {kind : ScopeId → Prop} :
    ∀ {vs : List Value}, BuiltAll (RuntimeLeaf fun _ => True) vs → (∀ s ∈ capturesAll vs, kind s) →
      BuiltAll (RuntimeLeaf kind) vs
  | [], _, _ => trivial
  | _ :: _, wellFormed, within =>
      ⟨wellFormedOver_of_captures wellFormed.1 fun s member => within s (List.mem_append_left _ member),
        builtAll_of_captures wellFormed.2 fun s member => within s (List.mem_append_right _ member)⟩

end

end Value

mutual

/-- The scopes that can be reached from a scope. -/
inductive ReachesScope (h : Heap) (e : ScopeId) : ScopeId → Prop where
  | self : ReachesScope h e e
  | captured {c : CellId} {v : Value} {s : ScopeId} (reached : ReachesCell h e c) (content : h.cells[c]? = some v)
      (captures : s ∈ v.captures) : ReachesScope h e s

/-- The cells that can be reached from a scope. -/
inductive ReachesCell (h : Heap) (e : ScopeId) : CellId → Prop where
  | bound {s : ScopeId} {name : String} {c : CellId} (reached : ReachesScope h e s) (cell : h.cell? s name = some c) :
      ReachesCell h e c

end

/-- Some of the scopes and cells. -/
structure Region where
  scope : ScopeId → Prop
  cell : CellId → Prop

/-- A region is closed under reaching: the names of its scopes have cells of it, and what these hold has captured scopes of
    it alone. -/
structure Region.Closed (r : Region) (h : Heap) : Prop where
  bound : ∀ s, r.scope s → ∀ b ∈ (h.scope s).bindings, r.cell b.2
  captured : ∀ c v, r.cell c → h.cells[c]? = some v → ∀ s ∈ v.captures, r.scope s

namespace Region.Closed

variable {r : Region} {h : Heap} {e : ScopeId}

mutual

/-- What is reached from a scope of a closed region stays in it. -/
theorem scope_of_reaches (closed : r.Closed h) (within : r.scope e) {s : ScopeId} : ReachesScope h e s → r.scope s
  | .self => within
  | .captured reached content captures =>
      closed.captured _ _ (closed.cell_of_reaches within reached) content _ captures

theorem cell_of_reaches (closed : r.Closed h) (within : r.scope e) {c : CellId} : ReachesCell h e c → r.cell c
  | @ReachesCell.bound _ _ s name _ reached cell => by
      obtain ⟨before, after, split, _⟩ := List.lookup_eq_some_iff.1 cell
      exact closed.bound s (closed.scope_of_reaches within reached) (name, c) (by simp [split])

end

end Region.Closed

/-- What can be reached from a scope, and everything made from now on. -/
def Heap.reach (h : Heap) (e : ScopeId) : Region where
  scope s := ReachesScope h e s ∨ h.scopes.size ≤ s
  cell c := ReachesCell h e c ∨ h.cells.size ≤ c

/-!
### Two memories
-/

/-- Two memories that agree in a region, which is closed under reaching, and that still hold outside it what they held
    at first. -/
structure Indistinguishable (r : Region) (first other h k : Heap) : Prop where
  scopes_eq : k.scopes = h.scopes
  size_eq : k.cells.size = h.cells.size
  inside : ∀ c, r.cell c → k.cells[c]? = h.cells[c]?
  outside : ∀ c, ¬ r.cell c → h.cells[c]? = first.cells[c]? ∧ k.cells[c]? = other.cells[c]?
  contents : ∀ c v, r.cell c → h.cells[c]? = some v → WellFormedOver r.scope v
  bound : ∀ s name c, r.scope s → h.cell? s name = some c → r.cell c
  new_scope : ∀ s, h.scopes.size ≤ s → r.scope s
  new_cell : ∀ c, h.cells.size ≤ c → r.cell c

namespace Indistinguishable

variable {r : Region} {first other h k : Heap} {s : ScopeId} {name : String} {c : CellId} {v : Value}

theorem scope_eq (agree : Indistinguishable r first other h k) (s : ScopeId) : k.scope s = h.scope s := by
  simp only [Heap.scope, agree.scopes_eq]

theorem cell?_eq (agree : Indistinguishable r first other h k) (s : ScopeId) (name : String) :
    k.cell? s name = h.cell? s name :=
  Heap.cell?_congr (agree.scope_eq s) name

theorem lookup? (agree : Indistinguishable r first other h k) (held : r.scope s) (name : String) :
    k.lookup? s name = h.lookup? s name ∧ ∀ v, h.lookup? s name = some v → WellFormedOver r.scope v := by
  simp only [Heap.lookup?, agree.cell?_eq]
  cases cell : h.cell? s name with
  | none => simp
  | some c =>
      have within := agree.bound s name c held cell
      exact ⟨agree.inside c within, fun v content => agree.contents c v within content⟩

/-- Writing a value of the region into a cell of the region. -/
theorem write (agree : Indistinguishable r first other h k) (within : r.cell c) (value : WellFormedOver r.scope v) :
    Indistinguishable r first other (h.write c v) (k.write c v) where
  scopes_eq := agree.scopes_eq
  size_eq := by simpa using agree.size_eq
  inside d inside := by simp only [Heap.cells_write, agree.size_eq, agree.inside d inside]
  outside d outside := by
    have different : c ≠ d := fun same => outside (same ▸ within)
    simpa [Heap.cells_write, different] using agree.outside d outside
  contents d w inside content := by
    rw [Heap.cells_write] at content
    split at content
    · cases content
      exact value
    · exact agree.contents d w inside content
  bound := agree.bound
  new_scope := agree.new_scope
  new_cell d new := agree.new_cell d (by simpa using new)

/-- A new cell with a value of the region, if what is bound in the region stays in it. -/
theorem allocate (agree : Indistinguishable r first other h k) (value : WellFormedOver r.scope v) (scopes : Array Scope)
    (grows : h.scopes.size ≤ scopes.size)
    (bound : ∀ s name c, r.scope s → (Heap.mk (h.cells.push v) scopes).cell? s name = some c → r.cell c) :
    Indistinguishable r first other ⟨h.cells.push v, scopes⟩ ⟨k.cells.push v, scopes⟩ where
  scopes_eq := rfl
  size_eq := by simp [agree.size_eq]
  inside d inside := by simp only [Array.getElem?_push, agree.size_eq, agree.inside d inside]
  outside d outside := by
    have old : d ≠ h.cells.size := fun same => outside (agree.new_cell d (Nat.le_of_eq same.symm))
    simpa [Array.getElem?_push, agree.size_eq, old] using agree.outside d outside
  contents d w inside content := by
    rw [Array.getElem?_push] at content
    split at content
    · cases content
      exact value
    · exact agree.contents d w inside content
  bound := bound
  new_scope t new := agree.new_scope t (Nat.le_trans grows new)
  new_cell d new := agree.new_cell d (by simp only [Array.size_push] at new; omega)

/-- Defining a value of the region in a scope of the region: the cell written to is bound there, or it is new. -/
theorem define (agree : Indistinguishable r first other h k) (held : r.scope s) (value : WellFormedOver r.scope v)
    (name : String) : Indistinguishable r first other (h.define s name v) (k.define s name v) := by
  have sameOwned : k.ownedCell? s name = h.ownedCell? s name := by
    simp only [Heap.ownedCell?, agree.scope_eq, agree.cell?_eq]
  cases owned : h.ownedCell? s name with
  | some c =>
      rw [Heap.define_of_owned owned, Heap.define_of_owned (sameOwned.trans owned)]
      exact agree.write (agree.bound s name c held (Heap.cell?_of_ownedCell? owned).2) value
  | none =>
      have bound : ∀ t third c, r.scope t → (h.define s name v).cell? t third = some c → r.cell c := by
        intro t third c heldThere found
        rw [Heap.cell?_define_of_not_owned owned] at found
        split at found
        · cases found
          exact agree.new_cell _ (Nat.le_refl _)
        · exact agree.bound t third c heldThere found
      rw [Heap.define_of_not_owned owned] at bound ⊢
      rw [Heap.define_of_not_owned (sameOwned.trans owned), agree.size_eq, agree.scopes_eq]
      exact agree.allocate value _ (by simp) bound

theorem defineAll (agree : Indistinguishable r first other h k) (held : r.scope s)
    {bindings : List (String × Value)} (values : ∀ b ∈ bindings, WellFormedOver r.scope b.2) :
    Indistinguishable r first other (h.defineAll s bindings) (k.defineAll s bindings) := by
  induction bindings generalizing h k with
  | nil => exact agree
  | cons b bindings ih =>
      rcases List.forall_mem_cons.1 values with ⟨value, others⟩
      exact ih (agree.define held value b.1) others

/-- A copy of a scope of the region binds only cells of the region. -/
theorem addScope (agree : Indistinguishable r first other h k) (held : r.scope s) :
    Indistinguishable r first other (h.addScope { bindings := (h.scope s).bindings, owned := [] }).1
      (k.addScope { bindings := (k.scope s).bindings, owned := [] }).1 where
  scopes_eq := by simp only [Heap.addScope, agree.scopes_eq, agree.scope_eq]
  size_eq := agree.size_eq
  inside := agree.inside
  outside := agree.outside
  contents := agree.contents
  bound t name c heldThere found := by
    rcases Nat.lt_trichotomy t h.scopes.size with old | rfl | outside
    · rw [Heap.cell?_congr (Heap.scope_addScope_of_lt old _)] at found
      exact agree.bound t name c heldThere found
    · rw [Heap.cell?, Heap.scope_addScope_self] at found
      exact agree.bound s name c held found
    · have inside := Heap.lt_size_of_cell? found
      simp only [Heap.addScope, Array.size_push] at inside
      exact absurd outside (Nat.not_lt.2 (Nat.le_of_lt_succ inside))
  new_scope t new := agree.new_scope t (by simp only [Heap.addScope, Array.size_push] at new; omega)
  new_cell := agree.new_cell

theorem extend (agree : Indistinguishable r first other h k) (held : r.scope s) {bindings : List (String × Value)}
    (values : ∀ b ∈ bindings, WellFormedOver r.scope b.2) :
    Indistinguishable r first other (h.extend s bindings).1 (k.extend s bindings).1 := by
  have frame := agree.new_scope h.scopes.size (Nat.le_refl _)
  have sameNumber : k.scopes.size = h.scopes.size := congrArg Array.size agree.scopes_eq
  change Indistinguishable r first other
    ((h.addScope { bindings := (h.scope s).bindings, owned := [] }).1.defineAll h.scopes.size bindings)
    ((k.addScope { bindings := (k.scope s).bindings, owned := [] }).1.defineAll k.scopes.size bindings)
  rw [sameNumber]
  exact (agree.addScope held).defineAll frame values

end Indistinguishable

/-- Programs are data, values capture scopes of a region alone, evaluation takes place there, and the two memories do not
    differ there. -/
def encapsulation (r : Region) (first other : Heap) : Discipline where
  toKinds := .wellFormedOver r.scope
  states := OnHeap (Indistinguishable r first other)
  world := keepsWorld_onHeap _
  lookup? related held name := related.1.lookup? held name
  cell? related _ name := related.1.cell?_eq _ name
  write related held found value := related.update (related.1.write (related.1.bound _ _ _ held found) value)
  define related held value name := related.update (related.1.define held value name)
  extend related closure values :=
    ⟨congrArg Array.size related.1.scopes_eq, related.1.new_scope _ (Nat.le_refl _),
      related.update (related.1.extend closure.2 values)⟩
  operation related values op :=
    ⟨op.call_congr (sameScope_of_scopes_eq related.1.scopes_eq) _, fun _ called => op.wellFormedOver_of_call values called⟩

/-- At the start of an evaluation, memories that agree on the cells it reaches are indistinguishable to it. -/
theorem indistinguishable_of_agree {h : Heap} (wellFormed : h.WellFormed) (e : ScopeId) {cells : Array Value}
    (size : cells.size = h.cells.size) (agree : ∀ c, ReachesCell h e c → cells[c]? = h.cells[c]?) :
    Indistinguishable (h.reach e) h { h with cells } h { h with cells } where
  scopes_eq := rfl
  size_eq := size
  inside c within := by
    rcases within with reached | new
    · exact agree c reached
    · rw [Array.getElem?_eq_none new, Array.getElem?_eq_none (Nat.le_trans (Nat.le_of_eq size) new)]
  outside _ _ := ⟨rfl, rfl⟩
  contents c v within content := by
    rcases within with reached | new
    · apply Value.wellFormedOver_of_captures (wellFormed v (Array.mem_of_getElem? content))
      intro s captures
      exact .inl (.captured reached content captures)
    · rw [Array.getElem?_eq_none new] at content
      cases content
  bound s name c held found := by
    rcases held with reached | new
    · exact .inl (.bound reached found)
    · exact absurd (Heap.lt_size_of_cell? found) (Nat.not_lt.2 new)
  new_scope _ new := .inr new
  new_cell _ new := .inr new

/-- The state with other contents of its cells. -/
def Interpreter.withCells (i : Interpreter) (cells : Array Value) : Interpreter :=
  { i with heap := { i.heap with cells } }

/-- Two states that are the same but for the contents of cells that were there at first and could not be reached. -/
structure SameWhereReached (e : ScopeId) (first : Heap) (i j : Interpreter) : Prop where
  same : j = i.withCells j.heap.cells
  size : j.heap.cells.size = i.heap.cells.size
  cells : ∀ c, ReachesCell first e c ∨ first.cells.size ≤ c → j.heap.cells[c]? = i.heap.cells[c]?

/-- Encapsulation: in every reachable state, evaluating data in a scope leaves every cell as it is that was there before
    and is not reached from the scope; and with any other contents of such cells it ends alike, with the same value or
    fault, and in the same state but for those cells. -/
theorem eval_encapsulated {i : Interpreter} (reachable : Reachable i) {expr : Value} (data : expr.Canonical)
    (depth : Nat) (e : ScopeId) :
    (∀ c, c < i.heap.cells.size → ¬ ReachesCell i.heap e c →
      (Ending.state (eval depth e expr i)).heap.cells[c]? = i.heap.cells[c]?) ∧
    ∀ cells : Array Value, cells.size = i.heap.cells.size →
      (∀ c, ReachesCell i.heap e c → cells[c]? = i.heap.cells[c]?) →
      Alike (SameWhereReached e i.heap) (fun _ => True) (eval depth e expr i)
        (eval depth e expr (i.withCells cells)) := by
  have runs : ∀ cells : Array Value, cells.size = i.heap.cells.size →
      (∀ c, ReachesCell i.heap e c → cells[c]? = i.heap.cells[c]?) →
      Alike (OnHeap (Indistinguishable (i.heap.reach e) i.heap { i.heap with cells }))
        (WellFormedOver (i.heap.reach e).scope) (eval depth e expr i) (eval depth e expr (i.withCells cells)) := by
    intro cells size agree
    have start := indistinguishable_of_agree (heap_wellFormed_of_reachable reachable) e size agree
    exact (encapsulation (i.heap.reach e) _ _).eval depth (.inl .self) data i (i.withCells cells) ⟨start, rfl⟩
  constructor
  · intro c old unreached
    have after := (runs i.heap.cells rfl fun _ _ => rfl).related.1
    refine (after.outside c ?_).1
    rintro (reached | new)
    · exact unreached reached
    · exact absurd old (Nat.not_lt.2 new)
  · intro cells size agree
    refine (runs cells size agree).mono (fun j k related => ?_) fun _ _ => trivial
    rcases related with ⟨indistinguishable, same⟩
    have memory : k.heap = ⟨k.heap.cells, j.heap.scopes⟩ := by rw [← indistinguishable.scopes_eq]
    refine ⟨same.trans ?_, indistinguishable.size_eq, indistinguishable.inside⟩
    exact congrArg (fun heap => { j with heap }) memory

/-- A program that makes two counters, each of which keeps its count in a frame of its own. -/
def countersProgram : String :=
  "(define counters (cons ((lambda (n) (lambda () (set! n (+ n 1)))) 10) ((lambda (n) (lambda () (set! n (+ n 1)))) 20)))"

/-- The state after it. The frames are the scopes 1 and 2, and the counts are in the cells 35 and 36. -/
def countersSample : Interpreter :=
  Ending.state ((Request.eval countersProgram.toList).perform (Interpreter.initial {} {} []))

/-- What a counter does in its frame. -/
def countingForm : Value :=
  .list [.sym "set!", .sym "n", .list [.sym "+", .sym "n", .num 1]]

/-- The frame of the first counter and the cells that its names have. -/
def firstCounterRegion : Region where
  scope s := s = 1
  cell c := c < 36

set_option maxRecDepth 4000 in
/-- The closures are what the counters are, and what is in the region is one scope, its cells and built-in procedures. -/
theorem memory_countersSample :
    let h := countersSample.heap
    h.lookup? root "counters" =
        some (.dotted [.closure [] none [countingForm] 1] (.closure [] none [countingForm] 2)) ∧
      h.cell? 2 "n" = some 36 ∧ h.cells[36]? = some (.num 20) ∧
      (∀ b ∈ (h.scope 1).bindings, b.2 < 36) ∧ ∀ v ∈ h.cells.toList.take 36, v.captures = [] := by
  decide +kernel

/-- The first counter does not reach the count of the second. -/
theorem closed_firstCounterRegion : firstCounterRegion.Closed countersSample.heap := by
  obtain ⟨_, _, _, bound, plain⟩ := memory_countersSample
  refine ⟨fun s within => within ▸ bound, fun c v within content s captures => ?_⟩
  have held : v ∈ countersSample.heap.cells.toList.take 36 :=
    List.mem_of_getElem? (by rw [List.getElem?_take_of_lt within, Array.getElem?_toList, content])
  simp [plain v held] at captures

/-- The counts as they would be if the second were 99. -/
def otherCounts : Array Value :=
  countersSample.heap.cells.setIfInBounds 36 (.num 99)

theorem eval_encapsulated_countersSample :
    Reachable countersSample ∧ countingForm.Canonical ∧
      countersSample.heap.lookup? root "counters" =
        some (.dotted [.closure [] none [countingForm] 1] (.closure [] none [countingForm] 2)) ∧
      countersSample.heap.cell? 2 "n" = some 36 ∧ countersSample.heap.cells[36]? = some (.num 20) ∧
      otherCounts[36]? = some (.num 99) ∧ ¬ ReachesCell countersSample.heap 1 36 ∧
      (Ending.state (eval 3 1 countingForm countersSample)).heap.lookup? 1 "n" = some (.num 11) ∧
      (Ending.state (eval 3 1 countingForm countersSample)).heap.cells[36]? = countersSample.heap.cells[36]? ∧
      Alike (SameWhereReached 1 countersSample.heap) (fun _ => True) (eval 3 1 countingForm countersSample)
        (eval 3 1 countingForm (countersSample.withCells otherCounts)) := by
  have reachable : Reachable countersSample := .call _ (reachable_initial {} {} [])
  have data : countingForm.Canonical := by decide
  obtain ⟨counters, second, count, _⟩ := memory_countersSample
  obtain ⟨inBounds, _⟩ := Array.getElem?_eq_some_iff.1 count
  have within : ∀ c, ReachesCell countersSample.heap 1 c → c < 36 :=
    fun c => closed_firstCounterRegion.cell_of_reaches rfl
  have unreached : ¬ ReachesCell countersSample.heap 1 36 := fun reached => absurd (within 36 reached) (Nat.lt_irrefl 36)
  have agree : ∀ c, ReachesCell countersSample.heap 1 c → otherCounts[c]? = countersSample.heap.cells[c]? :=
    fun c reached => Array.getElem?_setIfInBounds_ne (Nat.ne_of_gt (within c reached))
  have counted : (Ending.state (eval 3 1 countingForm countersSample)).heap.lookup? 1 "n" = some (.num 11) := by
    decide +kernel
  obtain ⟨kept, alike⟩ := eval_encapsulated reachable data 3 1
  exact ⟨reachable, data, counters, second, count, Array.getElem?_setIfInBounds_self_of_lt inBounds, unreached, counted,
    kept 36 inBounds unreached, alike otherCounts Array.size_setIfInBounds agree⟩

end SmallScheme
