import SmallScheme.Proofs.Ownership

/-
Module: SmallScheme.Proofs.LexicalScoping
Purpose: Copied scopes against linked ones. In the usual account of lexical scoping a scope holds its own bindings and a
  link to the scope around it, and a name stands for the nearest binding along the links. Scopes that copy associations
  answer all calls in the same way as long as no scope gains a name after it was extended: the cell that a copy has for a
  name is then the cell of the nearest scope along the links that owns the name. A name gained later would be seen through
  a link, but not in a copy.
Main exports: LinkedScopes, LinkedScopes.holder?, ScopeCall.performLinked, Settled, Resolves, Resolves.cell?,
  resolves_replay, answers_eq_linked
-/

namespace SmallScheme

/-!
### Linked scopes
-/

/-- Scopes with their own bindings. Each may have a link to an older scope. -/
structure LinkedScopes where
  count : Nat := 0
  outer? : (s : ScopeId) → Option (Fin s) := fun _ => none
  own : ScopeId → String → Option Value := fun _ _ => none

namespace LinkedScopes

/-- The nearest scope along the links that has a binding of its own for a name. -/
def holder? (m : LinkedScopes) (name : String) (s : ScopeId) : Option ScopeId :=
  if (m.own s name).isSome then some s
  else
    match m.outer? s with
    | some outer => m.holder? name outer
    | none => none
termination_by s

/-- The value of a name. -/
def lookup? (m : LinkedScopes) (s : ScopeId) (name : String) : Option Value :=
  (m.holder? name s).bind (m.own · name)

/-- The nearest scope with a binding of its own has one. -/
theorem isSome_own_of_holder? {m : LinkedScopes} {name : String} {s t : ScopeId} (nearest : m.holder? name s = some t) :
    (m.own t name).isSome := by
  fun_induction holder? m name s with
  | case1 s holds =>
      cases nearest
      exact holds
  | case2 s _ outer _ ih => exact ih nearest
  | case3 => cases nearest

/-- Binds a name in a scope itself. -/
def bind (m : LinkedScopes) (s : ScopeId) (name : String) (v : Value) : LinkedScopes :=
  { m with own := fun t other => if t = s ∧ other = name then some v else m.own t other }

/-- Binds several names, one after the other. -/
def bindAll (m : LinkedScopes) (s : ScopeId) (bindings : List (String × Value)) : LinkedScopes :=
  bindings.foldl (fun m b => m.bind s b.1 b.2) m

/-- Adds a scope, with a link to a scope if that is there. -/
def add (m : LinkedScopes) (outer? : Option ScopeId) : LinkedScopes :=
  { m with
    count := m.count + 1
    outer? := fun s =>
      if s = m.count then outer?.bind fun outer => if older : outer < s then some ⟨outer, older⟩ else none
      else m.outer? s }

end LinkedScopes

/-- Performs a call on linked scopes, and gives the value it returns if it returns one. -/
def ScopeCall.performLinked : ScopeCall → EStateM Fault LinkedScopes (Option Value)
  | .create bindings => do
    modify fun m => (m.add none).bindAll m.count bindings
    return none
  | .extend s bindings => do
    modify fun m => (m.add (some s)).bindAll m.count bindings
    return none
  | .define s name v => do
    modify (·.bind s name v)
    return some v
  | .update s bindings => do
    modify (·.bindAll s bindings)
    return none
  | .assign s name v => do
    match (← get).holder? name s with
    | some holder =>
      modify (·.bind holder name v)
      return some v
    | none => throw (.unboundWrite name)
  | .lookup s name => do
    match (← get).lookup? s name with
    | some v => return some v
    | none => throw (.unboundRead name)

/-!
### Scopes that are settled
-/

/-- The names that a call defines in scopes that were there before. -/
def ScopeCall.defined : ScopeCall → List (ScopeId × String)
  | .define s name _ => [(s, name)]
  | .update s bindings => bindings.map fun b => (s, b.1)
  | _ => []

/-- The scopes that were extended. -/
def extendedScopes (history : List ScopeCall) : List ScopeId :=
  history.filterMap fun
    | .extend s _ => some s
    | _ => none

/-- In a scope that had been extended only names were defined that it already owned. -/
def Settled : List ScopeCall → Prop
  | [] => True
  | call :: earlier =>
    (∀ d ∈ call.defined, d.1 ∈ extendedScopes earlier → d.2 ∈ ((memory earlier).scope d.1).owned) ∧ Settled earlier

instance decidableSettled : (history : List ScopeCall) → Decidable (Settled history)
  | [] => inferInstanceAs (Decidable True)
  | _ :: earlier =>
    have := decidableSettled earlier
    inferInstanceAs (Decidable (_ ∧ _))

/-!
### The same resolution

The two kinds of scopes correspond if the own bindings of a linked scope are the contents of the cells that the copied one
owns, and if for any other name a copied scope has the cell of the scope that it is linked to.
-/

/-- The linked scopes hold what the copied ones own, and resolve all other names as the copied ones do. -/
structure Resolves (extended : ScopeId → Prop) (h : Heap) (m : LinkedScopes) : Prop where
  count : m.count = h.scopes.size
  own : ∀ s name, m.own s name = (h.ownedCell? s name).bind (h.cells[·]?)
  inherits : ∀ s, s < h.scopes.size → ∀ name, h.ownedCell? s name = none →
    h.cell? s name = (m.outer? s).bind fun outer => h.cell? outer name
  links : ∀ s outer, m.outer? s = some outer → extended outer

/-- No scope is linked to this one. -/
def LinkedScopes.Innermost (m : LinkedScopes) (s : ScopeId) : Prop :=
  ∀ t, t < m.count → ∀ outer, m.outer? t = some outer → outer.val ≠ s

namespace Resolves

variable {reaches : ScopeId → ScopeId → Prop} {extended wider : ScopeId → Prop} {h : Heap} {m : LinkedScopes}
  {s : ScopeId} {name : String} {v : Value}

theorem empty : Resolves extended {} {} where
  count := rfl
  own _ _ := rfl
  inherits s there := absurd there (Nat.not_lt_zero s)
  links _ _ linked := nomatch linked

theorem mono (resolves : Resolves extended h m) (widens : ∀ s, extended s → wider s) : Resolves wider h m where
  count := resolves.count
  own := resolves.own
  inherits := resolves.inherits
  links s outer linked := widens outer (resolves.links s outer linked)

/-- A scope has its own binding for a name exactly if the copied scope owns it. -/
theorem isSome_own (resolves : Resolves extended h m) (held : h.Ownership reaches) (s : ScopeId) (name : String) :
    (m.own s name).isSome = (h.ownedCell? s name).isSome := by
  rw [resolves.own]
  cases owned : h.ownedCell? s name with
  | none => rfl
  | some c =>
      have inside := held.inside s name c (Heap.cell?_of_ownedCell? owned).2
      simp [inside]

/-- The cell of a name in a copied scope is the one that the nearest linked scope with the name owns. The induction is on
    the scope, as links lead to older ones. -/
theorem cell? (resolves : Resolves extended h m) (held : h.Ownership reaches) (there : s < h.scopes.size)
    (name : String) : h.cell? s name = (m.holder? name s).bind (h.ownedCell? · name) := by
  induction s using Nat.strongRecOn with
  | ind s ih =>
      rw [LinkedScopes.holder?, resolves.isSome_own held]
      cases owned : h.ownedCell? s name with
      | some c =>
          simp only [Option.isSome_some, if_true, Option.bind_some, owned]
          exact (Heap.cell?_of_ownedCell? owned).2
      | none =>
          simp only [Option.isSome_none, Bool.false_eq_true, if_false]
          rw [resolves.inherits s there name owned]
          cases m.outer? s with
          | none => rfl
          | some outer => exact ih outer outer.isLt (Nat.lt_trans outer.isLt there)

theorem lookup? (resolves : Resolves extended h m) (held : h.Ownership reaches) (there : s < h.scopes.size)
    (name : String) : h.lookup? s name = m.lookup? s name := by
  rw [Heap.lookup?, LinkedScopes.lookup?, resolves.cell? held there]
  cases m.holder? name s with
  | none => rfl
  | some holder => exact (resolves.own holder name).symm

/-- To write into the cell that a scope owns is to bind the name in the linked scope. -/
theorem write (resolves : Resolves extended h m) (held : h.Ownership reaches)
    (antisymmetric : ∀ s t, reaches s t → reaches t s → s = t) {c : CellId} (owns : h.ownedCell? s name = some c) :
    Resolves extended (h.write c v) (m.bind s name v) where
  count := resolves.count
  own t other := by
    change (if t = s ∧ other = name then some v else m.own t other) = (h.ownedCell? t other).bind _
    rw [resolves.own]
    by_cases here : t = s ∧ other = name
    · obtain ⟨rfl, rfl⟩ := here
      have inside := held.inside t other c (Heap.cell?_of_ownedCell? owns).2
      simp [owns, Heap.cells_write, inside]
    · rw [if_neg here]
      cases owned : h.ownedCell? t other with
      | none => rfl
      | some d =>
          have differ : c ≠ d := by
            intro same
            subst same
            exact here (held.unique antisymmetric owned owns)
          simp [Heap.cells_write, differ]
  inherits := resolves.inherits
  links := resolves.links

/-- A new name is a binding in the linked scope, if no scope is linked to that. -/
theorem defineNew (resolves : Resolves extended h m) (held : h.Ownership reaches) (there : s < h.scopes.size)
    (inherited : h.ownedCell? s name = none) (innermost : m.Innermost s) :
    Resolves extended (h.define s name v) (m.bind s name v) where
  count := by
    rw [Heap.size_scopes_define, ← resolves.count]
    rfl
  own t other := by
    change (if t = s ∧ other = name then some v else m.own t other) = _
    rw [Heap.ownedCell?_define_of_not_owned inherited, resolves.own, Heap.define_of_not_owned inherited]
    by_cases here : t = s ∧ other = name
    · rw [if_pos here, if_pos ⟨⟨here.1, there⟩, here.2⟩]
      simp
    · rw [if_neg here, if_neg fun new => here ⟨new.1.1, new.2⟩]
      cases owned : h.ownedCell? t other with
      | none => rfl
      | some d =>
          have old := held.inside t other d (Heap.cell?_of_ownedCell? owned).2
          simp [Array.getElem?_push, Nat.ne_of_lt old]
  inherits t inside other unowned := by
    rw [Heap.size_scopes_define] at inside
    rw [Heap.ownedCell?_define_of_not_owned inherited] at unowned
    rw [Heap.cell?_define_of_not_owned inherited]
    split at unowned
    · cases unowned
    · rename_i old
      rw [if_neg old, resolves.inherits t inside other unowned]
      -- The scope that this one is linked to is another than that of the definition.
      cases linked : m.outer? t with
      | none => simp [LinkedScopes.bind, linked]
      | some outer =>
          have differ := innermost t (resolves.count ▸ inside) outer linked
          simp [LinkedScopes.bind, linked, Heap.cell?_define_of_not_owned inherited, differ]
  links := resolves.links

/-- A definition is a binding in the linked scope, if no scope is linked to that or if the name is no new one. -/
theorem define (resolves : Resolves extended h m) (held : h.Ownership reaches)
    (antisymmetric : ∀ s t, reaches s t → reaches t s → s = t) (there : s < h.scopes.size)
    (settled : m.Innermost s ∨ name ∈ (h.scope s).owned) : Resolves extended (h.define s name v) (m.bind s name v) := by
  cases owned : h.ownedCell? s name with
  | some c =>
      rw [Heap.define_of_owned owned]
      exact resolves.write held antisymmetric owned
  | none =>
      apply resolves.defineNew held there owned
      apply settled.resolve_right
      intro listed
      obtain ⟨c, found⟩ := held.bound s name listed
      rw [Heap.ownedCell?_of_mem listed, found] at owned
      cases owned

/-- Adding a scope that copies another is adding one that is linked to it. -/
theorem add (resolves : Resolves extended h m) {new : Scope} {outer? : Option ScopeId} (disowning : new.owned = [])
    (copies : ∀ name, new.cell? name = outer?.bind fun outer => h.cell? outer name)
    (older : ∀ outer ∈ outer?, outer < h.scopes.size ∧ extended outer) :
    Resolves extended (h.addScope new).1 (m.add outer?) where
  count := by
    rw [Heap.size_scopes_addScope, ← resolves.count]
    rfl
  own s name := by
    rw [Heap.ownedCell?_addScope h disowning]
    exact resolves.own s name
  inherits s there name unowned := by
    rw [Heap.ownedCell?_addScope h disowning] at unowned
    rw [Heap.cell?_addScope]
    simp only [LinkedScopes.add, resolves.count]
    by_cases fresh : s = h.scopes.size
    · subst fresh
      rw [if_pos rfl, if_pos rfl, copies]
      cases outer? with
      | none => rfl
      | some outer =>
          obtain ⟨inside, _⟩ := older outer rfl
          simp [inside, Heap.cell?_addScope, Nat.ne_of_lt inside]
    · have old : s < h.scopes.size :=
        (Nat.lt_succ_iff_lt_or_eq.1 (by rwa [Heap.size_scopes_addScope] at there)).resolve_right fresh
      rw [if_neg fresh, if_neg fresh, resolves.inherits s old name unowned]
      cases m.outer? s with
      | none => rfl
      | some outer => simp [Heap.cell?_addScope, Nat.ne_of_lt (Nat.lt_trans outer.isLt old)]
  links s outer linked := by
    simp only [LinkedScopes.add] at linked
    split at linked
    · obtain ⟨source, given, made⟩ := Option.bind_eq_some_iff.1 linked
      split at made <;> cases made
      exact (older source given).2
    · exact resolves.links s outer linked

theorem defineAll {bindings : List (String × Value)} (resolves : Resolves extended h m) (held : h.Ownership reaches)
    (reflexive : ∀ s, reaches s s) (antisymmetric : ∀ s t, reaches s t → reaches t s → s = t)
    (there : s < h.scopes.size) (settled : m.Innermost s ∨ ∀ b ∈ bindings, b.1 ∈ (h.scope s).owned) :
    Resolves extended (h.defineAll s bindings) (m.bindAll s bindings) := by
  induction bindings generalizing h m with
  | nil => exact resolves
  | cons b bindings ih =>
      have firstSettled := settled.imp_right fun listed => listed b List.mem_cons_self
      have first := resolves.define (v := b.2) held antisymmetric there firstSettled
      apply ih first (held.define reflexive there b.1 b.2)
      · rwa [Heap.size_scopes_define]
      · obtain innermost | listed := settled
        · exact .inl innermost
        · right
          intro other member
          apply Heap.owned_subset_define h s b.1 b.2 s
          exact listed other (List.mem_cons_of_mem b member)

end Resolves

/-!
### Histories
-/

section Step

variable {earlier : List ScopeCall} {i : Interpreter} {m : LinkedScopes}

/-- Links lead to older scopes, so none leads to the newest. -/
theorem LinkedScopes.innermost_new (m : LinkedScopes) (outer? : Option ScopeId) : (m.add outer?).Innermost m.count := by
  intro t inside outer _
  exact Nat.ne_of_lt (Nat.lt_of_lt_of_le outer.isLt (Nat.le_of_lt_succ inside))

/-- A scope that was never extended has none linked to it. -/
theorem Resolves.innermost {s : ScopeId} (resolves : Resolves (· ∈ extendedScopes earlier) i.heap m)
    (unextended : s ∉ extendedScopes earlier) : m.Innermost s := by
  intro t _ outer linked same
  apply unextended
  rw [← same]
  exact resolves.links t outer linked

/-- The names that a call of a settled history defines are no new ones, or no scope is linked to theirs. -/
theorem Resolves.settles {call : ScopeCall} {s : ScopeId} (resolves : Resolves (· ∈ extendedScopes earlier) i.heap m)
    (found : i.heap = memory earlier) (settled : Settled (call :: earlier)) :
    m.Innermost s ∨ ∀ name, (s, name) ∈ call.defined → name ∈ (i.heap.scope s).owned := by
  by_cases extended : s ∈ extendedScopes earlier
  · exact .inr fun name defined => found ▸ settled.1 (s, name) defined extended
  · exact .inl (resolves.innermost extended)

theorem outcome_performLinked_assign (s : ScopeId) (name : String) (v : Value) (m : LinkedScopes) :
    outcome ((ScopeCall.assign s name v).performLinked m) =
      match m.holder? name s with
      | some holder => (.ok (some v), m.bind holder name v)
      | none => (.error (.unboundWrite name), m) := by
  simp only [ScopeCall.performLinked, run_get_bind]
  cases m.holder? name s <;> rfl

/-- A call on scopes that correspond is answered alike and leaves scopes that correspond, in a settled history. -/
theorem Resolves.perform {call : ScopeCall} (resolves : Resolves (· ∈ extendedScopes earlier) i.heap m)
    (found : i.heap = memory earlier) (proper : Proper (call :: earlier)) (settled : Settled (call :: earlier)) :
    (outcome (call.perform i)).1 = (outcome (call.performLinked m)).1 ∧
      Resolves (· ∈ extendedScopes (call :: earlier)) (outcome (call.perform i)).2.heap
        (outcome (call.performLinked m)).2 := by
  have held : i.heap.Ownership (Descends earlier) := found ▸ ownership_memory proper.2
  have antisymmetric : ∀ s t, Descends earlier s t → Descends earlier t s → s = t := fun _ _ => Descends.antisymm proper.2
  have inside : ∀ s ∈ call.target?, s < i.heap.scopes.size := found ▸ proper.1
  cases call with
  | create bindings =>
      have added : Resolves (· ∈ extendedScopes earlier) (i.heap.addScope {}).1 (m.add none) :=
        resolves.add rfl (fun _ => rfl) nofun
      refine ⟨rfl, ?_⟩
      change Resolves _ _ ((m.add none).bindAll m.count bindings)
      rw [resolves.count]
      apply added.defineAll held.addBlank (fun _ => .refl) antisymmetric
      · simp
      · exact .inl (resolves.count ▸ m.innermost_new none)
  | extend s bindings =>
      have copied : (i.heap.addScope { bindings := (i.heap.scope s).bindings, owned := [] }).1.Ownership
          (Descends (.extend s bindings :: earlier)) := by
        apply (held.mono fun _ _ descends => descends.cons _).addCopy
        exact fun r descends => descends.tail (found ▸ extends_new s bindings earlier)
      have added : Resolves (· ∈ extendedScopes (.extend s bindings :: earlier))
          (i.heap.addScope { bindings := (i.heap.scope s).bindings, owned := [] }).1 (m.add (some s)) := by
        apply (resolves.mono fun t extended => List.mem_cons_of_mem s extended).add rfl fun _ => rfl
        intro outer linked
        cases linked
        exact ⟨inside s rfl, List.mem_cons_self⟩
      refine ⟨rfl, ?_⟩
      change Resolves _ _ ((m.add (some s)).bindAll m.count bindings)
      rw [resolves.count]
      apply added.defineAll copied (fun _ => .refl) fun _ _ => Descends.antisymm proper
      · simp
      · exact .inl (resolves.count ▸ m.innermost_new (some s))
  | define s name v =>
      refine ⟨rfl, resolves.define held antisymmetric (inside s rfl) ?_⟩
      exact (resolves.settles found settled).imp_right fun listed => listed name List.mem_cons_self
  | update s bindings =>
      refine ⟨rfl, resolves.defineAll held (fun _ => .refl) antisymmetric (inside s rfl) ?_⟩
      exact (resolves.settles found settled).imp_right fun listed b member =>
        listed b.1 (List.mem_map_of_mem member)
  | assign s name v =>
      have cell := resolves.cell? held (inside s rfl) name
      rw [ScopeCall.outcome_assign, outcome_performLinked_assign, cell]
      cases nearest : m.holder? name s with
      | none => exact ⟨rfl, resolves⟩
      | some holder =>
          have holds := LinkedScopes.isSome_own_of_holder? nearest
          rw [resolves.isSome_own held] at holds
          obtain ⟨c, owns⟩ := Option.isSome_iff_exists.1 holds
          rw [Option.bind_some, owns]
          exact ⟨rfl, resolves.write held antisymmetric owns⟩
  | lookup s name =>
      rw [ScopeCall.outcome_lookup, resolves.lookup? held (inside s rfl)]
      simp only [ScopeCall.performLinked, run_get_bind]
      cases m.lookup? s name <;> exact ⟨rfl, resolves⟩

end Step

theorem resolves_replay {history : List ScopeCall} (proper : Proper history) (settled : Settled history) :
    (replay ScopeCall.perform {} history).1 = (replay ScopeCall.performLinked {} history).1 ∧
      Resolves (· ∈ extendedScopes history) (memory history) (replay ScopeCall.performLinked {} history).2 := by
  induction history with
  | nil => exact ⟨rfl, .empty⟩
  | cons call earlier ih =>
      obtain ⟨same, resolves⟩ := ih proper.2 settled.2
      obtain ⟨alike, after⟩ := Resolves.perform (i := (replay ScopeCall.perform {} earlier).2) resolves rfl proper settled
      exact ⟨by rw [replay, replay, alike, same], after⟩

/-- Scopes that copy associations are lexical scopes: as long as names are defined in a scope that has been extended only
    if it owns them, every call is answered as by scopes that hold their own bindings and a link, where a name stands for
    its nearest binding along the links and a definition binds in the scope itself. -/
theorem answers_eq_linked (history : List ScopeCall) (proper : Proper history) (settled : Settled history) :
    (replay ScopeCall.perform {} history).1 = (replay ScopeCall.performLinked {} history).1 :=
  (resolves_replay proper settled).1

/-- Three scopes inside one another. The middle one shadows a name and both it and the outermost define an owned name anew
    after they were extended; then the innermost assigns to a name of each, and to one that nothing binds. -/
def nestedSample : List ScopeCall :=
  [.lookup 2 "y", .lookup 1 "x", .lookup 0 "y", .lookup 0 "x", .assign 2 "z" (.num 9), .assign 2 "y" (.num 8),
    .assign 2 "x" (.num 7), .define 0 "y" (.num 6), .define 1 "x" (.num 5), .extend 1 [("a", .num 4)],
    .define 1 "x" (.num 3), .extend 0 [], .update 0 [("x", .num 1), ("y", .num 2)], .create []]

theorem answers_eq_linked_nestedSample :
    Proper nestedSample ∧ Settled nestedSample ∧
    (replay ScopeCall.perform {} nestedSample).1.take 5 =
      [.ok (some (.num 8)), .ok (some (.num 7)), .ok (some (.num 8)), .ok (some (.num 1)), .error (.unboundWrite "z")] ∧
    (replay ScopeCall.perform {} nestedSample).1 = (replay ScopeCall.performLinked {} nestedSample).1 := by
  have proper : Proper nestedSample := by decide +kernel
  have settled : Settled nestedSample := by decide +kernel
  exact ⟨proper, settled, by decide +kernel, answers_eq_linked nestedSample proper settled⟩

/-- A scope that gains a name after it was extended shows the difference: the link leads to the name, the copy lacks
    it. -/
example :
    let history : List ScopeCall := [.lookup 1 "x", .define 0 "x" (.num 1), .extend 0 [], .create []]
    (replay ScopeCall.perform {} history).1.head? = some (.error (.unboundRead "x")) ∧
    (replay ScopeCall.performLinked {} history).1.head? = some (.ok (some (.num 1))) := by
  decide +kernel

end SmallScheme
