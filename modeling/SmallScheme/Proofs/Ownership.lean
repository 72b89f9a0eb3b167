import SmallScheme.Proofs.ScopeCalls

/-
Module: SmallScheme.Proofs.Ownership
Purpose: Whose a cell is. Extending a scope copies its associations, so one cell may be bound in many scopes; but the
  scope that made it owns it, under one name, and the others all descend from that scope and bind it under the same name.
  So a definition is seen only below the scope in which it is made, and not even there if it makes a new cell.
Main exports: Heap.Ownership, Heap.Ownership.define, Heap.Ownership.addScope, Heap.Ownership.lookup?_define,
  Heap.Ownership.unique, ownership_memory, cells_have_one_owner
-/

namespace SmallScheme

/-- Owned names are bound, bound cells are there, each cell has an owner, and wherever else the cell of an owner is bound,
    it is bound under the same name and in a scope that the owner reaches. -/
structure Heap.Ownership (h : Heap) (reaches : ScopeId → ScopeId → Prop) : Prop where
  bound : ∀ s, ∀ name ∈ (h.scope s).owned, ∃ c, h.cell? s name = some c
  inside : ∀ s name c, h.cell? s name = some c → c < h.cells.size
  owner : ∀ c, c < h.cells.size → ∃ s name, h.ownedCell? s name = some c
  shared : ∀ s name t other c, h.ownedCell? s name = some c → h.cell? t other = some c → other = name ∧ reaches s t

namespace Heap.Ownership

variable {h : Heap} {reaches wider : ScopeId → ScopeId → Prop}

theorem empty : ({} : Heap).Ownership reaches where
  bound _ _ listed := absurd listed List.not_mem_nil
  inside _ _ _ found := absurd found nofun
  owner c inside := absurd inside (Nat.not_lt_zero c)
  shared _ _ _ _ _ _ found := absurd found nofun

theorem mono (held : h.Ownership reaches) (widens : ∀ s t, reaches s t → wider s t) : h.Ownership wider where
  bound := held.bound
  inside := held.inside
  owner := held.owner
  shared s name t other c owns found := by
    obtain ⟨same, reached⟩ := held.shared s name t other c owns found
    exact ⟨same, widens s t reached⟩

/-- Ownership does not depend on what the cells hold. -/
theorem write (held : h.Ownership reaches) (c : CellId) (v : Value) : (h.write c v).Ownership reaches where
  bound := held.bound
  inside s name d found := by
    rw [size_cells_write]
    exact held.inside s name d found
  owner d inside := by
    rw [size_cells_write] at inside
    exact held.owner d inside
  shared := held.shared

/-- A new cell is owned by the scope in which it is made, and bound nowhere else. -/
theorem defineNew (held : h.Ownership reaches) (reflexive : ∀ s, reaches s s) {s : ScopeId} (there : s < h.scopes.size)
    {name : String} (inherited : h.ownedCell? s name = none) (v : Value) : (h.define s name v).Ownership reaches where
  bound t other listed := by
    rw [cell?_define_of_not_owned inherited]
    by_cases new : (t = s ∧ s < h.scopes.size) ∧ other = name
    · exact ⟨h.cells.size, if_pos new⟩
    · rw [if_neg new]
      apply held.bound t other
      obtain same | owning := h.scope_define s name v t
      · rwa [same] at listed
      · by_cases here : t = s
        · rw [owning, Scope.mem_owned_own] at listed
          exact listed.resolve_right fun same => new ⟨⟨here, there⟩, same⟩
        · rwa [scope_define_of_ne here] at listed
  inside t other c found := by
    rw [cell?_define_of_not_owned inherited] at found
    rw [size_cells_define_of_not_owned inherited]
    split at found
    · cases found
      exact Nat.lt_succ_self _
    · exact Nat.lt_succ_of_lt (held.inside t other c found)
  owner c inside := by
    rw [size_cells_define_of_not_owned inherited] at inside
    obtain old | rfl := Nat.lt_succ_iff_lt_or_eq.1 inside
    · obtain ⟨t, other, owns⟩ := held.owner c old
      refine ⟨t, other, ?_⟩
      rw [ownedCell?_define_of_not_owned inherited, if_neg, owns]
      intro new
      obtain ⟨⟨rfl, _⟩, rfl⟩ := new
      rw [inherited] at owns
      cases owns
    · exact ⟨s, name, by rw [ownedCell?_define_of_not_owned inherited, if_pos ⟨⟨rfl, there⟩, rfl⟩]⟩
  shared r own t other c owns found := by
    rw [ownedCell?_define_of_not_owned inherited] at owns
    rw [cell?_define_of_not_owned inherited] at found
    -- The new cell is no cell that was bound before, so an owner and a binding are both new or both old.
    split at owns <;> split at found
    · rename_i ours theirs
      obtain ⟨⟨rfl, _⟩, rfl⟩ := ours
      obtain ⟨⟨rfl, _⟩, rfl⟩ := theirs
      exact ⟨rfl, reflexive _⟩
    · cases owns
      exact absurd (held.inside t other _ found) (Nat.lt_irrefl _)
    · cases found
      exact absurd (held.inside r own _ (cell?_of_ownedCell? owns).2) (Nat.lt_irrefl _)
    · exact held.shared r own t other c owns found

theorem define (held : h.Ownership reaches) (reflexive : ∀ s, reaches s s) {s : ScopeId} (there : s < h.scopes.size)
    (name : String) (v : Value) : (h.define s name v).Ownership reaches := by
  cases owned : h.ownedCell? s name with
  | some c =>
      rw [define_of_owned owned]
      exact held.write c v
  | none => exact held.defineNew reflexive there owned v

/-- A new scope may take over associations of a scope whose owners reach it too. -/
theorem addScope (held : h.Ownership reaches) {new : Scope} (disowning : new.owned = [])
    (inherits : ∀ name c, new.cell? name = some c →
      ∃ s, h.cell? s name = some c ∧ ∀ r, reaches r s → reaches r h.scopes.size) :
    (h.addScope new).1.Ownership reaches where
  bound t name listed := by
    rw [scope_addScope] at listed
    rw [cell?_addScope]
    split at listed
    · rw [disowning] at listed
      cases listed
    · rename_i old
      rw [if_neg old]
      exact held.bound t name listed
  inside t name c found := by
    rw [cell?_addScope] at found
    split at found
    · obtain ⟨s, inherited, _⟩ := inherits name c found
      exact held.inside s name c inherited
    · exact held.inside t name c found
  owner c inside := by
    obtain ⟨s, name, owns⟩ := held.owner c inside
    exact ⟨s, name, by rw [ownedCell?_addScope h disowning, owns]⟩
  shared s name t other c owns found := by
    rw [ownedCell?_addScope h disowning] at owns
    rw [cell?_addScope] at found
    split at found
    · rename_i fresh
      obtain ⟨r, inherited, reached⟩ := inherits other c found
      obtain ⟨same, reaching⟩ := held.shared s name r other c owns inherited
      exact ⟨same, fresh ▸ reached s reaching⟩
    · exact held.shared s name t other c owns found

/-- A blank scope changes nothing about ownership. -/
theorem addBlank (held : h.Ownership reaches) : (h.addScope {}).1.Ownership reaches :=
  held.addScope rfl fun _ _ found => absurd found nofun

/-- A copy of a scope may have all its associations if whoever reaches the scope reaches the copy. -/
theorem addCopy (held : h.Ownership reaches) {s : ScopeId} (below : ∀ r, reaches r s → reaches r h.scopes.size) :
    (h.addScope { bindings := (h.scope s).bindings, owned := [] }).1.Ownership reaches :=
  held.addScope rfl fun _ _ found => ⟨s, found, below⟩

/-- If no two scopes reach each other, a cell has one owner. -/
theorem unique (held : h.Ownership reaches) (antisymmetric : ∀ s t, reaches s t → reaches t s → s = t) {s t : ScopeId}
    {name other : String} {c : CellId} (owns : h.ownedCell? s name = some c) (also : h.ownedCell? t other = some c) :
    s = t ∧ name = other := by
  obtain ⟨same, below⟩ := held.shared s name t other c owns (cell?_of_ownedCell? also).2
  obtain ⟨_, above⟩ := held.shared t other s name c also (cell?_of_ownedCell? owns).2
  exact ⟨antisymmetric s t below above, same.symm⟩

/-- A definition is seen only where the scope reaches, and if it makes a new cell only in the scope itself. -/
theorem lookup?_define (held : h.Ownership reaches) (reflexive : ∀ s, reaches s s) {e t : ScopeId} {name : String}
    (apart : ¬ reaches e t ∨ name ∉ (h.scope e).owned ∧ t ≠ e) (v : Value) (other : String) :
    (h.define e name v).lookup? t other = h.lookup? t other := by
  cases owned : h.ownedCell? e name with
  | some c =>
      obtain ⟨listed, _⟩ := cell?_of_ownedCell? owned
      have beyond : ¬ reaches e t := apart.resolve_right fun new => new.1 listed
      rw [define_of_owned owned]
      change (h.cell? t other).bind _ = (h.cell? t other).bind _
      cases found : h.cell? t other with
      | none => rfl
      | some d =>
          have differ : c ≠ d := by
            intro same
            subst same
            exact beyond (held.shared e name t other c owned found).2
          simp only [Option.bind_some, cells_write, differ, false_and, if_false]
  | none =>
      have elsewhere : t ≠ e := by
        intro same
        subst same
        obtain beyond | ⟨_, different⟩ := apart
        · exact beyond (reflexive t)
        · exact different rfl
      rw [lookup?, lookup?, cell?_define_of_not_owned owned, if_neg fun both => elsewhere both.1.1]
      cases found : h.cell? t other with
      | none => rfl
      | some d =>
          have old := held.inside t other d found
          rw [define_of_not_owned owned]
          simp only [Option.bind_some, Array.getElem?_push, Nat.ne_of_lt old, if_false]

end Heap.Ownership

/-!
### Histories

Every call keeps the ownership of cells, where a scope reaches those that descend from it; and as descendants are younger,
no two scopes descend from each other.
-/

theorem ownership_memory {history : List ScopeCall} (proper : Proper history) :
    (memory history).Ownership (Descends history) := by
  induction history with
  | nil => exact .empty
  | cons call earlier ih =>
      have held : (memory earlier).Ownership (Descends (call :: earlier)) :=
        (ih proper.2).mono fun _ _ descends => descends.cons call
      rw [memory_cons]
      apply ScopeCall.onHeap_induct (motive := fun k => k.Ownership (Descends (call :: earlier))) proper.1 held
      · exact fun _ _ c v _ => held.write c v
      · exact held.addBlank
      · rintro s bindings rfl
        exact held.addCopy fun r descends => descends.tail (extends_new s bindings earlier)
      · exact fun k s name v kept there => kept.define (fun _ => .refl) there name v

/-- After any calls on scopes, owned names are bound, names stand in a scope once and only ever grow at the end, every
    cell has exactly one owner, a scope and a name, and is bound under that name only, in the owner and in scopes that
    descend from it. So a definition changes no lookup in a scope that the scope of the definition descends from, nor in
    one that does not descend from it, nor, if it makes a new cell, in any other scope. -/
theorem cells_have_one_owner (history : List ScopeCall) (proper : Proper history) :
    (∀ s, ∀ name ∈ ((memory history).scope s).owned, name ∈ ((memory history).scope s).names) ∧
    (∀ s, ((memory history).scope s).names.Nodup) ∧
    (∀ later earlier s, history = later ++ earlier →
      ((memory earlier).scope s).names <+: ((memory history).scope s).names) ∧
    (∀ c, c < (memory history).cells.size →
      ∃! owner : ScopeId × String, (memory history).ownedCell? owner.1 owner.2 = some c) ∧
    (∀ t other c, (memory history).cell? t other = some c → c < (memory history).cells.size ∧
      ∀ s name, (memory history).ownedCell? s name = some c → other = name ∧ Descends history s t) ∧
    ∀ e name v t other,
      t ≠ e ∧ Descends history t e ∨ ¬ Descends history e t ∨ t ≠ e ∧ name ∉ ((memory history).scope e).owned →
      (memory (.define e name v :: history)).lookup? t other = (memory history).lookup? t other := by
  have held := ownership_memory proper
  refine ⟨fun s name listed => ?_, bindsOnce_memory proper, ?_, fun c inside => ?_, fun t other c found => ?_, ?_⟩
  · exact (Scope.mem_names_iff _ name).2 (held.bound s name listed)
  · intro later earlier s split
    subst split
    exact namesGrow_memory proper s
  · obtain ⟨s, name, owns⟩ := held.owner c inside
    refine ⟨(s, name), owns, fun other also => ?_⟩
    obtain ⟨sameScope, sameName⟩ := held.unique (fun _ _ => Descends.antisymm proper) owns also
    rw [sameScope, sameName]
  · exact ⟨held.inside t other c found, fun s name owns => held.shared s name t other c owns found⟩
  · intro e name v t other apart
    rw [memory_cons]
    apply held.lookup?_define fun _ => .refl
    obtain ⟨differ, above⟩ | beyond | ⟨differ, unowned⟩ := apart
    · exact .inl fun below => differ (Descends.antisymm proper above below)
    · exact .inl beyond
    · exact .inr ⟨unowned, differ⟩

/-- A scope with a name, extended by a name that is bound twice, in which the inherited name is then defined anew. -/
def shadowingSample : List ScopeCall :=
  [.define 1 "x" (.num 5), .extend 0 [("a", .num 1), ("a", .num 2)], .define 0 "x" (.num 1), .create []]

theorem cells_have_one_owner_shadowingSample :
    Proper shadowingSample ∧ 0 ≠ 1 ∧ Descends shadowingSample 0 1 ∧
    (∃! owner : ScopeId × String, (memory shadowingSample).ownedCell? owner.1 owner.2 = some 2) ∧
    (memory (.define 1 "x" (.num 6) :: shadowingSample)).lookup? 0 "x" = (memory shadowingSample).lookup? 0 "x" := by
  have proper : Proper shadowingSample := by decide
  have descends : Descends shadowingSample 0 1 := .single ⟨[_], [_, _], _, rfl, by decide⟩
  obtain ⟨_, _, _, owner, _, unseen⟩ := cells_have_one_owner shadowingSample proper
  exact ⟨proper, by decide, descends, owner 2 (by decide), unseen 1 "x" (.num 6) 0 "x" (.inl ⟨by decide, descends⟩)⟩

end SmallScheme
