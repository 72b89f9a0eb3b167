import SmallScheme.Proofs.Numeral
import SmallScheme.Reader.Literal
import SmallScheme.Value.Pair

/-
Module: SmallScheme.Proofs.Data
Purpose: Which values are what. Values are built from leaves by lists and by dotted lists in normal form, that is, with
  at least one head and a tail that is no list of either kind. The canonical data are built so from truth values,
  numbers of 64 bits, strings, and symbols that the reader can produce; the well-formed values may also hold
  procedures and ports, and the bodies of their closures are canonical data. Both are instances of one predicate,
  so the pair operations are treated once.
Main exports: SymbolWord, Value.Built, Value.Canonical, Value.WellFormed, Value.Built.joinTail, Value.Built.cons
-/

namespace SmallScheme

/-- The words that are read as symbols: atoms that are neither truth values nor numerals. -/
structure SymbolWord (chars : List Char) : Prop where
  atom : Reader.isSymbolName chars = true
  ne_true : chars ≠ ['#', 't']
  ne_false : chars ≠ ['#', 'f']
  not_numeral : ∀ n, ¬ Number.Numeral.Written chars n

theorem symbolWord_iff {chars : List Char} :
    SymbolWord chars ↔ Reader.isSymbolName chars = true ∧ chars ≠ ['#', 't'] ∧ chars ≠ ['#', 'f'] ∧
      Number.Numeral.ofChars? chars = none := by
  constructor
  · rintro ⟨atom, neTrue, neFalse, noNumeral⟩
    exact ⟨atom, neTrue, neFalse, Number.Numeral.ofChars?_eq_none_iff.2 noNumeral⟩
  · rintro ⟨atom, neTrue, neFalse, unrecognised⟩
    exact ⟨atom, neTrue, neFalse, Number.Numeral.ofChars?_eq_none_iff.1 unrecognised⟩

instance (chars : List Char) : Decidable (SymbolWord chars) :=
  decidable_of_iff _ symbolWord_iff.symm

namespace Value

/-- A list of either kind. -/
def IsList : Value → Prop
  | .list _ | .dotted _ _ => True
  | _ => False

mutual

/-- A value built from leaves of a kind by lists and by dotted lists in normal form. -/
def Built (leaf : Value → Prop) : Value → Prop
  | .list items => BuiltAll leaf items
  | .dotted heads tail => heads ≠ [] ∧ BuiltAll leaf heads ∧ ¬ tail.IsList ∧ Built leaf tail
  | v => leaf v

/-- A list of values built from leaves of a kind. -/
def BuiltAll (leaf : Value → Prop) : List Value → Prop
  | [] => True
  | v :: vs => Built leaf v ∧ BuiltAll leaf vs

end

/-- The leaves of data. -/
def DataLeaf : Value → Prop
  | .bool _ | .str _ => True
  | .num n => Number.InRange n
  | .sym name => SymbolWord name.toList
  | _ => False

/-- Canonical data, which is what program texts consist of. -/
def Canonical (v : Value) : Prop :=
  Built DataLeaf v

/-- The leaves of the values that programs compute with. A closure has data as its body, and a scope of a given
    kind. -/
def RuntimeLeaf (captured : ScopeId → Prop) : Value → Prop
  | .closure _ _ body s => (∀ form ∈ body, Canonical form) ∧ captured s
  | .prim _ | .port _ => True
  | v => DataLeaf v

/-- A well-formed value whose closures have scopes of a given kind. -/
def WellFormedOver (captured : ScopeId → Prop) (v : Value) : Prop :=
  Built (RuntimeLeaf captured) v

/-- A well-formed value. -/
def WellFormed (v : Value) : Prop :=
  WellFormedOver (fun _ => True) v

/-- Heads before a tail that is no list are a dotted list as they are. -/
theorem joinTail_of_not_isList {heads : List Value} {tail : Value} (plain : ¬ tail.IsList) :
    joinTail heads tail = .dotted heads tail := by
  cases tail with
  | list | dotted => exact absurd trivial plain
  | _ => rfl

theorem builtAll_iff {leaf : Value → Prop} {vs : List Value} : BuiltAll leaf vs ↔ ∀ v ∈ vs, Built leaf v := by
  induction vs with
  | nil => simp [BuiltAll]
  | cons v vs ih => simp [BuiltAll, ih]

@[simp] theorem built_list {leaf : Value → Prop} {items : List Value} :
    Built leaf (.list items) ↔ ∀ v ∈ items, Built leaf v := by
  rw [Built, builtAll_iff]

@[simp] theorem built_dotted {leaf : Value → Prop} {heads : List Value} {tail : Value} :
    Built leaf (.dotted heads tail) ↔
      heads ≠ [] ∧ (∀ v ∈ heads, Built leaf v) ∧ ¬ tail.IsList ∧ Built leaf tail := by
  rw [Built, builtAll_iff]

mutual

/-- What is built from leaves of one kind is built from leaves of any wider kind. -/
theorem Built.mono {leaf wider : Value → Prop} (widens : ∀ v, leaf v → wider v) :
    ∀ {v : Value}, Built leaf v → Built wider v
  | .bool _, built | .num _, built | .str _, built | .sym _, built | .closure .., built | .prim _, built
  | .port _, built => widens _ built
  | .list items, built => by
      rw [Built] at built ⊢
      exact BuiltAll.mono widens built
  | .dotted heads tail, built => by
      rw [Built] at built ⊢
      obtain ⟨nonempty, headsBuilt, plain, tailBuilt⟩ := built
      exact ⟨nonempty, BuiltAll.mono widens headsBuilt, plain, Built.mono widens tailBuilt⟩

theorem BuiltAll.mono {leaf wider : Value → Prop} (widens : ∀ v, leaf v → wider v) :
    ∀ {vs : List Value}, BuiltAll leaf vs → BuiltAll wider vs
  | [], _ => by simp [BuiltAll]
  | v :: vs, built => by
      rw [BuiltAll] at built ⊢
      exact ⟨Built.mono widens built.1, BuiltAll.mono widens built.2⟩

end

/-- Data are well formed, whatever is asked of closures. -/
theorem Canonical.wellFormedOver {captured : ScopeId → Prop} {v : Value} (data : Canonical v) :
    WellFormedOver captured v := by
  refine Built.mono (fun leaf isData => ?_) data
  cases leaf with
  | bool | num | str | sym => exact isData
  | _ => exact isData.elim

/-!
### Deciding

Whether a value is canonical can be computed.
-/

instance (v : Value) : Decidable v.IsList :=
  match v with
  | .list _ | .dotted _ _ => .isTrue trivial
  | .bool _ | .num _ | .str _ | .sym _ | .closure .. | .prim _ | .port _ => .isFalse id

instance (v : Value) : Decidable (DataLeaf v) :=
  match v with
  | .bool _ | .str _ => .isTrue trivial
  | .num n => inferInstanceAs (Decidable (Number.InRange n))
  | .sym name => inferInstanceAs (Decidable (SymbolWord name.toList))
  | .list _ | .dotted _ _ | .closure .. | .prim _ | .port _ => .isFalse id

mutual

/-- Decides whether a value is built from leaves of a kind. -/
def decideBuilt (leaf : Value → Prop) [DecidablePred leaf] : (v : Value) → Decidable (Built leaf v)
  | .list items => decideBuiltAll leaf items
  | .dotted heads tail =>
      have := decideBuiltAll leaf heads
      have := decideBuilt leaf tail
      inferInstanceAs (Decidable (heads ≠ [] ∧ BuiltAll leaf heads ∧ ¬ tail.IsList ∧ Built leaf tail))
  | .bool b => inferInstanceAs (Decidable (leaf (.bool b)))
  | .num n => inferInstanceAs (Decidable (leaf (.num n)))
  | .str s => inferInstanceAs (Decidable (leaf (.str s)))
  | .sym name => inferInstanceAs (Decidable (leaf (.sym name)))
  | .closure params rest? body s => inferInstanceAs (Decidable (leaf (.closure params rest? body s)))
  | .prim p => inferInstanceAs (Decidable (leaf (.prim p)))
  | .port id => inferInstanceAs (Decidable (leaf (.port id)))

/-- Decides whether all values of a list are built from leaves of a kind. -/
def decideBuiltAll (leaf : Value → Prop) [DecidablePred leaf] : (vs : List Value) → Decidable (BuiltAll leaf vs)
  | [] => .isTrue trivial
  | v :: vs =>
      have := decideBuilt leaf v
      have := decideBuiltAll leaf vs
      inferInstanceAs (Decidable (Built leaf v ∧ BuiltAll leaf vs))

end

instance (v : Value) : Decidable v.Canonical :=
  decideBuilt DataLeaf v

/-!
### Pairs

Putting heads before a tail normalises it, and taking a list apart gives nothing that was not in it, so all pair
operations keep values built from leaves of a kind.
-/

namespace Built

variable {leaf : Value → Prop}

theorem joinTail {heads : List Value} {tail : Value} (nonempty : heads ≠ [])
    (headsBuilt : ∀ v ∈ heads, Built leaf v) (tailBuilt : Built leaf tail) :
    Built leaf (Value.joinTail heads tail) := by
  cases tail with
  | list items =>
      rw [built_list] at tailBuilt
      simp only [Value.joinTail, built_list, List.mem_append]
      rintro v (member | member)
      · exact headsBuilt v member
      · exact tailBuilt v member
  | dotted more tail =>
      obtain ⟨_, moreBuilt, plain, endBuilt⟩ := built_dotted.1 tailBuilt
      refine built_dotted.2 ⟨by simp [nonempty], ?_, plain, endBuilt⟩
      intro v member
      rcases List.mem_append.1 member with member | member
      · exact headsBuilt v member
      · exact moreBuilt v member
  | _ => exact built_dotted.2 ⟨nonempty, headsBuilt, id, tailBuilt⟩

theorem cons {x y : Value} (first : Built leaf x) (rest : Built leaf y) : Built leaf (Value.cons x y) := by
  rw [cons_eq_joinTail]
  exact joinTail (by simp) (by simpa using first) rest

theorem of_first? {v x : Value} (built : Built leaf v) (found : v.first? = some x) : Built leaf x := by
  unfold first? at found
  split at found
  · cases found
    exact built_list.1 built _ List.mem_cons_self
  · cases found
    exact (built_dotted.1 built).2.1 _ List.mem_cons_self
  · cases found

theorem of_rest? {v rest : Value} (built : Built leaf v) (found : v.rest? = some rest) : Built leaf rest := by
  unfold rest? at found
  split at found
  · cases found
    exact built_list.2 fun w member => built_list.1 built w (List.mem_cons_of_mem _ member)
  · cases found
    exact (built_dotted.1 built).2.2.2
  · rename_i heads tail several
    cases found
    obtain ⟨_, headsBuilt, plain, tailBuilt⟩ := built_dotted.1 built
    exact built_dotted.2 ⟨several, fun w member => headsBuilt w (List.mem_cons_of_mem _ member), plain, tailBuilt⟩
  · cases found

end Built

end Value

end SmallScheme
