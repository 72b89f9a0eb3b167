import SmallScheme.Primitive

/-
Module: SmallScheme.Value
Purpose: The values of the language. Programs are values too: the reader produces them, `quote` hands them over and
  the evaluator runs them. A dotted list has the elements before the dot and the value after it; the reader and
  `cons` only build dotted lists with at least one element and a tail that is no list of either kind, but values
  from outside need not be so. A closure holds its parameters, its body and the scope in which it was made;
  scopes and ports are named by numbers and live in the state of the interpreter.
Main exports: Value, Value.same, Value.same_iff
-/

namespace SmallScheme

/-- The number of a memory cell. -/
abbrev CellId := Nat

/-- The number of a scope. -/
abbrev ScopeId := Nat

/-- The number of a port. -/
abbrev PortId := Nat

/-- A value, which is also what a program consists of. -/
inductive Value where
  | bool (b : Bool)
  | num (n : Int)
  | str (s : String)
  | sym (name : String)
  | list (items : List Value)
  | dotted (heads : List Value) (tail : Value)
  | closure (params : List String) (rest? : Option String) (body : List Value) (scope : ScopeId)
  | prim (p : Primitive)
  | port (id : PortId)
deriving Repr, Inhabited

namespace Value

mutual

/-- Whether two values are built alike in every part. -/
def same : Value → Value → Bool
  | .bool a, .bool b => a == b
  | .num a, .num b => a == b
  | .str a, .str b => a == b
  | .sym a, .sym b => a == b
  | .list xs, .list ys => sameAll xs ys
  | .dotted xs x, .dotted ys y => sameAll xs ys && same x y
  | .closure ps r xs s, .closure qs t ys u => ps == qs && r == t && sameAll xs ys && s == u
  | .prim p, .prim q => p == q
  | .port i, .port j => i == j
  | _, _ => false

/-- Whether two lists of values are built alike. -/
def sameAll : List Value → List Value → Bool
  | [], [] => true
  | x :: xs, y :: ys => same x y && sameAll xs ys
  | _, _ => false

end

mutual

/-- Values built alike are equal. -/
theorem eq_of_same : ∀ {a b : Value}, same a b = true → a = b
  | .bool _, b, h => by cases b <;> simp_all [same]
  | .num _, b, h => by cases b <;> simp_all [same]
  | .str _, b, h => by cases b <;> simp_all [same]
  | .sym _, b, h => by cases b <;> simp_all [same]
  | .prim _, b, h => by cases b <;> simp_all [same]
  | .port _, b, h => by cases b <;> simp_all [same]
  | .list xs, b, h => by
    cases b <;> simp only [same, Bool.false_eq_true] at h
    rw [eq_of_sameAll h]
  | .dotted xs x, b, h => by
    cases b <;> simp only [same, Bool.and_eq_true, Bool.false_eq_true] at h
    rw [eq_of_sameAll h.1, eq_of_same h.2]
  | .closure ps r xs s, b, h => by
    cases b <;> simp only [same, Bool.and_eq_true, beq_iff_eq, Bool.false_eq_true] at h
    obtain ⟨⟨⟨rfl, rfl⟩, body⟩, rfl⟩ := h
    rw [eq_of_sameAll body]

/-- Lists of values built alike are equal. -/
theorem eq_of_sameAll : ∀ {xs ys : List Value}, sameAll xs ys = true → xs = ys
  | [], ys, h => by cases ys <;> simp_all [sameAll]
  | x :: xs, ys, h => by
    cases ys <;> simp only [sameAll, Bool.and_eq_true, Bool.false_eq_true] at h
    rw [eq_of_same h.1, eq_of_sameAll h.2]

end

mutual

/-- A value is built like itself. -/
theorem same_refl : ∀ a : Value, same a a = true
  | .bool _ | .num _ | .str _ | .sym _ | .prim _ | .port _ => by simp [same]
  | .list xs => by simp [same, sameAll_refl xs]
  | .dotted xs x => by simp [same, sameAll_refl xs, same_refl x]
  | .closure _ _ xs _ => by simp [same, sameAll_refl xs]

/-- A list of values is built like itself. -/
theorem sameAll_refl : ∀ xs : List Value, sameAll xs xs = true
  | [] => rfl
  | x :: xs => by simp [sameAll, same_refl x, sameAll_refl xs]

end

/-- The test decides equality. -/
theorem same_iff {a b : Value} : same a b = true ↔ a = b :=
  ⟨eq_of_same, fun h => h ▸ same_refl a⟩

instance : DecidableEq Value := fun a b =>
  decidable_of_iff (same a b = true) same_iff

end Value

end SmallScheme
