import RatCalc.Expression.Basic
import RatCalc.Value.Basic

/-!
# Environments

What the names in scope stand for. A name stands for one value, the one that it was bound to last.

## Main definitions

* `Environment.lookup?`: the value of a name.
* `Environment.bind`: the environment with one name bound anew.
-/

namespace RatCalc

/-- Bindings from names to values, without a second binding of any name. -/
structure Environment where
  bindings : List (Name × Value)
  nodup : (bindings.map Prod.fst).Nodup

namespace Environment

/-- The environment that binds nothing. -/
def empty : Environment :=
  ⟨[], List.nodup_nil⟩

instance : Inhabited Environment := ⟨empty⟩

instance : EmptyCollection Environment := ⟨empty⟩

/-- The value of a name. -/
def lookup? (env : Environment) (name : Name) : Option Value :=
  env.bindings.lookup name

/-- The environment with one name bound anew. -/
def bind (env : Environment) (name : Name) (value : Value) : Environment where
  bindings := (name, value) :: env.bindings.filter fun b => b.1 != name
  nodup := by
    rw [List.map_cons, List.nodup_cons]
    refine ⟨?_, (env.nodup.sublist (List.filter_sublist.map Prod.fst))⟩
    simp

/-- The number of names bound. -/
def size (env : Environment) : Nat :=
  env.bindings.length

/-- Whether no name is bound. -/
def isEmpty (env : Environment) : Bool :=
  env.bindings.isEmpty

/-- The empty environment binds no name. -/
theorem lookup?_empty (name : Name) : empty.lookup? name = none := rfl

/-- A look-up after a binding finds the new value under its own name. -/
theorem lookup?_bind_self (env : Environment) (name : Name) (value : Value) :
    (env.bind name value).lookup? name = some value := by
  simp [lookup?, bind]

/-- A binding leaves every other name alone. -/
theorem lookup?_bind_of_ne (env : Environment) {name other : Name} (value : Value)
    (h : other ≠ name) : (env.bind name value).lookup? other = env.lookup? other := by
  unfold lookup? bind
  rw [List.lookup_cons, beq_eq_false_iff_ne.2 h]
  dsimp only
  induction env.bindings with
  | nil => rfl
  | cons b rest ih =>
    by_cases hb : b.1 = name
    · rw [List.filter_cons_of_neg (by simp [hb]), ih, List.lookup_cons, hb,
        beq_eq_false_iff_ne.2 h]
    · rw [List.filter_cons_of_pos (by simp [hb]), List.lookup_cons, List.lookup_cons, ih]

/-- The first of two bindings is found behind the second one, if that is of another name. -/
theorem lookup?_bind_bind (env : Environment) {first second : Name} (h : first ≠ second)
    (x y : Value) : ((env.bind first x).bind second y).lookup? first = some x := by
  rw [lookup?_bind_of_ne _ _ h, lookup?_bind_self]

end Environment

end RatCalc
