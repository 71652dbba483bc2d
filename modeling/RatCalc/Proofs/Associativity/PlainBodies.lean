import Mathlib
import RatCalc.Proofs.Associativity.NormalForm
import RatCalc.Proofs.Associativity.Passing

/-!
# Plain sums and products pass

A body is plain if it is made of literals, its two parameters and one operator. Simplifying such a
body never brings in a second operator. In a sum in which no name comes twice, two operands are
equal only if both are literals, so only literals are taken together and no name is lost. In a
product names are lost only together with the whole product, which is zero then. So a plain sum or
product that mentions each of its parameters once is recognised as associative.

## Main definitions

* `Expression.Plain`: literals, two names and one operator.
* `Expression.nameCount`: how often a name comes in an expression.

## Main results

* `Expression.Plain.simplify_sum`: a simplified plain sum has the same names.
* `Expression.Plain.simplify_product`: a simplified plain product has the same names or is zero.
* `Expression.isAssociative_of_plain`: plain sums and products pass.
-/

namespace RatCalc

namespace Expression

/-- How often a name comes in an expression. -/
def nameCount (name : Name) (e : Expression) : ℕ :=
  e.leaves.count (.identifier name)

@[simp]
theorem nameCount_number (name : Name) (x : Fraction) : (number x).nameCount name = 0 := by
  simp [nameCount, leaves]

@[simp]
theorem nameCount_operation (name : Name) (x y : Expression) (op : Operator) :
    (operation x op y).nameCount name = x.nameCount name + y.nameCount name :=
  List.count_append

/-- The expression is made of literals, the two names and operations with one operator. -/
inductive Plain (op : Operator) (left right : Name) : Expression → Prop
  | literal (x : Fraction) : Plain op left right (number x)
  | left : Plain op left right (identifier left)
  | right : Plain op left right (identifier right)
  | node {x y : Expression} (hx : Plain op left right x) (hy : Plain op left right y) :
      Plain op left right (operation x op y)

namespace Plain

variable {op : Operator} {left right : Name} {e x y : Expression}

/-! ### What the test asks for -/

theorem hasReduce_eq_false (h : Plain op left right e) : e.hasReduce = false := by
  induction h with
  | node _ _ hx hy => rw [hasReduce, hx, hy, Bool.or_false]
  | _ => rfl

/-- A plain expression has one operator only. -/
theorem eq_of_mem_operators (h : Plain op left right e) : ∀ o ∈ e.operators, o = op := by
  induction h with
  | node _ _ hx hy =>
    intro o ho
    rw [operators, List.mem_cons, List.mem_append] at ho
    exact ho.elim id fun ho => ho.elim (hx o) (hy o)
  | _ => exact fun o ho => absurd ho List.not_mem_nil

/-- A plain expression with both names in it has an operation. -/
theorem mem_operators (h : Plain op left right e) (distinct : left ≠ right)
    (hasLeft : e.nameCount left = 1) (hasRight : e.nameCount right = 1) :
    op ∈ e.operators := by
  cases h with
  | literal x => simp at hasLeft
  | left => simp [nameCount, leaves, distinct] at hasRight
  | right => simp [nameCount, leaves, distinct.symm] at hasLeft
  | node => exact List.mem_cons_self

/-! ### Sums -/

/-- In a plain sum there is no product to join a term with. -/
theorem multipleOf?_eq_none (h : Plain .add left right y) : multipleOf? x y = none := by
  cases h <;> rfl

/-- A plain sum of different terms is left as it is, unless both are literals. -/
theorem plus_eq (hx : Plain .add left right x) (hy : Plain .add left right y)
    (apart : x = y → ∃ c, x = number c) :
    (∃ c d, x = number c ∧ y = number d) ∨ plus x y = operation x .add y := by
  unfold plus
  split
  · next c d hc hd =>
    exact .inl ⟨c, d, asNumber?_eq_some_iff.1 hc, asNumber?_eq_some_iff.1 hd⟩
  · next no_literals =>
    have different : x ≠ y := by
      intro same
      obtain ⟨c, rfl⟩ := apart same
      subst same
      exact no_literals c c rfl rfl
    rw [if_neg different, hy.multipleOf?_eq_none, hx.multipleOf?_eq_none]
    exact .inr rfl

/-- **A simplified plain sum has the same names** if none of them comes twice. It is a plain sum
again, and a literal if it has no name. -/
theorem simplify_sum (h : Plain .add left right e) (leftOnce : e.nameCount left ≤ 1)
    (rightOnce : e.nameCount right ≤ 1) :
    Plain .add left right e.simplify ∧
      (∀ name, e.simplify.nameCount name = e.nameCount name) ∧
      (e.nameCount left = 0 → e.nameCount right = 0 → ∃ c, e.simplify = .number c) := by
  induction h with
  | literal x => exact ⟨.literal x, fun _ => rfl, fun _ _ => ⟨x, rfl⟩⟩
  | left => exact ⟨.left, fun _ => rfl, fun none => by simp [nameCount, leaves] at none⟩
  | right => exact ⟨.right, fun _ => rfl, fun _ none => by simp [nameCount, leaves] at none⟩
  | @node x y _ _ ihx ihy =>
    rw [nameCount_operation] at leftOnce rightOnce
    obtain ⟨plainX, keptX, literalX⟩ := ihx (by omega) (by omega)
    obtain ⟨plainY, keptY, literalY⟩ := ihy (by omega) (by omega)
    have apart : x.simplify = y.simplify → ∃ c, x.simplify = .number c := by
      intro same
      have shared name : x.nameCount name = y.nameCount name := by
        rw [← keptX, same, keptY]
      have lefts := shared left
      have rights := shared right
      exact literalX (by omega) (by omega)
    rw [simplify_operation, combine]
    rcases plus_eq plainX plainY apart with ⟨c, d, hc, hd⟩ | kept
    · have folded : plus x.simplify y.simplify = .number (c + d) := by rw [hc, hd]; rfl
      rw [folded]
      refine ⟨.literal _, fun name => ?_, fun _ _ => ⟨_, rfl⟩⟩
      rw [nameCount_operation, ← keptX, ← keptY, hc, hd]
      simp
    · rw [kept]
      refine ⟨.node plainX plainY, fun name => ?_, fun noLeft noRight => ?_⟩
      · rw [nameCount_operation, nameCount_operation, keptX, keptY]
      · rw [nameCount_operation] at noLeft noRight
        obtain ⟨c, hc⟩ := literalX (by omega) (by omega)
        obtain ⟨d, hd⟩ := literalY (by omega) (by omega)
        exact ⟨c + d, by rw [← kept, hc, hd]; rfl⟩

/-! ### Products -/

/-- A product with zero is zero. -/
theorem times_eq_zero (h : x = zero ∨ y = zero) : times x y = zero := by
  unfold times
  split
  · next c d hc hd =>
    rw [asNumber?_eq_some_iff] at hc hd
    subst hc hd
    rw [zero, number.injEq, ← Fraction.toRat_inj, Fraction.toRat_mul, Fraction.toRat_zero]
    rcases h with h | h
    · rw [number.inj h, Fraction.toRat_zero, zero_mul]
    · rw [number.inj h, Fraction.toRat_zero, mul_zero]
  · rw [if_pos h]

/-- A product of factors other than zero has the names of both. -/
theorem nameCount_times (hx : x ≠ zero) (hy : y ≠ zero) (name : Name) :
    (times x y).nameCount name = x.nameCount name + y.nameCount name := by
  unfold times
  split
  · next c d hc hd =>
    rw [asNumber?_eq_some_iff.1 hc, asNumber?_eq_some_iff.1 hd]
    simp
  · split_ifs with absorbed right_one left_one
    · exact absurd absorbed (not_or_intro hx hy)
    · simp [right_one, one]
    · simp [left_one, one]
    · exact nameCount_operation name x y .multiply

theorem product (hx : Plain .multiply left right x) (hy : Plain .multiply left right y) :
    Plain .multiply left right (times x y) := by
  rcases times_cases x y with ⟨c, h⟩ | h | h | h <;> rw [h]
  · exact .literal c
  · exact hx
  · exact hy
  · exact .node hx hy

/-- **A simplified plain product has the same names or is zero.** It is a plain product again. -/
theorem simplify_product (h : Plain .multiply left right e) :
    Plain .multiply left right e.simplify ∧
      (e.simplify ≠ zero → ∀ name, e.simplify.nameCount name = e.nameCount name) := by
  induction h with
  | literal x => exact ⟨.literal x, fun _ _ => rfl⟩
  | left => exact ⟨.left, fun _ _ => rfl⟩
  | right => exact ⟨.right, fun _ _ => rfl⟩
  | @node x y _ _ ihx ihy =>
    obtain ⟨plainX, keptX⟩ := ihx
    obtain ⟨plainY, keptY⟩ := ihy
    rw [simplify_operation, combine]
    refine ⟨plainX.product plainY, fun some name => ?_⟩
    have hx : x.simplify ≠ zero := fun h => some (times_eq_zero (.inl h))
    have hy : y.simplify ≠ zero := fun h => some (times_eq_zero (.inr h))
    rw [nameCount_times hx hy, keptX hx, keptY hy, nameCount_operation]

end Plain

/-- **Plain sums and products pass.** A body of any size and bracketing that is made of literals,
its two parameters and a single operator is recognised as associative if the operator is that of
sums or that of products and each parameter comes once. -/
theorem isAssociative_of_plain {op : Operator} (combining : op = .add ∨ op = .multiply)
    {left right : Name} (distinct : left ≠ right) {e : Expression} (plain : Plain op left right e)
    (leftOnce : e.leaves.count (.identifier left) = 1)
    (rightOnce : e.leaves.count (.identifier right) = 1) :
    e.isAssociative left right = true := by
  obtain ⟨simple, kept⟩ : Plain op left right e.simplify ∧
      (e.simplify = zero ∨ ∀ name, e.simplify.nameCount name = e.nameCount name) := by
    rcases combining with rfl | rfl
    · obtain ⟨simple, kept, -⟩ := plain.simplify_sum leftOnce.le rightOnce.le
      exact ⟨simple, .inr kept⟩
    · obtain ⟨simple, kept⟩ := plain.simplify_product
      exact ⟨simple, or_iff_not_imp_left.2 kept⟩
  have single := simple.eq_of_mem_operators
  refine (isAssociative_iff distinct).2 ⟨simple.hasReduce_eq_false, fun o ho o' ho' =>
    (single o ho).trans (single o' ho').symm, ?_⟩
  rcases kept with absorbed | kept
  · rw [absorbed]
    exact .inl ⟨nameCount_number left 0, nameCount_number right 0⟩
  · have hasLeft := (kept left).trans leftOnce
    have hasRight := (kept right).trans rightOnce
    have found := simple.mem_operators distinct hasLeft hasRight
    refine .inr ⟨hasLeft, hasRight, ?_⟩
    rcases combining with rfl | rfl
    · exact .inl found
    · exact .inr found

/-- A product with factors of one and of zero, and a sum that starts with two literals. -/
theorem isAssociative_of_plain_literals :
    let product := operation (operation (identifier "b") .multiply (number 1)) .multiply
      (operation (number 0) .multiply (identifier "a"))
    let sum := operation (operation (number (.ofInt (-3))) .add (number 1)) .add
      (operation (identifier "b") .add (identifier "a"))
    product.isAssociative "a" "b" = true ∧ sum.isAssociative "a" "b" = true :=
  ⟨isAssociative_of_plain (.inr rfl) (by decide)
      (.node (.node .right (.literal 1)) (.node (.literal 0) .left)) rfl rfl,
    isAssociative_of_plain (.inl rfl) (by decide)
      (.node (.node (.literal _) (.literal 1)) (.node .right .left)) rfl rfl⟩

end Expression

end RatCalc
