import Mathlib
import RatCalc.Proofs.Associativity.Meaning
import RatCalc.Proofs.Associativity.Uniform
import RatCalc.Proofs.Evaluation.FreeNames

/-!
# Regrouping the applications of a body

A body that is recognised as associative gives equal values however the numbers of a row are
bracketed, as long as it gives values. A body that simplifies to a single sum or product gives a
sum or product of the row. A body that gives sequences expects numbers, so that it can be applied
to the ends of the row only, or it does not look at its operands at all.

## Main definitions

* `Expression.call`: the application of a body to two values.

## Main results

* `Expression.run_call_of_sequences`: a body that gives sequences is applied to the ends.
* `Bracketing.run_weight`: a body that multiplies weights gives the product of the row.
* `Expression.run_call_unique`: a simplified body has one value for all bracketings.
* `Expression.run_call_equal`: the values of a body for two bracketings are equal.
-/

namespace RatCalc

/-! ### The ends of a row -/

namespace Bracketing

variable {α : Type} {f : α → α → Except EvalError α}

/-- Where a tree with two items or more has a result, the operation is applied to its first
item. -/
theorem exists_apply_head {left right : Bracketing α} {v : α}
    (h : (join left right).run f = .ok v) :
    ∃ x ∈ (join left right).items.head?, ∃ y w, f x y = .ok w := by
  induction left generalizing right v with
  | item x =>
    obtain ⟨_, y, hx, -, hv⟩ := run_join_eq_ok_iff.1 h
    cases hx
    exact ⟨x, rfl, y, v, hv⟩
  | join first second ih _ =>
    obtain ⟨u, -, hu, -, -⟩ := run_join_eq_ok_iff.1 h
    obtain ⟨x, hx, applied⟩ := ih hu
    exact ⟨x, List.mem_head?_append_of_mem_head? hx, applied⟩

/-- Where a tree with two items or more has a result, the operation is applied to its last
item. -/
theorem exists_apply_last {left right : Bracketing α} {v : α}
    (h : (join left right).run f = .ok v) :
    ∃ y ∈ (join left right).items.getLast?, ∃ x w, f x y = .ok w := by
  induction right generalizing left v with
  | item y =>
    obtain ⟨x, _, -, hy, hv⟩ := run_join_eq_ok_iff.1 h
    cases hy
    exact ⟨y, by simp [items], x, v, hv⟩
  | join first second _ ih =>
    obtain ⟨-, u, -, hu, -⟩ := run_join_eq_ok_iff.1 h
    obtain ⟨y, hy, applied⟩ := ih hu
    exact ⟨y, List.mem_getLast?_append_of_mem_getLast? hy, applied⟩

/-- If the operation gives sequences, only an item is a number. -/
theorem eq_item_of_kind {f : Value → Value → Except EvalError Value}
    (sequences : ∀ {x y v}, f x y = .ok v → v.kind = .sequence) {t : Bracketing Value} {x : Value}
    (h : t.run f = .ok x) (number : x.kind = .number) : t = item x := by
  cases t with
  | item y =>
    cases h
    rfl
  | join left right =>
    obtain ⟨u, w, -, -, hx⟩ := run_join_eq_ok_iff.1 h
    cases number.symm.trans (sequences hx)

/-- An operation that multiplies weights, up to a factor, gives a number that weighs what the
items weigh together, with the factor once for every application. -/
theorem run_weight {M : Type*} [CommMonoid M] {weight : Fraction → M} {factor : M}
    {f : Value → Value → Except EvalError Value}
    (step : ∀ {x y v}, f (.number x) (.number y) = .ok v →
      ∃ z, v = .number z ∧ weight z = weight x * weight y * factor)
    {t : Bracketing Value} {xs : List Fraction} (items : t.items = xs.map .number) {v : Value}
    (h : t.run f = .ok v) :
    ∃ z, v = .number z ∧ weight z = (xs.map weight).prod * factor ^ (xs.length - 1) := by
  induction t generalizing xs v with
  | item x =>
    obtain ⟨y, rfl, rfl⟩ := List.map_eq_singleton_iff.1 items.symm
    cases h
    exact ⟨y, rfl, by simp⟩
  | join left right ihl ihr =>
    obtain ⟨ys, zs, rfl, hl, hr⟩ := List.map_eq_append_iff.1 items.symm
    obtain ⟨a, b, ha, hb, hv⟩ := run_join_eq_ok_iff.1 h
    obtain ⟨y, rfl, wy⟩ := ihl hl.symm ha
    obtain ⟨z, rfl, wz⟩ := ihr hr.symm hb
    obtain ⟨u, rfl, wu⟩ := step hv
    have some_left : 0 < ys.length := by
      rw [← List.length_map Value.number, hl]
      exact List.length_pos_of_ne_nil left.items_ne_nil
    have some_right : 0 < zs.length := by
      rw [← List.length_map Value.number, hr]
      exact List.length_pos_of_ne_nil right.items_ne_nil
    have count : (ys ++ zs).length - 1 = ys.length - 1 + (zs.length - 1) + 1 := by
      rw [List.length_append]
      omega
    refine ⟨u, rfl, ?_⟩
    rw [wu, wy, wz, count, pow_succ, pow_add, List.map_append, List.prod_append]
    ac_rfl

end Bracketing

namespace Expression

variable {config : Config} {left right : Name}

/-- The application of a body with two parameters to two values. -/
def call (config : Config) (body : Expression) (left right : Name) (x y : Value) :
    Except EvalError Value :=
  body.evaluate config false ((Environment.empty.bind left x).bind right y)

/-- The value of a call depends on the operands whose names are free in the body. -/
theorem call_congr {body : Expression} {x x' y y' : Value}
    (first : left ∈ body.free → x = x') (second : right ∈ body.free → y = y') :
    body.call config left right x y = body.call config left right x' y' := by
  refine evaluate_congr fun name free => ?_
  by_cases isRight : name = right
  · subst isRight
    rw [second free, Environment.lookup?_bind_self, Environment.lookup?_bind_self]
  · rw [Environment.lookup?_bind_of_ne _ _ isRight, Environment.lookup?_bind_of_ne _ _ isRight]
    by_cases isLeft : name = left
    · subst isLeft
      rw [first free]
    · rw [Environment.lookup?_bind_of_ne _ _ isLeft, Environment.lookup?_bind_of_ne _ _ isLeft]

/-- The first operand is of one kind in all calls with a value, if its name is free in the body. -/
theorem exists_kind_left {body : Expression} (distinct : left ≠ right) (free : left ∈ body.free)
    (compound : body ≠ identifier left) :
    ∃ kind, ∀ {x y v : Value}, body.call config left right x y = .ok v → x.kind = kind := by
  obtain ⟨kind, expects⟩ := exists_kind_of_mem_free free compound
  refine ⟨kind, fun {x y v} h => ?_⟩
  obtain ⟨a, found, of_kind⟩ := expects h
  rw [Environment.lookup?_bind_bind _ distinct] at found
  rwa [Option.some.inj found]

/-- The second operand is of one kind in all calls with a value, if its name is free in the
body. -/
theorem exists_kind_right {body : Expression} (free : right ∈ body.free)
    (compound : body ≠ identifier right) :
    ∃ kind, ∀ {x y v : Value}, body.call config left right x y = .ok v → y.kind = kind := by
  obtain ⟨kind, expects⟩ := exists_kind_of_mem_free free compound
  refine ⟨kind, fun {x y v} h => ?_⟩
  obtain ⟨b, found, of_kind⟩ := expects h
  rw [Environment.lookup?_bind_self] at found
  rwa [Option.some.inj found]

/-- **A body that gives sequences is applied to the ends of a row.** It expects a number or a
sequence for each of its operands. The first and the last operand of a row are numbers, and all
others that it could get are sequences. -/
theorem run_call_of_sequences {body : Expression} (distinct : left ≠ right)
    (sequences : ∀ {env : Environment} {v : Value},
      body.evaluate config false env = .ok v → v.kind = .sequence)
    (compound : ∀ name, body ≠ identifier name) {l r : Bracketing Value}
    (numbers : ∀ x ∈ (Bracketing.join l r).items, x.kind = .number) {v : Value}
    (h : (Bracketing.join l r).run (body.call config left right) = .ok v) :
    ∃ x ∈ (Bracketing.join l r).items.head?, ∃ y ∈ (Bracketing.join l r).items.getLast?,
      body.call config left right x y = .ok v := by
  obtain ⟨first, hfirst, y', u, applied⟩ := Bracketing.exists_apply_head h
  obtain ⟨last, hlast, x', u', applied'⟩ := Bracketing.exists_apply_last h
  obtain ⟨x, y, hx, hy, hv⟩ := Bracketing.run_join_eq_ok_iff.1 h
  refine ⟨first, hfirst, last, hlast, ?_⟩
  rw [← hv]
  refine call_congr (fun free => ?_) fun free => ?_
  · obtain ⟨kind, expects⟩ := exists_kind_left distinct free (compound left)
    have kind_number : x.kind = .number := by
      rw [expects hv, ← expects applied]
      exact numbers first (List.mem_of_mem_head? hfirst)
    obtain rfl := Bracketing.eq_item_of_kind sequences hx kind_number
    exact (Option.some.inj hfirst).symm
  · obtain ⟨kind, expects⟩ := exists_kind_right free (compound right)
    have kind_number : y.kind = .number := by
      rw [expects hv, ← expects applied']
      exact numbers last (List.mem_of_mem_getLast? hlast)
    obtain rfl := Bracketing.eq_item_of_kind sequences hy kind_number
    simpa [Bracketing.items, eq_comm] using hlast

/-- A call of a body with a single operator, in which each parameter occurs once, multiplies the
weights of its operands. -/
theorem weight_call {M : Type*} [CommMonoid M] {weight : Fraction → M} {op : Operator}
    (multiplies : ∀ {x y z : Fraction}, op.apply x y = .ok z → weight z = weight x * weight y)
    (distinct : left ≠ right) {l r : Expression} {o : Operator}
    (plain : (operation l o r).hasReduce = false)
    (single : ∀ o' ∈ (operation l o r).operators, o' = op)
    (once_left : (operation l o r).leaves.count (.identifier left) = 1)
    (once_right : (operation l o r).leaves.count (.identifier right) = 1) {x y : Fraction}
    {v : Value} (h : (operation l o r).call config left right (.number x) (.number y) = .ok v) :
    ∃ z, v = .number z ∧
      weight z = weight x * weight y * (operation l o r).literals weight := by
  obtain ⟨a, b, z, -, -, -, rfl⟩ := evaluate_operation_eq_ok_iff.1 h
  have value := weight_evaluate multiplies distinct plain single h
  rw [once_left, once_right, pow_one, pow_one] at value
  exact ⟨z, rfl, value⟩

/-- Sums are the products of the rational numbers as an additive group. -/
theorem weight_sum {x y z : Fraction} (h : Operator.add.apply x y = .ok z) :
    Multiplicative.ofAdd z.toRat =
      Multiplicative.ofAdd x.toRat * Multiplicative.ofAdd y.toRat := by
  cases h
  rw [Fraction.toRat_add, ofAdd_add]

theorem weight_sum_injective :
    Function.Injective fun x : Fraction => Multiplicative.ofAdd x.toRat :=
  Multiplicative.ofAdd.injective.comp Fraction.toRat_injective

theorem weight_product {x y z : Fraction} (h : Operator.multiply.apply x y = .ok z) :
    z.toRat = x.toRat * y.toRat := by
  cases h
  exact Fraction.toRat_mul x y

/-- Two bracketings of one row give the same number if the operator of the body multiplies
weights that tell numbers apart. -/
theorem run_call_of_weight {M : Type*} [CommMonoid M] {weight : Fraction → M}
    (injective : Function.Injective weight) {op : Operator}
    (multiplies : ∀ {x y z : Fraction}, op.apply x y = .ok z → weight z = weight x * weight y)
    (distinct : left ≠ right) {l r : Expression} {o : Operator}
    (plain : (operation l o r).hasReduce = false)
    (single : ∀ o' ∈ (operation l o r).operators, o' = op)
    (once_left : (operation l o r).leaves.count (.identifier left) = 1)
    (once_right : (operation l o r).leaves.count (.identifier right) = 1)
    {xs : List Fraction} {s t : Bracketing Value} (hs : s.items = xs.map .number)
    (ht : t.items = xs.map .number) {v w : Value}
    (hv : s.run ((operation l o r).call config left right) = .ok v)
    (hw : t.run ((operation l o r).call config left right) = .ok w) : v = w := by
  obtain ⟨a, rfl, weight_a⟩ := Bracketing.run_weight
    (weight_call multiplies distinct plain single once_left once_right) hs hv
  obtain ⟨b, rfl, weight_b⟩ := Bracketing.run_weight
    (weight_call multiplies distinct plain single once_left once_right) ht hw
  rw [injective (weight_a.trans weight_b.symm)]

/-- Two bracketings of one row give the same sequence if the body gives sequences. -/
theorem run_call_of_sequences_unique {body : Expression} (distinct : left ≠ right)
    (sequences : ∀ {env : Environment} {v : Value},
      body.evaluate config false env = .ok v → v.kind = .sequence)
    (compound : ∀ name, body ≠ identifier name) {l r l' r' : Bracketing Value}
    (numbers : ∀ x ∈ (Bracketing.join l r).items, x.kind = .number)
    (same : (Bracketing.join l r).items = (Bracketing.join l' r').items) {v w : Value}
    (hv : (Bracketing.join l r).run (body.call config left right) = .ok v)
    (hw : (Bracketing.join l' r').run (body.call config left right) = .ok w) : v = w := by
  obtain ⟨x, hx, y, hy, value⟩ := run_call_of_sequences distinct sequences compound numbers hv
  rw [same] at numbers hx hy
  obtain ⟨x', hx', y', hy', value'⟩ := run_call_of_sequences distinct sequences compound numbers hw
  cases Option.mem_unique hx hx'
  cases Option.mem_unique hy hy'
  exact Except.ok.inj (value.symm.trans value')

/-- A sequence literal gives sequences. -/
theorem kind_of_evaluate_sequence {first last : Expression} {env : Environment} {v : Value}
    (h : (sequence first last).evaluate config false env = .ok v) : v.kind = .sequence := by
  obtain ⟨start, stop, -, -, -, rfl⟩ := evaluate_sequence_eq_ok_iff.1 h
  rfl

/-- A `map` gives sequences. -/
theorem kind_of_evaluate_map {input body : Expression} {parameter : Name} {env : Environment}
    {v : Value} (h : (map input parameter body).evaluate config false env = .ok v) :
    v.kind = .sequence := by
  obtain ⟨items, -, value⟩ := evaluate_map_eq_ok_iff.1 h
  split at value
  · rw [value]
    rfl
  · obtain ⟨n, fits, results, rfl, -⟩ := value
    rfl

/-- An operation gives numbers. -/
theorem kind_of_evaluate_operation {l r : Expression} {op : Operator} {env : Environment}
    {v : Value} (h : (operation l op r).evaluate config false env = .ok v) : v.kind = .number := by
  obtain ⟨x, y, z, -, -, -, rfl⟩ := evaluate_operation_eq_ok_iff.1 h
  rfl

/-- A mere name does not mention both parameters. -/
theorem ne_identifier_of_leaves {body : Expression} (distinct : left ≠ right)
    (has_left : Leaf.identifier left ∈ body.leaves)
    (has_right : Leaf.identifier right ∈ body.leaves) (name : Name) : body ≠ identifier name := by
  rintro rfl
  have both := (List.mem_singleton.1 has_left).trans (List.mem_singleton.1 has_right).symm
  exact distinct (Leaf.identifier.inj both)

/-- **A body that passes as it stands has one value at most** for all bracketings of a row of
numbers. -/
theorem run_call_unique {body : Expression} (distinct : left ≠ right)
    (uniform : body.isUniform left right = true) {xs : List Fraction} {s t : Bracketing Value}
    (hs : s.items = xs.map .number) (ht : t.items = xs.map .number) {v w : Value}
    (hv : s.run (body.call config left right) = .ok v)
    (hw : t.run (body.call config left right) = .ok w) : v = w := by
  have same : s.items = t.items := hs.trans ht.symm
  have numbers : ∀ x ∈ s.items, x.kind = .number := by
    intro x hx
    obtain ⟨y, -, rfl⟩ := List.mem_map.1 (hs ▸ hx)
    rfl
  -- A row of a single item has one bracketing only, in which the body is not applied.
  cases s with
  | item x =>
    rw [Bracketing.eq_item_of_items same.symm] at hw
    exact Except.ok.inj (hv.symm.trans hw)
  | join l r =>
  cases t with
  | item x =>
    cases Bracketing.eq_item_of_items same
  | join l' r' =>
  rcases isUniform_cases distinct uniform with ⟨no_left, no_right⟩ | ⟨once_left, once_right, single⟩
  · obtain ⟨x, y, -, -, value⟩ := Bracketing.run_join_eq_ok_iff.1 hv
    obtain ⟨x', y', -, -, value'⟩ := Bracketing.run_join_eq_ok_iff.1 hw
    have constant : body.call config left right x y = body.call config left right x' y' :=
      call_congr (fun free => absurd (mem_leaves_of_mem_free free) no_left)
        (fun free => absurd (mem_leaves_of_mem_free free) no_right)
    exact Except.ok.inj (value.symm.trans (constant.trans value'))
  have compound := ne_identifier_of_leaves distinct
    (List.count_pos_iff.1 (once_left.symm ▸ Nat.one_pos))
    (List.count_pos_iff.1 (once_right.symm ▸ Nat.one_pos))
  obtain ⟨u, scanned, -⟩ := (Option.any_eq_true _ _).1 uniform
  have plain := hasReduce_of_scan? scanned
  cases body with
  | number value => simp [leaves] at once_left
  | identifier name => exact absurd rfl (compound name)
  | sequence first last =>
    exact run_call_of_sequences_unique distinct kind_of_evaluate_sequence compound numbers same
      hv hw
  | operation x op y =>
    rcases single with sums | products
    · exact run_call_of_weight weight_sum_injective weight_sum distinct plain sums once_left
        once_right hs ht hv hw
    · exact run_call_of_weight Fraction.toRat_injective weight_product distinct plain products
        once_left once_right hs ht hv hw
  | map input parameter lambda =>
    exact run_call_of_sequences_unique distinct kind_of_evaluate_map compound numbers same hv hw
  | reduce => cases plain

/-- The simplified body has a value for all bracketings for which the body has one. -/
theorem run_simplify {body : Expression} {t : Bracketing Value} {v : Value}
    (h : t.run (body.call config left right) = .ok v) :
    ∃ w, t.run (body.simplify.call config left right) = .ok w ∧ v.Unrolls w :=
  Bracketing.run_related (R := Value.Unrolls)
    (fun _ _ _ _ _ hx hy hu =>
      evaluate_simplify_unrolls (((Environment.Unrolls.refl _).bind left hx).bind right hy) hu)
    (fun x _ => .refl x) h

/-- **The values of an associative body for two bracketings of a row of numbers are equal**, if
there are any. The body that is run is not simplified. -/
theorem run_call_equal {body : Expression} (associative : body.isAssociative left right = true)
    {xs : List Fraction} {s t : Bracketing Value} (hs : s.items = xs.map .number)
    (ht : t.items = xs.map .number) {v w : Value}
    (hv : s.run (body.call config left right) = .ok v)
    (hw : t.run (body.call config left right) = .ok w) : v.equal w = true := by
  rw [isAssociative, Bool.and_eq_true, bne_iff_ne] at associative
  obtain ⟨distinct, uniform⟩ := associative
  obtain ⟨v', hv', unrolls⟩ := run_simplify hv
  obtain ⟨w', hw', unrolls'⟩ := run_simplify hw
  obtain rfl := run_call_unique distinct uniform hs ht hv' hw'
  exact unrolls.equal_of_common unrolls'

/-- A `reduce` gives what the body gives for the row that is halved, also where the sum of a
range is computed in closed form. -/
theorem run_halving_of_reduceSequence {body : Expression} {items : Sequence} {n : ℕ}
    (fits : items.length? = some n) {initial : Fraction} {v : Value}
    (h : reduceSequence config false items initial (body.isSum left right)
      (fun canceled x y => body.evaluate config canceled
        ((Environment.empty.bind left x).bind right y)) = .ok v) :
    (Bracketing.halving ((initial :: items.elements fits).map .number)
      (List.cons_ne_nil _ _)).run (body.call config left right) = .ok v := by
  by_cases closed : body.isSum left right = true ∧ ∃ first last, items = .range first last
  · obtain ⟨sum, first, last, rfl⟩ := closed
    rw [sum] at h
    exact (run_halving_isSum sum fits initial).trans h
  · obtain ⟨m, fits', -, run⟩ := (reduceSequence_eq_ok_iff fun sum first last range =>
      closed ⟨sum, first, last, range⟩).1 h
    cases fits.symm.trans fits'
    exact run

/-- **Associativity is recognised soundly.** The values of an associative body for any two
bracketings of a row of numbers are equal. So a `reduce`, which halves the row of its initial
value and its items, agrees with every bracketing of that row. -/
theorem isAssociative_sound (config : Config) {body : Expression}
    (associative : body.isAssociative left right = true) :
    (∀ (xs : List Fraction) {s t : Bracketing Value} {v w : Value},
      s.items = xs.map .number → t.items = xs.map .number →
      s.run (body.call config left right) = .ok v → t.run (body.call config left right) = .ok w →
      v.equal w = true) ∧
    ∀ (items : Sequence) {n : ℕ} (fits : items.length? = some n) (initial : Fraction)
      {t : Bracketing Value} {v w : Value},
      reduceSequence config false items initial (body.isSum left right)
        (fun canceled x y => body.evaluate config canceled
          ((Environment.empty.bind left x).bind right y)) = .ok v →
      t.items = (initial :: items.elements fits).map .number →
      t.run (body.call config left right) = .ok w → v.equal w = true := by
  constructor
  · intro xs s t v w hs ht hv hw
    exact run_call_equal associative hs ht hv hw
  · intro items n fits initial t v w h ht hw
    exact run_call_equal associative (Bracketing.items_halving _ _) ht
      (run_halving_of_reduceSequence fits h) hw

/-- Three numbers grouped to the left and to the right, and a `reduce` over a range of two. -/
theorem isAssociative_sound_add_one :
    (operation (identifier "x") .add (operation (identifier "y") .add one)).isAssociative
        "x" "y" = true ∧
      ∃ u v w,
        (Bracketing.fromLeft (.number 1) [.number (.ofInt 2), .number (.ofInt 3)]).run
            ((operation (identifier "x") .add (operation (identifier "y") .add one)).call
              {} "x" "y") = .ok u ∧
          (Bracketing.join (.item (.number 1))
              (.join (.item (.number (.ofInt 2))) (.item (.number (.ofInt 3))))).run
            ((operation (identifier "x") .add (operation (identifier "y") .add one)).call
              {} "x" "y") = .ok v ∧
          reduceSequence {} false (.range 2 3) 1 false (fun canceled x y =>
            (operation (identifier "x") .add (operation (identifier "y") .add one)).evaluate {}
              canceled ((Environment.empty.bind "x" x).bind "y" y)) = .ok w ∧
          u.equal v = true ∧ w.equal v = true := by
  have associative : (operation (identifier "x") .add
      (operation (identifier "y") .add one)).isAssociative "x" "y" = true := by
    decide
  obtain ⟨trees, reduced⟩ := isAssociative_sound {} associative
  have left_first : (Bracketing.fromLeft (.number 1)
      [.number (.ofInt 2), .number (.ofInt 3)]).run
        ((operation (identifier "x") .add (operation (identifier "y") .add one)).call {} "x" "y") =
          .ok (.number (.ofInt 8)) := by
    cbv
  have right_first : (Bracketing.join (.item (.number 1))
      (.join (.item (.number (.ofInt 2))) (.item (.number (.ofInt 3))))).run
        ((operation (identifier "x") .add (operation (identifier "y") .add one)).call {} "x" "y") =
          .ok (.number (.ofInt 8)) := by
    cbv
  have fits : (Sequence.range 2 3).length? = some 2 :=
    Sequence.length?_range_eq_some_iff.2 ⟨rfl, by decide⟩
  have reduced_value : reduceSequence {} false (.range 2 3) 1 false
      (fun canceled x y =>
        (operation (identifier "x") .add (operation (identifier "y") .add one)).evaluate {}
          canceled ((Environment.empty.bind "x" x).bind "y" y)) = .ok (.number (.ofInt 8)) := by
    have halved : Bracketing.halving
        (((1 : Fraction) :: (Sequence.range 2 3).elements fits).map Value.number)
        (List.cons_ne_nil _ _) = .join (.item (.number 1))
          (.join (.item (.number (.ofInt 2))) (.item (.number (.ofInt 3)))) := by
      have row : (Sequence.range 2 3).elements fits = [.ofInt 2, .ofInt 3] :=
        Sequence.elements_range fits
      simp [row, Bracketing.halving]
    refine (reduceSequence_eq_ok_iff fun h => absurd h Bool.false_ne_true).2
      ⟨2, fits, by decide, ?_⟩
    rw [halved]
    exact right_first
  exact ⟨associative, _, _, _, left_first, right_first, reduced_value,
    trees [1, .ofInt 2, .ofInt 3] rfl rfl left_first right_first,
    reduced (.range 2 3) fits 1 reduced_value rfl right_first⟩

end Expression

end RatCalc
