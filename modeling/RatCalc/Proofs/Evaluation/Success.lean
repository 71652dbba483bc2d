import Mathlib
import RatCalc.Evaluation.Basic
import RatCalc.Proofs.Rational
import RatCalc.Proofs.Evaluation.Bracketing
import RatCalc.Proofs.Value.Range

/-!
# What a successful evaluation has done

For each form of expression: under a token that is not canceled, the expression has a value
exactly if its parts have values of the right kinds, from which that value is made. A `map` has a
value if its body has a number for every item, and a `reduce` if the tree that halves its row has
a result, or at once if it is the sum of a range.

## Main definitions

* `Sequence.elements`: the items of a sequence that are looked at one by one.

## Main results

* `Expression.evaluate_sequence_eq_ok_iff`, `Expression.evaluate_operation_eq_ok_iff`,
  `Expression.evaluate_map_eq_ok_iff`, `Expression.evaluate_reduce_eq_ok_iff`: one equivalence
  for each form.
-/

namespace RatCalc

/-! ### Values of the right kind -/

namespace Value

variable {precision : ℕ} {context : Context} {side : Side}

theorem expectNumber_eq_ok_iff {v : Value} {x : Fraction} :
    v.expectNumber precision context = .ok x ↔ v = .number x := by
  cases v <;> simp [expectNumber]

theorem expectSequence_eq_ok_iff {v : Value} {items : Sequence} :
    v.expectSequence precision context = .ok items ↔ v = .sequence items := by
  cases v <;> simp [expectSequence]

theorem expectBound_eq_ok_iff {v : Value} {n : ℤ} :
    v.expectBound precision side = .ok n ↔ v = .number (.ofInt n) := by
  cases v with
  | number value =>
    rw [Value.number.injEq, ← Fraction.toInt?_eq_ok_iff, expectBound]
    cases value.toInt? <;> simp [Except.mapError]
  | sequence items => simp [expectBound]

end Value

/-! ### The items that are looked at -/

namespace Sequence

/-- The items at all indices below the length. -/
def elements (s : Sequence) {n : ℕ} (fits : s.length? = some n) : List Fraction :=
  List.ofFn fun i : Fin n => s.get fits i i.isLt

@[simp]
theorem length_elements (s : Sequence) {n : ℕ} (fits : s.length? = some n) :
    (s.elements fits).length = n :=
  List.length_ofFn

/-- The length of a range is the distance of its ends, if that fits a word. -/
theorem length?_range_eq_some_iff {first last : ℤ} {n : ℕ} :
    (range first last).length? = some n ↔ last - first + 1 = n ∧ n < wordBound := by
  unfold length? rangeLength
  dsimp only
  split <;> simp only [Option.some.injEq, reduceCtorEq, false_iff] <;> omega

/-- A range is looked at from its first integer on. -/
theorem elements_range {first last : ℤ} {n : ℕ} (fits : (range first last).length? = some n) :
    (range first last).elements fits = consecutive first n := by
  refine List.ext_getElem (by simp [consecutive]) fun i _ _ => ?_
  simp [elements, consecutive, get]

/-- A list is looked at from its front to its end. -/
theorem elements_list {items : Array Fraction} {n : ℕ} (fits : (list items).length? = some n) :
    (list items).elements fits = items.toList := by
  obtain rfl : items.size = n := by simpa [length?] using fits
  refine List.ext_getElem (by simp) fun i _ _ => ?_
  simp [elements, get]

end Sequence

/-! ### The forms of expressions -/

namespace Expression

variable {config : Config} {env : Environment} {v : Value}

/-- Tasks for the items of a sequence all succeed if the function has a result for each item. -/
theorem mapIndexed_elements_eq_ok_iff {items : Sequence} {n : ℕ} (fits : items.length? = some n)
    {apply : Bool → Fraction → Except EvalError Fraction} {results : Array Fraction} :
    mapIndexed false n config.workers (fun i h canceled =>
        { result := apply canceled (items.get fits i h) }) = .ok results ↔
      List.Forall₂ (fun x y => apply false x = .ok y) (items.elements fits) results.toList := by
  rw [mapIndexed_eq_ok_iff (fun _ _ => rfl), answers_iff, List.forall₂_iff_get]
  simp only [Sequence.elements, List.length_ofFn, Array.length_toList, List.get_eq_getElem,
    List.getElem_ofFn, Nat.zero_add]
  constructor
  · rintro ⟨filled, answers⟩
    exact ⟨filled.symm, fun i _ hi => (answers i hi).2⟩
  · rintro ⟨filled, answers⟩
    exact ⟨filled.symm, fun i hi => ⟨filled ▸ hi, answers i (filled ▸ hi) hi⟩⟩

/-- A `map` over items with a body that is no mere name: the body has a number for every item. -/
theorem mapSequence_eq_ok_iff {items : Sequence}
    {apply : Bool → Fraction → Except EvalError Fraction} :
    mapSequence config false items apply = .ok v ↔
      ∃ n, ∃ fits : items.length? = some n, ∃ results : Array Fraction,
        v = .sequence (.list results) ∧
          List.Forall₂ (fun x y => apply false x = .ok y) (items.elements fits) results.toList := by
  unfold mapSequence
  split
  · next none => simp [none]
  · next n fits =>
    simp only [bind_eq_ok_iff, mapIndexed_elements_eq_ok_iff fits]
    constructor
    · rintro ⟨results, answers, hv⟩
      cases hv
      exact ⟨n, fits, results, rfl, answers⟩
    · rintro ⟨m, fits', results, rfl, answers⟩
      cases fits.symm.trans fits'
      exact ⟨results, answers, rfl⟩

/-- Behind the initial value of a `reduce` come the items of its input. -/
theorem pred_lt_of_ne_zero {i n : ℕ} (inside : i < n + 1) (later : ¬ i = 0) : i - 1 < n := by
  omega

/-- The row that a `reduce` folds: its initial value and the items of its input. -/
theorem row_eq_elements {items : Sequence} {n : ℕ} (fits : items.length? = some n)
    (initial : Fraction) (apply : Bool → Value → Value → Except EvalError Value) (depth : ℕ) :
    (Reduction.row {
        size := n + 1
        item := fun i h => .number <|
          if first : i = 0 then initial else items.get fits (i - 1) (pred_lt_of_ne_zero h first)
        apply := apply
        parallelDepth := depth } 0 (n + 1) (Nat.le_of_eq (Nat.zero_add (n + 1)))) =
      (initial :: items.elements fits).map Value.number := by
  refine List.ext_getElem (by simp) fun i _ _ => ?_
  cases i with
  | zero => simp [Reduction.row]
  | succ i => simp [Reduction.row, Sequence.elements]

/-- A `reduce` that is not computed in closed form runs the tree that halves the row of its
initial value and its items. -/
theorem reduceSequence_eq_ok_iff {items : Sequence} {initial : Fraction} {sum : Bool}
    {apply : Bool → Value → Value → Except EvalError Value}
    (closed : sum = true → ∀ first last, items ≠ .range first last) :
    reduceSequence config false items initial sum apply = .ok v ↔
      ∃ n, ∃ fits : items.length? = some n, n + 1 < wordBound ∧
        (Bracketing.halving ((initial :: items.elements fits).map .number)
          (List.cons_ne_nil _ _)).run (apply false) = .ok v := by
  unfold reduceSequence
  split
  · next first last => exact absurd rfl (closed rfl first last)
  · split
    · next none => simp [none]
    · next n fits =>
      split
      · next small =>
        rw [Reduction.fold_eq_ok_iff]
        simp only [row_eq_elements]
        constructor
        · intro run
          exact ⟨n, fits, small, run⟩
        · rintro ⟨m, fits', -, run⟩
          cases fits.symm.trans fits'
          exact run
      · next large =>
        simp only [reduceCtorEq, false_iff]
        rintro ⟨m, fits', small, -⟩
        cases fits.symm.trans fits'
        exact large small

theorem evaluate_number_eq_ok_iff {value : Fraction} :
    (number value).evaluate config false env = .ok v ↔ v = .number value := by
  simp [evaluate, eq_comm]

theorem evaluate_identifier_eq_ok_iff {name : Name} :
    (identifier name).evaluate config false env = .ok v ↔ env.lookup? name = some v := by
  simp only [evaluate, Bool.false_eq_true, if_false]
  split <;> simp_all

/-- A sequence is the range between two integers in order. -/
theorem evaluate_sequence_eq_ok_iff {first last : Expression} :
    (sequence first last).evaluate config false env = .ok v ↔
      ∃ start stop, first.evaluate config false env = .ok (.number (.ofInt start)) ∧
        last.evaluate config false env = .ok (.number (.ofInt stop)) ∧ start ≤ stop ∧
          v = .sequence (.range start stop) := by
  simp only [evaluate, Bool.false_eq_true, if_false, bind_eq_ok_iff,
    Value.expectBound_eq_ok_iff]
  constructor
  · rintro ⟨_, hf, start, rfl, _, hl, stop, rfl, hv⟩
    split at hv
    · cases hv
    · next order =>
      cases hv
      exact ⟨start, stop, hf, hl, not_lt.1 order, rfl⟩
  · rintro ⟨start, stop, hf, hl, order, rfl⟩
    exact ⟨_, hf, start, rfl, _, hl, stop, rfl, by rw [if_neg order.not_gt]; rfl⟩

/-- An operation joins two numbers. -/
theorem evaluate_operation_eq_ok_iff {left right : Expression} {op : Operator} :
    (operation left op right).evaluate config false env = .ok v ↔
      ∃ x y z, left.evaluate config false env = .ok (.number x) ∧
        right.evaluate config false env = .ok (.number y) ∧ op.apply x y = .ok z ∧
          v = .number z := by
  simp only [evaluate, Bool.false_eq_true, if_false, bind_eq_ok_iff,
    Value.expectNumber_eq_ok_iff]
  constructor
  · rintro ⟨_, hl, x, rfl, _, hr, y, rfl, z, hz, hv⟩
    cases hv
    exact ⟨x, y, z, hl, hr, hz, rfl⟩
  · rintro ⟨x, y, z, hl, hr, hz, rfl⟩
    exact ⟨_, hl, x, rfl, _, hr, y, rfl, z, hz, rfl⟩

/-- A `map` with its own parameter as the body hands its items on; any other body has a number
for every item. -/
theorem evaluate_map_eq_ok_iff {input body : Expression} {parameter : Name} :
    (map input parameter body).evaluate config false env = .ok v ↔
      ∃ items, input.evaluate config false env = .ok (.sequence items) ∧
        if body.isIdentifier parameter then v = .sequence items
        else ∃ n, ∃ fits : items.length? = some n, ∃ results : Array Fraction,
          v = .sequence (.list results) ∧
            List.Forall₂ (fun x y => body.evaluate config false
              (Environment.empty.bind parameter (.number x)) = .ok (.number y))
              (items.elements fits) results.toList := by
  simp only [evaluate, Bool.false_eq_true, if_false, bind_eq_ok_iff,
    Value.expectSequence_eq_ok_iff]
  have body_number {x y : Fraction} :
      (∃ value, body.evaluate config false (Environment.empty.bind parameter (.number x)) =
          .ok value ∧ value.expectNumber config.precision .mapResult = .ok y) ↔
        body.evaluate config false (Environment.empty.bind parameter (.number x)) =
          .ok (.number y) := by
    simp [Value.expectNumber_eq_ok_iff]
  constructor
  · rintro ⟨_, hi, items, rfl, hv⟩
    refine ⟨items, hi, ?_⟩
    split at hv
    · next identity =>
      cases hv
      rw [if_pos identity]
    · next other =>
      rw [if_neg other]
      simpa only [mapSequence_eq_ok_iff, bind_eq_ok_iff, body_number] using hv
  · rintro ⟨items, hi, hv⟩
    refine ⟨_, hi, items, rfl, ?_⟩
    split at hv
    · next identity => rw [if_pos identity, hv]; rfl
    · next other =>
      rw [if_neg other]
      simpa only [mapSequence_eq_ok_iff, bind_eq_ok_iff, body_number] using hv

/-- A `reduce` folds its items from its initial value on, if its body passes the test. -/
theorem evaluate_reduce_eq_ok_iff {input initial body : Expression} {left right : Name} :
    (reduce input initial left right body).evaluate config false env = .ok v ↔
      ∃ items start, input.evaluate config false env = .ok (.sequence items) ∧
        initial.evaluate config false env = .ok (.number start) ∧
          body.isAssociative left right = true ∧
            reduceSequence config false items start (body.isSum left right)
              (fun canceled x y => body.evaluate config canceled
                ((Environment.empty.bind left x).bind right y)) = .ok v := by
  simp only [evaluate, Bool.false_eq_true, if_false, bind_eq_ok_iff,
    Value.expectSequence_eq_ok_iff, Value.expectNumber_eq_ok_iff]
  constructor
  · rintro ⟨_, hi, items, rfl, _, hs, start, rfl, hv⟩
    split at hv
    · next associative => exact ⟨items, start, hi, hs, associative, hv⟩
    · cases hv
  · rintro ⟨items, start, hi, hs, associative, hv⟩
    exact ⟨_, hi, items, rfl, _, hs, start, rfl, by rwa [if_pos associative]⟩

end Expression

end RatCalc
