import Mathlib
import RatCalc.Proofs.Concurrency.Evaluation
import RatCalc.Proofs.Evaluation.Unrolling
import RatCalc.Proofs.Evaluation.RangeSum

/-!
# No expression tells a range from its list

A range and the list of its items take different ways through an evaluation. The range knows its
length from its ends, has the closed form of its sum, and is handed on by a `map` with a mere name
as it is. Still nothing that an expression does with a sequence tells the two apart, its text in a
message included. So environments with equal values give equal values, or one and the same error.

## Main definitions

* `Value.Storable`, `Environment.Storable`: ranges have their ends in order, and lists are short
  enough to be stored.
* `Sequence.Copies`: a list of the items of a range that has some.
* `Value.Alike`, `Environment.Alike`: values that differ in this way only.
* `Outcome`: both results are values that are related, or both are the same error.

## Main results

* `Sequence.alike_of_equal`: equal sequences that can be stored are alike.
* `Sequence.Copies.render_eq`, `Sequence.Copies.itemwise_eq`, `Expression.reduceSequence_copies`:
  what is done with a sequence.
* `Expression.evaluate_equal`: equal environments give equal results.
-/

namespace RatCalc

/-! ### What can be stored -/

/-- The number of items that a list is long enough not to have. -/
def vectorBound : ℕ := Nat.pow 2 63

theorem vectorBound_lt_wordBound : vectorBound < wordBound := by decide

/-- The ends of a range are in order, and a list fits the memory. -/
def Sequence.Storable : Sequence → Prop
  | range first last => first ≤ last
  | list items => items.size < vectorBound

/-- A number, or a sequence that can be stored. -/
def Value.Storable : Value → Prop
  | number _ => True
  | sequence items => items.Storable

/-- All values of an environment can be stored. -/
def Environment.Storable (env : Environment) : Prop :=
  ∀ name v, env.lookup? name = some v → v.Storable

/-! ### Copies of ranges -/

namespace Sequence

variable {s t : Sequence}

/-- The first sequence is the second, or the list of its items. There are some, and with one item
more they could still be counted. -/
structure Copies (s t : Sequence) : Prop where
  unrolls : s.Unrolls t
  counted : ∃ n, t.length? = some n ∧ 0 < n ∧ n + 1 < wordBound

/-- Two sequences are the same, or one of them is a copy of the other. -/
def Alike (s t : Sequence) : Prop :=
  s = t ∨ s.Copies t ∨ t.Copies s

/-- What does not tell a copy from its range does not tell sequences apart that are alike. -/
theorem Alike.congr {γ : Type*} {f : Sequence → γ} (copies : ∀ {s t}, s.Copies t → f s = f t)
    (h : s.Alike t) : f s = f t := by
  rcases h with rfl | h | h
  · rfl
  · exact copies h
  · exact (copies h).symm

/-- A list that can be stored and is equal to a range is a copy of it. -/
theorem copies_of_countsUp {first last : ℤ} {items : Array Fraction} (order : first ≤ last)
    (small : items.size < vectorBound) (h : countsUp first last items.toList = true) :
    (list items).Copies (range first last) := by
  obtain ⟨same, ends⟩ := eq_consecutive_of_countsUp h
  rw [Array.length_toList] at same ends
  have bound : items.size + 1 < wordBound := lt_of_le_of_lt small vectorBound_lt_wordBound
  have fits : (range first last).length? = some items.size :=
    length?_range_eq_some_iff.2 ⟨by omega, by omega⟩
  exact ⟨.range fits (same.trans (elements_range fits).symm), items.size, fits, by omega, bound⟩

/-- **Equal sequences that can be stored are alike.** -/
theorem alike_of_equal (hs : s.Storable) (ht : t.Storable) (h : s.equal t = true) :
    s.Alike t := by
  cases s with
  | range first last =>
    cases t with
    | range first' last' =>
      have same : first = first' ∧ last = last' := by simpa [equal] using h
      exact .inl (by rw [same.1, same.2])
    | list items => exact .inr (.inr (copies_of_countsUp hs ht h))
  | list items =>
    cases t with
    | range first last => exact .inr (.inl (copies_of_countsUp ht hs h))
    | list items' =>
      have same : items = items' := by simpa [equal] using h
      exact .inl (by rw [same])

theorem Alike.equal (h : s.Alike t) : s.equal t = true := by
  rcases h with rfl | h | h
  · exact s.equal_self
  · exact h.unrolls.equal
  · rw [equal_comm]
    exact h.unrolls.equal

/-! ### What is done with sequences -/

namespace Copies

/-- A copy has the items of its range. -/
theorem toList_eq (h : s.Copies t) : s.toList = t.toList := by
  obtain ⟨unrolls, n, counted, several, -⟩ := h
  cases unrolls with
  | refl => rfl
  | @range first last items m fits same =>
    obtain rfl : m = n := Option.some.inj (fits.symm.trans counted)
    have distance := (length?_range_eq_some_iff.1 fits).1
    have order : first ≤ last := by omega
    exact same.trans (elements_range_eq_toList order fits)

/-- A copy has the text of its range. -/
theorem render_eq (h : s.Copies t) (precision : ℕ) : s.render precision = t.render precision := by
  rw [render, render, h.toList_eq]

/-- **What is done with the items of a copy** is what is done with those of its range. -/
theorem itemwise_eq {β : Type*} (h : s.Copies t) (tooLong : β)
    (items : (n : ℕ) → ((i : ℕ) → i < n → Fraction) → β) :
    s.itemwise tooLong (fun n fits => items n (s.get fits)) =
      t.itemwise tooLong fun n fits => items n (t.get fits) := by
  obtain ⟨unrolls, n, counted, -⟩ := h
  cases unrolls with
  | refl => rfl
  | @range first last copy m fits same =>
    have size : (list copy).length? = some m := by
      rw [length?, ← Array.length_toList, same, length_elements]
    have each : (list copy).get size = (range first last).get fits := by
      funext i hi
      have elements : (list copy).elements size = (range first last).elements fits :=
        (elements_list size).trans same
      exact congrFun (List.ofFn_injective elements) ⟨i, hi⟩
    rw [itemwise_of_some size, itemwise_of_some fits, each]

end Copies

end Sequence

namespace Expression

variable {config : Config} {s t : Sequence}

/-- A `map` over a copy. -/
theorem mapSequence_copies (h : s.Copies t)
    (apply : Bool → Fraction → Except EvalError Fraction) :
    mapSequence config false s apply = mapSequence config false t apply := by
  rw [mapSequence_eq, mapSequence_eq]
  exact h.itemwise_eq (.error .sequenceTooLong) fun n get => do
    let results ← mapIndexed false n config.workers fun i h canceled =>
      { result := apply canceled (get i h) }
    return Value.sequence (.list results)

/-- **A `reduce` over a copy.** Where the range has the closed form of its sum, the copy is
folded, to the same number. -/
theorem reduceSequence_copies (h : s.Copies t) (initial : Fraction) (body : Expression)
    (left right : Name) :
    let apply (canceled : Bool) (x y : Value) :=
      body.evaluate config canceled ((Environment.empty.bind left x).bind right y)
    reduceSequence config false s initial (body.isSum left right) apply =
      reduceSequence config false t initial (body.isSum left right) apply := by
  intro apply
  have folded : reduceSequence config false s initial false apply =
      reduceSequence config false t initial false apply := by
    have unsummed (s : Sequence) : s.summed? false = none := by cases s <;> rfl
    rw [reduceSequence_eq, reduceSequence_eq, unsummed, unsummed]
    exact h.itemwise_eq (.error .sequenceTooLong) fun n get =>
      if n + 1 < wordBound then
        Reduction.fold
          { size := n + 1
            item := fun i h => .number <|
              if first : i = 0 then initial else get (i - 1) (pred_lt_of_ne_zero h first)
            apply := apply
            parallelDepth := config.parallelDepth }
          0 (n + 1) (Nat.succ_pos n) (Nat.le_of_eq (Nat.zero_add (n + 1))) 0 false
      else
        .error .sequenceTooLong
  cases sum : body.isSum left right with
  | false => exact folded
  | true =>
    obtain ⟨unrolls, n, counted, -, short⟩ := h
    cases unrolls with
    | refl => rfl
    | @range first last copy m fits same =>
      obtain rfl : m = n := Option.some.inj (fits.symm.trans counted)
      have listed : reduceSequence config false (.list copy) initial true apply =
          reduceSequence config false (.list copy) initial false apply := rfl
      have closed : reduceSequence config false (.range first last) initial true apply =
          .ok (.number (.ofInt (Sequence.sumOfRange first last) + initial)) := rfl
      rw [listed, folded, closed]
      exact (reduceSequence_eq_ok_iff fun never => absurd never Bool.false_ne_true).2
        ⟨m, fits, short, run_halving_isSum sum fits initial⟩

end Expression

/-! ### Values and environments -/

/-- Two values are the same number, or sequences that are alike. -/
inductive Value.Alike : Value → Value → Prop
  | number (x : Fraction) : Alike (.number x) (.number x)
  | sequence {s t : Sequence} (h : s.Alike t) : Alike (.sequence s) (.sequence t)

/-- Two environments bind the same names, to values that are alike. -/
def Environment.Alike (env env' : Environment) : Prop :=
  ∀ name, Option.Rel Value.Alike (env.lookup? name) (env'.lookup? name)

namespace Value

variable {v w : Value}

theorem alike_of_equal (hv : v.Storable) (hw : w.Storable) (h : v.equal w = true) :
    v.Alike w := by
  cases v with
  | number x =>
    cases w with
    | number y =>
      obtain rfl : x = y := by simpa [equal] using h
      exact .number x
    | sequence t => cases h
  | sequence s =>
    cases w with
    | number y => cases h
    | sequence t => exact .sequence (Sequence.alike_of_equal hv hw h)

theorem Alike.refl (v : Value) : v.Alike v := by
  cases v with
  | number x => exact .number x
  | sequence s => exact .sequence (.inl rfl)

theorem Alike.equal (h : v.Alike w) : v.equal w = true := by
  cases h with
  | number x => simp [Value.equal]
  | sequence h => exact h.equal

end Value

/-- Equal environments whose values can be stored are alike. -/
theorem Environment.alike_of_equal {env env' : Environment} (h : env.Storable)
    (h' : env'.Storable)
    (equal : ∀ name, Option.Rel (fun v w => v.equal w = true) (env.lookup? name)
      (env'.lookup? name)) : env.Alike env' := by
  intro name
  have values := equal name
  generalize first : env.lookup? name = x at values ⊢
  generalize second : env'.lookup? name = y at values ⊢
  cases values with
  | some same => exact .some (Value.alike_of_equal (h name _ first) (h' name _ second) same)
  | none => exact .none

/-! ### Results -/

/-- Both results are values, and these are related, or both are the same error. -/
inductive Coincide {α β : Type} (R : α → β → Prop) : Except EvalError α → Except EvalError β → Prop
  | ok {x : α} {y : β} (h : R x y) : Coincide R (.ok x) (.ok y)
  | error (e : EvalError) : Coincide R (.error e) (.error e)

namespace Coincide

variable {α β α' β' : Type} {R : α → β → Prop} {S : α' → β' → Prop}
variable {r : Except EvalError α} {r' : Except EvalError β}

/-- What comes after results that coincide does so, if it does after related values. -/
theorem bind (h : Coincide R r r') {f : α → Except EvalError α'} {g : β → Except EvalError β'}
    (after : ∀ x y, R x y → Coincide S (f x) (g y)) : Coincide S (r >>= f) (r' >>= g) := by
  cases h with
  | ok same => exact after _ _ same
  | error e => exact .error e

theorem mono {R' : α → β → Prop} (h : Coincide R r r') (more : ∀ x y, R x y → R' x y) :
    Coincide R' r r' := by
  cases h with
  | ok same => exact .ok (more _ _ same)
  | error e => exact .error e

/-- The same result coincides with itself. -/
theorem refl {R : α → α → Prop} (each : ∀ x, R x x) (r : Except EvalError α) : Coincide R r r := by
  cases r with
  | ok x => exact .ok (each x)
  | error e => exact .error e

end Coincide

/-! ### Values of the right kind -/

namespace Value.Alike

variable {precision : ℕ} {context : Context} {side : Side} {v w : Value}

/-- Values that are alike have the same text. -/
theorem render_eq (h : v.Alike w) (precision : ℕ) : v.render precision = w.render precision := by
  cases h with
  | number x => rfl
  | sequence h => exact h.congr fun copies => copies.render_eq precision

theorem expectNumber_eq (h : v.Alike w) :
    v.expectNumber precision context = w.expectNumber precision context := by
  have text := h.render_eq precision
  cases h with
  | number x => rfl
  | sequence h => rw [expectNumber, expectNumber, text] <;> simp

theorem expectBound_eq (h : v.Alike w) :
    v.expectBound precision side = w.expectBound precision side := by
  have text := h.render_eq precision
  cases h with
  | number x => rfl
  | sequence h => rw [expectBound, expectBound, text] <;> simp

theorem coincide_expectSequence (h : v.Alike w) :
    Coincide Sequence.Alike (v.expectSequence precision context)
      (w.expectSequence precision context) := by
  cases h with
  | number x => exact .error _
  | sequence h => exact .ok h

end Value.Alike

/-! ### Whole expressions -/

namespace Expression

variable {config : Config}

/-- **Alike environments give alike results.** -/
theorem evaluate_alike (e : Expression) {env env' : Environment} (h : env.Alike env') :
    Coincide Value.Alike (e.evaluate config false env) (e.evaluate config false env') := by
  induction e with
  | number value =>
    simp only [evaluate, Bool.false_eq_true, if_false]
    exact .ok (.number value)
  | identifier name =>
    simp only [evaluate, Bool.false_eq_true, if_false]
    have values := h name
    generalize env.lookup? name = x at values ⊢
    generalize env'.lookup? name = y at values ⊢
    cases values with
    | some alike => exact .ok alike
    | none => exact .error _
  | sequence first last hf hl =>
    simp only [evaluate, Bool.false_eq_true, if_false]
    refine hf.bind fun v w hv => ?_
    rw [hv.expectBound_eq]
    refine (Coincide.refl Eq.refl _).bind fun start _ same => same ▸ hl.bind fun v w hw => ?_
    rw [hw.expectBound_eq]
    refine (Coincide.refl Eq.refl _).bind fun stop _ same => same ▸ ?_
    split
    · exact .error _
    · exact .ok (.sequence (.inl rfl))
  | operation left op right hl hr =>
    simp only [evaluate, Bool.false_eq_true, if_false]
    refine hl.bind fun v w hv => ?_
    rw [hv.expectNumber_eq]
    refine (Coincide.refl Eq.refl _).bind fun x _ same => same ▸ hr.bind fun v w hw => ?_
    rw [hw.expectNumber_eq]
    refine (Coincide.refl Eq.refl _).bind fun y _ same => same ▸ ?_
    exact (Coincide.refl Eq.refl _).bind fun z _ same => same ▸ .ok (.number z)
  | map input parameter body hi _ =>
    simp only [evaluate, Bool.false_eq_true, if_false]
    refine hi.bind fun v w hv => hv.coincide_expectSequence.bind fun s t items => ?_
    split
    · exact .ok (.sequence items)
    · rw [items.congr fun copies => mapSequence_copies copies _]
      exact .refl Value.Alike.refl _
  | reduce input initial left right body hi hs _ =>
    simp only [evaluate, Bool.false_eq_true, if_false]
    refine hi.bind fun v w hv => hv.coincide_expectSequence.bind fun s t items => ?_
    refine hs.bind fun v w hw => ?_
    rw [hw.expectNumber_eq]
    refine (Coincide.refl Eq.refl _).bind fun start _ same => same ▸ ?_
    split
    · rw [items.congr fun copies => reduceSequence_copies copies start body left right]
      exact .refl Value.Alike.refl _
    · exact .error _

/-- **Equal environments give equal results.** The values of an expression in two environments
that bind the same names to equal values are equal, also where the one has a range and the other
the list of its items. If there is no value in the one, there is none in the other, for the same
reason and with the same text. -/
theorem evaluate_equal (config : Config) (e : Expression) {env env' : Environment}
    (storable : env.Storable) (storable' : env'.Storable)
    (equal : ∀ name, Option.Rel (fun v w => v.equal w = true) (env.lookup? name)
      (env'.lookup? name)) :
    Coincide (fun v w => v.equal w = true) (e.evaluate config false env)
      (e.evaluate config false env') :=
  (e.evaluate_alike (Environment.alike_of_equal storable storable' equal)).mono
    fun _ _ alike => alike.equal

/-- The range from 1 to 3 is added up in closed form and its list by halving, and both have the
same text where a number is expected. -/
theorem evaluate_equal_one_two_three :
    let total : Expression := reduce (identifier "x") (number 0) "a" "b"
      (operation (identifier "a") .add (identifier "b"))
    let e : Expression := operation total .add (identifier "x")
    let ranged := Environment.empty.bind "x" (.sequence (.range 1 3))
    let listed := Environment.empty.bind "x" (.sequence (.list #[1, .ofInt 2, .ofInt 3]))
    total.evaluate {} false ranged = .ok (.number (.ofInt 6)) ∧
      total.evaluate {} false listed = .ok (.number (.ofInt 6)) ∧
      e.evaluate {} false ranged = .error (.typeMismatch .rightOperand .number "\x7b1 2 3\x7d") ∧
      Coincide (fun v w => v.equal w = true) (e.evaluate {} false ranged)
        (e.evaluate {} false listed) := by
  intro total e ranged listed
  have bound {name : Name} {v w : Value}
      (h : (Environment.empty.bind "x" v).lookup? name = some w) : w = v := by
    by_cases same : name = "x"
    · rw [same, Environment.lookup?_bind_self] at h
      exact (Option.some.inj h).symm
    · rw [Environment.lookup?_bind_of_ne _ _ same] at h
      cases h
  refine ⟨by decide +kernel, by decide +kernel, by decide +kernel,
    evaluate_equal {} e (fun name v h => ?_) (fun name v h => ?_) fun name => ?_⟩
  · rw [bound h]
    exact (by decide : (1 : ℤ) ≤ 3)
  · rw [bound h]
    exact (by decide : 3 < vectorBound)
  · by_cases same : name = "x"
    · rw [same, Environment.lookup?_bind_self, Environment.lookup?_bind_self]
      exact .some (by decide)
    · rw [Environment.lookup?_bind_of_ne _ _ same, Environment.lookup?_bind_of_ne _ _ same]
      exact .none

end Expression

end RatCalc
