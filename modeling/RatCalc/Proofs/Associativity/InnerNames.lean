import Mathlib
import RatCalc.Proofs.Associativity.Passing
import RatCalc.Proofs.Associativity.Renaming

/-!
# The verdict and the names of inner parameters

When the parameters of the maps in a body have names that its own parameters do not have, each
occurrence of a parameter of the body is one that no `map` binds. The verdict is then read off by
counting these in the simplified body, and it does not depend on the names that were chosen.

Maps with different parameters are different for the simplifier, though they do the same. So one
new name for two old ones may merge two terms that it had kept apart, and turn a refusal into an
acceptance.

## Main definitions

* `Expression.occurrences`: the identifiers, and whether the `map` around them binds them.
* `Expression.respell`: gives two names new spellings.

## Main results

* `Expression.count_leaves_renameInner`: what a renaming leaves of the occurrences of a name.
* `Expression.isAssociative_renameInner`: the verdict on a body whose inner parameters are renamed.
* `Expression.isAssociative_renameInner_one_name`: one new name for two old ones is not enough.
-/

namespace RatCalc

namespace Expression

/-- The identifiers of an expression from left to right, each with whether it is bound by the
`map` in whose body it stands. -/
def occurrences : Expression → Option Name → List (Name × Bool)
  | number _, _ => []
  | identifier name, scope => [(name, scope = some name)]
  | sequence first last, scope => first.occurrences scope ++ last.occurrences scope
  | operation left _ right, scope => left.occurrences scope ++ right.occurrences scope
  | map input parameter body, scope =>
    input.occurrences scope ++ body.occurrences (some parameter)
  | reduce input initial _ _ body, scope =>
    input.occurrences scope ++ initial.occurrences scope ++ body.occurrences none

/-! ### What the test counts after the renaming -/

section Count

variable {rename : Name → Name} {scope : Option Name}

theorem operators_renameInner (e : Expression) :
    (e.renameInner rename scope).operators = e.operators := by
  induction e generalizing scope with
  | number | identifier => rfl
  | sequence first last hf hl => simp only [renameInner, operators, hf, hl]
  | operation left op right hl hr => simp only [renameInner, operators, hl, hr]
  | map input parameter body hi hb => simp only [renameInner, operators, hi, hb]
  | reduce input initial left right body hi hs hb =>
    simp only [renameInner, operators, hi, hs, hb]

theorem hasReduce_renameInner (e : Expression) :
    (e.renameInner rename scope).hasReduce = e.hasReduce := by
  induction e generalizing scope with
  | number | identifier => rfl
  | sequence first last hf hl => simp only [renameInner, hasReduce, hf, hl]
  | operation left op right hl hr => simp only [renameInner, hasReduce, hl, hr]
  | map input parameter body hi hb => simp only [renameInner, hasReduce, hi, hb]
  | reduce => rfl

/-- Where no parameter is given a certain name, that name stands after the renaming where it stood
before and no map bound it. -/
theorem count_leaves_renameInner {name : Name} (unused : ∀ p, rename p ≠ name) (e : Expression) :
    (e.renameInner rename scope).leaves.count (.identifier name) =
      (e.occurrences scope).count (name, false) := by
  induction e generalizing scope with
  | number => simp [renameInner, leaves, occurrences]
  | identifier other =>
    by_cases bound : scope = some other
    · simp [renameInner, leaves, occurrences, bound, unused]
    · simp [renameInner, leaves, occurrences, bound, List.count_singleton]
  | sequence first last hf hl =>
    simp only [renameInner, leaves, occurrences, List.count_append, hf, hl]
  | operation left op right hl hr =>
    simp only [renameInner, leaves, occurrences, List.count_append, hl, hr]
  | map input parameter body hi hb =>
    simp only [renameInner, leaves, occurrences, List.count_append, hi, hb]
  | reduce input initial left right body hi hs hb =>
    simp only [renameInner, leaves, occurrences, List.count_append, hi, hs, hb]

/-- Each identifier is bound by the map around it or is not. -/
theorem count_leaves (e : Expression) (scope : Option Name) (name : Name) :
    e.leaves.count (.identifier name) =
      (e.occurrences scope).count (name, false) + (e.occurrences scope).count (name, true) := by
  induction e generalizing scope with
  | number => simp [leaves, occurrences]
  | identifier other =>
    by_cases same : other = name
    · by_cases bound : scope = some name <;> simp [leaves, occurrences, same, bound]
    · simp [leaves, occurrences, same]
  | sequence first last hf hl =>
    rw [leaves, occurrences, List.count_append, List.count_append, List.count_append, hf scope,
      hl scope]
    omega
  | operation left op right hl hr =>
    rw [leaves, occurrences, List.count_append, List.count_append, List.count_append, hl scope,
      hr scope]
    omega
  | map input parameter body hi hb =>
    rw [leaves, occurrences, List.count_append, List.count_append, List.count_append, hi scope,
      hb (some parameter)]
    omega
  | reduce input initial left right body hi hs hb =>
    rw [leaves, occurrences]
    simp only [List.count_append]
    rw [hi scope, hs scope, hb none]
    omega

end Count

/-! ### The verdict on a renamed body -/

/-- Gives two names new spellings and keeps the others. -/
def respell (left right newLeft newRight name : Name) : Name :=
  if name = left then newLeft else if name = right then newRight else name

section Verdict

variable {left right newLeft newRight : Name} {e : Expression}

theorem respell_ne {name : Name} (hl : newLeft ≠ name) (hr : newRight ≠ name)
    (old : name = left ∨ name = right) (p : Name) :
    respell left right newLeft newRight p ≠ name := by
  unfold respell
  split_ifs with isLeft isRight
  · exact hl
  · exact hr
  · rintro rfl
    exact old.elim isLeft isRight

theorem separates_respell (freshLeft : newLeft ∉ e.names) (freshRight : newRight ∉ e.names)
    (apart : newLeft = newRight → left ∉ e.mapParameters ∨ right ∉ e.mapParameters) :
    Separates (respell left right newLeft newRight) e.mapParameters e.names where
  injective p hp q hq same := by
    have kept {p : Name} (hp : p ∈ e.mapParameters) : newLeft ≠ p ∧ newRight ≠ p :=
      ⟨fun h => freshLeft (h ▸ mem_names_of_mem_mapParameters hp),
        fun h => freshRight (h ▸ mem_names_of_mem_mapParameters hp)⟩
    have differ (hp : left ∈ e.mapParameters) (hq : right ∈ e.mapParameters) :
        newLeft ≠ newRight := fun h => (apart h).elim (absurd hp) (absurd hq)
    unfold respell at same
    split_ifs at same with pLeft qLeft qRight pRight qLeft qRight qLeft qRight
    · rw [pLeft, qLeft]
    · exact absurd same (differ (pLeft ▸ hp) (qRight ▸ hq))
    · exact absurd same (kept hq).1
    · exact absurd same.symm (differ (qLeft ▸ hq) (pRight ▸ hp))
    · rw [pRight, qRight]
    · exact absurd same (kept hq).2
    · exact absurd same.symm (kept hp).1
    · exact absurd same.symm (kept hp).2
    · exact same
  fresh p _ := by
    unfold respell
    split_ifs
    · exact .inr freshLeft
    · exact .inr freshRight
    · exact .inl rfl

end Verdict

/-- The sum of `map({1, 2}, p -> p + 7)`, for a parameter `p`. -/
def shiftedSum (parameter : Name) : Expression :=
  reduce
    (map (sequence one (number (.ofInt 2))) parameter
      (operation (identifier parameter) .add (number (.ofInt 7))))
    zero "x" "y" (operation (identifier "x") .add (identifier "y"))

/-- **The verdict on a body whose inner parameters are renamed.** Let the maps of a body that have
the name of one of its parameters get new names, different ones if both names are among them. The
verdict is then that of a count in which a name bound by a map is no occurrence of the parameter;
so it is the same for all choices of the new names. It is also the verdict on the body itself, if
no map binds an occurrence of either name in its simplified form. -/
theorem isAssociative_renameInner {e : Expression} {left right newLeft newRight : Name}
    (distinct : left ≠ right) (freshLeft : newLeft ∉ left :: right :: e.names)
    (freshRight : newRight ∉ left :: right :: e.names)
    (apart : newLeft = newRight → left ∉ e.mapParameters ∨ right ∉ e.mapParameters) :
    let renamed := e.renameInner (respell left right newLeft newRight) none
    let operators := e.simplify.operators
    let occurrences := e.simplify.occurrences none
    (renamed.isAssociative left right = true ↔
      e.simplify.hasReduce = false ∧ (∀ op ∈ operators, ∀ op' ∈ operators, op = op') ∧
        ((occurrences.count (left, false) = 0 ∧ occurrences.count (right, false) = 0) ∨
          (occurrences.count (left, false) = 1 ∧ occurrences.count (right, false) = 1 ∧
            (.add ∈ operators ∨ .multiply ∈ operators)))) ∧
    ((left, true) ∉ occurrences → (right, true) ∉ occurrences →
      renamed.isAssociative left right = e.isAssociative left right) := by
  simp only [List.mem_cons, not_or] at freshLeft freshRight
  intro renamed operators occurrences
  have separates := separates_respell freshLeft.2.2 freshRight.2.2 apart
  have simplified : renamed.simplify =
      e.simplify.renameInner (respell left right newLeft newRight) none :=
    simplify_renameInner separates (fun _ h => by cases h) e.within_self
  have lefts : renamed.simplify.leaves.count (.identifier left) =
      occurrences.count (left, false) := by
    rw [simplified]
    exact count_leaves_renameInner (respell_ne freshLeft.1 freshRight.1 (.inl rfl)) e.simplify
  have rights : renamed.simplify.leaves.count (.identifier right) =
      occurrences.count (right, false) := by
    rw [simplified]
    exact count_leaves_renameInner (respell_ne freshLeft.2.1 freshRight.2.1 (.inr rfl)) e.simplify
  have verdict : renamed.isAssociative left right = true ↔
      e.simplify.hasReduce = false ∧ (∀ op ∈ operators, ∀ op' ∈ operators, op = op') ∧
        ((occurrences.count (left, false) = 0 ∧ occurrences.count (right, false) = 0) ∨
          (occurrences.count (left, false) = 1 ∧ occurrences.count (right, false) = 1 ∧
            (.add ∈ operators ∨ .multiply ∈ operators))) := by
    rw [isAssociative_iff distinct, lefts, rights, simplified, hasReduce_renameInner,
      operators_renameInner]
  refine ⟨verdict, fun unboundLeft unboundRight => Bool.eq_iff_iff.2 (verdict.trans ?_)⟩
  rw [isAssociative_iff distinct, count_leaves _ none left, count_leaves _ none right,
    List.count_eq_zero.2 unboundLeft, List.count_eq_zero.2 unboundRight, add_zero, add_zero]

/-- `map({a, b + 0}, a -> a + 1)` is accepted with another name for the parameter of its map, which
then occurs once. In `map({a + 0, b + 2}, a -> 5)` the map binds nothing, and the verdict stays. -/
theorem isAssociative_renameInner_left_parameter :
    let bound := map (sequence (identifier "a") (operation (identifier "b") .add zero)) "a"
      (operation (identifier "a") .add one)
    let unbound := map (sequence (operation (identifier "a") .add zero)
      (operation (identifier "b") .add (number (.ofInt 2)))) "a" (number (.ofInt 5))
    "c" ∉ "a" :: "b" :: bound.names ∧ "b" ∉ bound.mapParameters ∧
      bound.isAssociative "a" "b" = false ∧
      (bound.renameInner (respell "a" "b" "c" "c") none).isAssociative "a" "b" = true ∧
      "c" ∉ "a" :: "b" :: unbound.names ∧ "b" ∉ unbound.mapParameters ∧
      unbound.simplify.mapParameters = ["a"] ∧
      (unbound.renameInner (respell "a" "b" "c" "c") none).isAssociative "a" "b" =
        unbound.isAssociative "a" "b" := by
  intro bound unbound
  have fresh : "c" ∉ "a" :: "b" :: bound.names := by decide
  have single : "b" ∉ bound.mapParameters := by decide
  have fresh' : "c" ∉ "a" :: "b" :: unbound.names := by decide
  have single' : "b" ∉ unbound.mapParameters := by decide
  obtain ⟨verdict, -⟩ := isAssociative_renameInner (by decide) fresh fresh fun _ => .inr single
  obtain ⟨-, same⟩ := isAssociative_renameInner (by decide) fresh' fresh' fun _ => .inr single'
  exact ⟨fresh, single, by decide +kernel, verdict.2 (by decide +kernel), fresh', single',
    by decide +kernel, same (by decide +kernel) (by decide +kernel)⟩

/-- **One new name for two parameters can change the verdict.** In
`a + b + (reduce(map({1, 2}, a -> a + 7), …) - reduce(map({1, 2}, b -> b + 7), …))` the two sums
differ in the names of their parameters only. The simplifier takes them for different expressions
and the body is refused; with the name `c` in both maps the difference is zero and the body is
accepted. -/
theorem isAssociative_renameInner_one_name :
    let e := operation (operation (identifier "a") .add (identifier "b")) .add
      (operation (shiftedSum "a") .subtract (shiftedSum "b"))
    "c" ∉ "a" :: "b" :: e.names ∧ e.isAssociative "a" "b" = false ∧
      (e.renameInner (respell "a" "b" "c" "c") none).isAssociative "a" "b" = true := by
  decide +kernel

end Expression

end RatCalc
