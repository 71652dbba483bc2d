import Mathlib
import RatCalc.Proofs.Associativity.Uniform

/-!
# Which bodies pass

A body that is looked at as it stands passes exactly if three counts come out right, though the
scan stops at the first thing it refuses. It refuses nothing as long as neither parameter comes a
second time and all operators are the same, so it comes to the end of such a body, and then what
it has noted are the counts.

## Main definitions

* `Expression.Passable`: the scan can go over these leaves and operators.

## Main results

* `Expression.exists_scan?`: a scan comes to the end of what it can go over.
* `Expression.isUniform_iff`, `Expression.isUniform_decides`: the bodies that pass as they stand.
* `Expression.isAssociative_iff`: the bodies whose simplified form passes.
-/

namespace RatCalc

namespace Expression

variable {left right : Name}

/-- An operator that is known after another one was met is that one or was known before. -/
theorem operator_of_meetOperator? {o op : Operator} {s t : Scan}
    (h : s.meetOperator? o = some t) (known : t.operator = some op) :
    s.operator = some op ∨ op ∈ [o] := by
  unfold Scan.meetOperator? at h
  split at h
  · split_ifs at h
    cases h
    exact .inl known
  · cases h
    cases known
    exact .inr (List.mem_singleton_self o)

/-- An operator that a scan knows at the end was known before or met on the way. -/
theorem operator_of_scan? {e : Expression} {s t : Scan} (h : e.scan? left right s = some t)
    {op : Operator} (known : t.operator = some op) : s.operator = some op ∨ op ∈ e.operators := by
  induction e generalizing s t with
  | number value =>
    cases h
    exact .inl known
  | identifier name =>
    left
    change s.meetName? left right name = some t at h
    unfold Scan.meetName? at h
    split_ifs at h
    all_goals
      cases h
      exact known
  | sequence first last hf hl =>
    obtain ⟨u, hu, ht⟩ := Option.bind_eq_some_iff.1 h
    rcases hl ht known with known' | later
    · exact (hf hu known').imp_right (List.mem_append_left _)
    · exact .inr (List.mem_append_right _ later)
  | operation x o y hx hy =>
    obtain ⟨u, hu, h⟩ := Option.bind_eq_some_iff.1 h
    obtain ⟨w, hw, ht⟩ := Option.bind_eq_some_iff.1 h
    rcases hy ht known with known' | later
    · rcases hx hw known' with known' | later
      · exact (operator_of_meetOperator? hu known').imp_right fun met =>
          List.mem_cons.2 (.inl (List.mem_singleton.1 met))
      · exact .inr (List.mem_cons_of_mem _ (List.mem_append_left _ later))
    · exact .inr (List.mem_cons_of_mem _ (List.mem_append_right _ later))
  | map input parameter body hi hb =>
    obtain ⟨u, hu, ht⟩ := Option.bind_eq_some_iff.1 h
    rcases hb ht known with known' | later
    · exact (hi hu known').imp_right (List.mem_append_left _)
    · exact .inr (List.mem_append_right _ later)
  | reduce => cases h

section Passing

variable {op : Operator} {s t : Scan} {leaves leaves' : List Leaf}
  {operators operators' : List Operator}

/-- A scan can go over these leaves and operators: neither parameter comes a second time, and no
operator comes but one. -/
structure Passable (left right : Name) (op : Operator) (leaves : List Leaf)
    (operators : List Operator) (s : Scan) : Prop where
  leftOnce : s.leftSeen.toNat + leaves.count (.identifier left) ≤ 1
  rightOnce : s.rightSeen.toNat + leaves.count (.identifier right) ≤ 1
  single : ∀ o ∈ operators, o = op
  known : ∀ o, s.operator = some o → o = op

theorem Passable.first
    (h : Passable left right op (leaves ++ leaves') (operators ++ operators') s) :
    Passable left right op leaves operators s where
  leftOnce := by
    have := h.leftOnce
    rw [List.count_append] at this
    omega
  rightOnce := by
    have := h.rightOnce
    rw [List.count_append] at this
    omega
  single o ho := h.single o (List.mem_append_left _ ho)
  known := h.known

/-- Behind what was noted, the scan can go over what is left. -/
theorem Passable.second
    (h : Passable left right op (leaves ++ leaves') (operators ++ operators') s)
    (noted : Scan.Noted left right leaves operators s t)
    (origin : ∀ o, t.operator = some o → s.operator = some o ∨ o ∈ operators) :
    Passable left right op leaves' operators' t where
  leftOnce := by
    have := h.leftOnce
    rw [List.count_append] at this
    rw [noted.leftSeen]
    omega
  rightOnce := by
    have := h.rightOnce
    rw [List.count_append] at this
    rw [noted.rightSeen]
    omega
  single o ho := h.single o (List.mem_append_right _ ho)
  known o ho := (origin o ho).elim (h.known o) fun met => h.single o (List.mem_append_left _ met)

/-- **A scan comes to the end of an expression** without `reduce` if it can go over its leaves and
its operators. -/
theorem exists_scan? (distinct : left ≠ right) {e : Expression} (plain : e.hasReduce = false)
    (h : Passable left right op e.leaves e.operators s) : ∃ t, e.scan? left right s = some t := by
  have both {x y : Expression} {s : Scan}
      (hx : ∀ {s}, Passable left right op x.leaves x.operators s →
        ∃ t, x.scan? left right s = some t)
      (hy : ∀ {s}, Passable left right op y.leaves y.operators s →
        ∃ t, y.scan? left right s = some t)
      (h : Passable left right op (x.leaves ++ y.leaves) (x.operators ++ y.operators) s) :
      ∃ t, (x.scan? left right s).bind (y.scan? left right) = some t := by
    obtain ⟨u, hu⟩ := hx h.first
    obtain ⟨t, ht⟩ := hy (h.second (scan?_noted distinct hu) fun _ => operator_of_scan? hu)
    exact ⟨t, Option.bind_eq_some_iff.2 ⟨u, hu, ht⟩⟩
  induction e generalizing s with
  | number value => exact ⟨s, rfl⟩
  | identifier name =>
    have lefts := h.leftOnce
    have rights := h.rightOnce
    change ∃ t, s.meetName? left right name = some t
    unfold Scan.meetName?
    split_ifs with isLeft seen isRight seen
    · subst isLeft
      simp [seen, leaves] at lefts
    · exact ⟨_, rfl⟩
    · subst isRight
      simp [seen, leaves] at rights
    · exact ⟨_, rfl⟩
    · exact ⟨_, rfl⟩
  | sequence first last hf hl =>
    rw [hasReduce, Bool.or_eq_false_iff] at plain
    exact both (hf plain.1) (hl plain.2) h
  | operation x o y hx hy =>
    rw [hasReduce, Bool.or_eq_false_iff] at plain
    have same : o = op := h.single o List.mem_cons_self
    obtain ⟨u, hu⟩ : ∃ u, s.meetOperator? o = some u := by
      unfold Scan.meetOperator?
      split
      · next found known => exact ⟨s, if_pos ((h.known found known).trans same.symm)⟩
      · exact ⟨_, rfl⟩
    have all : Passable left right op ([] ++ (x.leaves ++ y.leaves))
        ([o] ++ (x.operators ++ y.operators)) s := h
    have behind := all.second (.meetOperator hu) fun _ => operator_of_meetOperator? hu
    obtain ⟨t, ht⟩ := both (hx plain.1) (hy plain.2) behind
    exact ⟨t, Option.bind_eq_some_iff.2 ⟨u, hu, ht⟩⟩
  | map input parameter body hi hb =>
    rw [hasReduce, Bool.or_eq_false_iff] at plain
    exact both (hi plain.1) (hb plain.2) h
  | reduce => cases plain

end Passing

/-- **Which bodies pass.** A body passes exactly if it holds no `reduce`, all its operations have
the same operator, and either neither parameter is in it or each of them is once and the operator
is a sum or a product. -/
theorem isUniform_iff (distinct : left ≠ right) {e : Expression} :
    e.isUniform left right = true ↔
      e.hasReduce = false ∧ (∀ op ∈ e.operators, ∀ op' ∈ e.operators, op = op') ∧
        ((e.leaves.count (.identifier left) = 0 ∧ e.leaves.count (.identifier right) = 0) ∨
          (e.leaves.count (.identifier left) = 1 ∧ e.leaves.count (.identifier right) = 1 ∧
            (.add ∈ e.operators ∨ .multiply ∈ e.operators))) := by
  constructor
  · intro h
    obtain ⟨s, scanned, holds⟩ := (Option.any_eq_true _ _).1 h
    have noted := scan?_noted distinct scanned
    refine ⟨hasReduce_of_scan? scanned, fun op ho op' ho' =>
      Option.some.inj ((noted.operator op ho).symm.trans (noted.operator op' ho')), ?_⟩
    rcases isUniform_cases distinct h with ⟨noLeft, noRight⟩ | ⟨onceLeft, onceRight, -⟩
    · exact .inl ⟨List.count_eq_zero.2 noLeft, List.count_eq_zero.2 noRight⟩
    · have seen : s.leftSeen = true := by
        have := noted.leftSeen
        rw [onceLeft] at this
        cases h : s.leftSeen with
        | true => rfl
        | false => simp [h] at this
      have met (op : Operator) (known : s.operator = some op) : op ∈ e.operators :=
        (operator_of_scan? scanned known).resolve_left (by simp)
      simp only [Scan.holds, seen, Bool.true_and, Bool.true_or, Bool.not_true, Bool.or_false,
        Bool.and_eq_true, Bool.or_eq_true, beq_iff_eq] at holds
      exact .inr ⟨onceLeft, onceRight, holds.2.imp (met _) (met _)⟩
  · rintro ⟨plain, single, counts⟩
    obtain ⟨op, all⟩ : ∃ op, ∀ o ∈ e.operators, o = op := by
      cases h : e.operators with
      | nil => exact ⟨.add, fun _ ho => absurd ho List.not_mem_nil⟩
      | cons op ops => exact ⟨op, fun o ho => single o (h ▸ ho) op (h ▸ List.mem_cons_self)⟩
    have passable : Passable left right op e.leaves e.operators {} := by
      refine ⟨?_, ?_, all, fun _ ho => by cases ho⟩
      · rcases counts with ⟨h, -⟩ | ⟨h, -, -⟩ <;> simp [h]
      · rcases counts with ⟨-, h⟩ | ⟨-, h, -⟩ <;> simp [h]
    obtain ⟨s, scanned⟩ := exists_scan? distinct plain passable
    have noted := scan?_noted distinct scanned
    have seen {once : Bool} {n : Nat} (h : once.toNat = n) : once = decide (n = 1) := by
      cases once <;> simp [← h]
    have lefts := seen (noted.leftSeen.trans (zero_add _))
    have rights := seen (noted.rightSeen.trans (zero_add _))
    refine (Option.any_eq_true _ _).2 ⟨s, scanned, ?_⟩
    rcases counts with ⟨noLeft, noRight⟩ | ⟨onceLeft, onceRight, found⟩
    · simp [Scan.holds, lefts, rights, noLeft, noRight]
    · have known := found.imp (noted.operator _) (noted.operator _)
      simpa [Scan.holds, lefts, rights, onceLeft, onceRight] using known

/-- **The scan decides a property of the whole tree**, though it stops at the first thing it
refuses. A body passes exactly if there is no `reduce` in it, all its operations have the same
operator, those in bounds, in inputs and in bodies of maps included, and either neither parameter
occurs, or each of them occurs exactly once and the operator is there and is a sum or a product. So
it does not matter which of the parameters is the left one. -/
theorem isUniform_decides (distinct : left ≠ right) (e : Expression) :
    (e.isUniform left right = true ↔
      e.hasReduce = false ∧ (∀ op ∈ e.operators, ∀ op' ∈ e.operators, op = op') ∧
        ((.identifier left ∉ e.leaves ∧ .identifier right ∉ e.leaves) ∨
          (e.leaves.count (.identifier left) = 1 ∧ e.leaves.count (.identifier right) = 1 ∧
            ∃ op ∈ e.operators, op = .add ∨ op = .multiply))) ∧
      e.isUniform right left = e.isUniform left right := by
  constructor
  · rw [isUniform_iff distinct, List.count_eq_zero, List.count_eq_zero]
    refine and_congr_right' (and_congr_right' (or_congr_right
      (and_congr_right' (and_congr_right' ?_))))
    constructor
    · rintro (sum | product)
      · exact ⟨.add, sum, .inl rfl⟩
      · exact ⟨.multiply, product, .inr rfl⟩
    · rintro ⟨op, found, rfl | rfl⟩
      · exact .inl found
      · exact .inr found
  · -- The property that is decided is symmetric in the parameters.
    rw [Bool.eq_iff_iff, isUniform_iff distinct.symm, isUniform_iff distinct]
    refine and_congr_right' (and_congr_right' (or_congr and_comm ?_))
    rw [and_left_comm]

/-- A parameter in a bound and another one in the body of a map, with sums only. -/
theorem isUniform_decides_bound_and_body :
    let e : Expression := .sequence (.operation (.number (.ofInt 1)) .add (.identifier "b"))
      (.map (.number (.ofInt 2)) "x" (.operation (.identifier "a") .add (.identifier "x")))
    "a" ≠ "b" ∧ e.isUniform "a" "b" = true ∧ e.isUniform "b" "a" = true ∧
      e.leaves.count (.identifier "a") = 1 ∧ ∃ op ∈ e.operators, op = .add ∨ op = .multiply := by
  intro e
  have distinct : "a" ≠ "b" := by decide
  have passes : e.isUniform "a" "b" = true := by decide
  obtain ⟨passes_iff, symmetric⟩ := isUniform_decides distinct e
  rcases (passes_iff.1 passes).2.2 with ⟨absent, -⟩ | ⟨once, -, combines⟩
  · exact absurd (by decide) absent
  · exact ⟨distinct, passes, symmetric.trans passes, once, combines⟩

/-- A body is recognised as associative if its simplified form passes. -/
theorem isAssociative_iff (distinct : left ≠ right) {e : Expression} :
    e.isAssociative left right = true ↔
      e.simplify.hasReduce = false ∧
        (∀ op ∈ e.simplify.operators, ∀ op' ∈ e.simplify.operators, op = op') ∧
        ((e.simplify.leaves.count (.identifier left) = 0 ∧
            e.simplify.leaves.count (.identifier right) = 0) ∨
          (e.simplify.leaves.count (.identifier left) = 1 ∧
            e.simplify.leaves.count (.identifier right) = 1 ∧
            (.add ∈ e.simplify.operators ∨ .multiply ∈ e.simplify.operators))) := by
  rw [isAssociative, Bool.and_eq_true, bne_iff_ne, and_iff_right distinct, isUniform_iff distinct]

end Expression

end RatCalc
