import Mathlib
import RatCalc.Proofs.Associativity.Regrouping
import RatCalc.Proofs.Evaluation.WellFormed

/-!
# Where a body has a value for one bracketing only

A body that is recognised as associative has equal values for all bracketings of a row that give a
value. Whether a bracketing gives one is another question, and the test does not settle it. It
looks at the simplified body, from which parts have disappeared that may fail, and it takes a name
that a `map` binds for the parameter of the same name. A body without these two faults has a value
for all bracketings of a row of numbers, or for none.

## Main definitions

* `Expression.bound`: the names that the bodies of an expression bind.
* `Expression.Total`: expressions that have a number for any two numbers.
* `Expression.Operand`: the values that calls of a body come to from numbers.
* `Expression.SimplifiesFaithfully`: the simplified body has no value where the body has none.

## Main results

* `Expression.mem_free_or_bound_of_evaluate`: where an expression has a value, each of its leaves
  is free or bound.
* `Expression.isAssociative_hides_failure`: a body that is recognised as associative and has a
  value for one bracketing of three numbers only.
* `Expression.Total.simplifiesFaithfully`: bodies whose simplified form hides nothing.
* `Expression.isAssociative_defined`: bodies for which all bracketings have a value together.
-/

namespace RatCalc

namespace Expression

variable {config : Config} {left right : Name}

/-! ### Leaves that are neither free nor bound -/

/-- The names that the bodies of `map` and `reduce` bind in an expression. -/
def bound : Expression → List Name
  | number _ => []
  | identifier _ => []
  | sequence first last => first.bound ++ last.bound
  | operation left _ right => left.bound ++ right.bound
  | map input parameter body => parameter :: (input.bound ++ body.bound)
  | reduce input initial left right body =>
    left :: right :: (input.bound ++ initial.bound ++ body.bound)

/-- A name that the body of a `map` looks up is the parameter. -/
theorem eq_parameter_of_mem_free {body : Expression} {parameter name : Name} {x v : Value}
    (h : body.evaluate config false (Environment.empty.bind parameter x) = .ok v)
    (free : name ∈ body.free) : name = parameter := by
  obtain ⟨w, found⟩ := exists_lookup?_of_mem_free h free
  by_contra other
  rw [Environment.lookup?_bind_of_ne _ _ other] at found
  cases found

/-- **Where an expression has a value, each name in it is free or bound.** A `map` has an item, so
that its body has been evaluated, in which no name but the parameter has a value. -/
theorem mem_free_or_bound_of_evaluate {e : Expression} (plain : e.hasReduce = false)
    {env : Environment} (well : env.WellFormed) {v : Value}
    (h : e.evaluate config false env = .ok v) {name : Name}
    (leaf : Leaf.identifier name ∈ e.leaves) : name ∈ e.free ∨ name ∈ e.bound := by
  induction e generalizing env v with
  | number value => cases List.mem_singleton.1 leaf
  | identifier other =>
    cases List.mem_singleton.1 leaf
    exact .inl (List.mem_singleton_self _)
  | sequence first last hf hl =>
    obtain ⟨start, stop, h₁, h₂, -, -⟩ := evaluate_sequence_eq_ok_iff.1 h
    rw [hasReduce, Bool.or_eq_false_iff] at plain
    rcases List.mem_append.1 leaf with leaf | leaf
    · exact (hf plain.1 well h₁ leaf).imp (List.mem_append_left _) (List.mem_append_left _)
    · exact (hl plain.2 well h₂ leaf).imp (List.mem_append_right _) (List.mem_append_right _)
  | operation l op r hl hr =>
    obtain ⟨x, y, z, h₁, h₂, -, -⟩ := evaluate_operation_eq_ok_iff.1 h
    rw [hasReduce, Bool.or_eq_false_iff] at plain
    rcases List.mem_append.1 leaf with leaf | leaf
    · exact (hl plain.1 well h₁ leaf).imp (List.mem_append_left _) (List.mem_append_left _)
    · exact (hr plain.2 well h₂ leaf).imp (List.mem_append_right _) (List.mem_append_right _)
  | map input parameter body hi hb =>
    obtain ⟨items, input_value, value⟩ := evaluate_map_eq_ok_iff.1 h
    rw [hasReduce, Bool.or_eq_false_iff] at plain
    rcases List.mem_append.1 leaf with leaf | leaf
    · exact (hi plain.1 well input_value leaf).imp_right fun inner =>
        List.mem_cons_of_mem _ (List.mem_append_left _ inner)
    right
    split at value
    · next same =>
      rw [isIdentifier_iff.1 same] at leaf
      cases List.mem_singleton.1 leaf
      exact List.mem_cons_self
    · obtain ⟨n, fits, results, -, answers⟩ := value
      have some_items : 0 < (items.elements fits).length := by
        rw [Sequence.length_elements]
        exact (wellFormed_of_evaluate well input_value).length_pos fits
      obtain ⟨x, xs, row⟩ := List.exists_cons_of_length_pos some_items
      rw [row] at answers
      obtain ⟨y, ys, body_value, -, -⟩ := List.forall₂_cons_left_iff.1 answers
      have well' : (Environment.empty.bind parameter (.number x)).WellFormed :=
        Environment.wellFormed_empty.bind parameter trivial
      rcases hb plain.2 well' body_value leaf with free | inner
      · rw [eq_parameter_of_mem_free body_value free]
        exact List.mem_cons_self
      · exact List.mem_cons_of_mem _ (List.mem_append_right _ inner)
  | reduce => cases plain

/-! ### Calls with a value -/

theorem exists_number_of_kind {v : Value} (h : v.kind = .number) : ∃ x, v = .number x := by
  cases v with
  | number x => exact ⟨x, rfl⟩
  | sequence items => cases h

/-- The values of a call are well formed. -/
theorem wellFormed_of_call {body : Expression} {x y v : Value} (hx : x.WellFormed)
    (hy : y.WellFormed) (h : body.call config left right x y = .ok v) : v.WellFormed :=
  wellFormed_of_evaluate ((Environment.wellFormed_empty.bind left hx).bind right hy) h

/-- Numbers and the two parameters, joined by operators that have a result for all numbers. -/
inductive Total (left right : Name) : Expression → Prop
  | number (value : Fraction) : Total left right (.number value)
  | left : Total left right (.identifier left)
  | right : Total left right (.identifier right)
  | operation {l r : Expression} {op : Operator} (hl : Total left right l)
      (result : ∀ x y, ∃ z, op.apply x y = .ok z) (hr : Total left right r) :
      Total left right (.operation l op r)

/-- Such an expression has a number for any two numbers. -/
theorem Total.exists_call {e : Expression} (h : e.Total left right) (x y : Fraction) :
    ∃ z, e.call config left right (.number x) (.number y) = .ok (.number z) := by
  induction h with
  | number value => exact ⟨value, evaluate_number_eq_ok_iff.2 rfl⟩
  | left =>
    simp only [call, evaluate_identifier_eq_ok_iff]
    by_cases same : left = right
    · subst same
      exact ⟨y, Environment.lookup?_bind_self ..⟩
    · exact ⟨x, Environment.lookup?_bind_bind _ same _ _⟩
  | right => exact ⟨y, evaluate_identifier_eq_ok_iff.2 (Environment.lookup?_bind_self ..)⟩
  | operation _ result _ ihl ihr =>
    obtain ⟨a, ha⟩ := ihl
    obtain ⟨b, hb⟩ := ihr
    obtain ⟨c, hc⟩ := result a b
    exact ⟨c, evaluate_operation_eq_ok_iff.2 ⟨a, b, c, ha, hb, hc, rfl⟩⟩

/-- An expression without `reduce` that comes to a number is of this form if all its operators
have a result for all numbers. -/
theorem total_of_call {e : Expression} (plain : e.hasReduce = false)
    (results : ∀ op ∈ e.operators, ∀ x y, ∃ z, op.apply x y = .ok z) {x y z : Fraction}
    (h : e.call config left right (.number x) (.number y) = .ok (.number z)) :
    e.Total left right := by
  induction e generalizing z with
  | number value => exact .number value
  | identifier name =>
    by_cases isRight : name = right
    · exact isRight ▸ .right
    by_cases isLeft : name = left
    · exact isLeft ▸ .left
    · have found := evaluate_identifier_eq_ok_iff.1 h
      rw [Environment.lookup?_bind_of_ne _ _ isRight, Environment.lookup?_bind_of_ne _ _ isLeft]
        at found
      cases found
  | sequence first last =>
    obtain ⟨start, stop, -, -, -, hz⟩ := evaluate_sequence_eq_ok_iff.1 h
    cases hz
  | operation l op r hl hr =>
    obtain ⟨a, b, c, ha, hb, -, -⟩ := evaluate_operation_eq_ok_iff.1 h
    rw [hasReduce, Bool.or_eq_false_iff] at plain
    exact .operation
      (hl plain.1 (fun o ho => results o (List.mem_cons_of_mem _ (List.mem_append_left _ ho))) ha)
      (results op List.mem_cons_self)
      (hr plain.2 (fun o ho => results o (List.mem_cons_of_mem _ (List.mem_append_right _ ho))) hb)
  | map input parameter body =>
    obtain ⟨items, -, hz⟩ := evaluate_map_eq_ok_iff.1 h
    split at hz
    · cases hz
    · obtain ⟨n, fits, results, hz, -⟩ := hz
      cases hz
  | reduce => cases plain

/-- **A body that gives sequences and mentions its parameters has no value for a row of three
numbers or more.** Both parameters are free, so that it expects two numbers. -/
theorem eq_join_of_run {body : Expression} (distinct : left ≠ right)
    (plain : body.hasReduce = false)
    (sequences : ∀ {env : Environment} {v : Value},
      body.evaluate config false env = .ok v → v.kind = .sequence)
    (compound : ∀ name, body ≠ identifier name)
    (has_left : Leaf.identifier left ∈ body.leaves)
    (has_right : Leaf.identifier right ∈ body.leaves)
    (unbound_left : left ∉ body.bound) (unbound_right : right ∉ body.bound)
    {l r : Bracketing Value} (numbers : ∀ x ∈ (Bracketing.join l r).items, x.kind = .number)
    {v : Value} (h : (Bracketing.join l r).run (body.call config left right) = .ok v) :
    ∃ x y, l = .item x ∧ r = .item y := by
  have well : ∀ x ∈ (Bracketing.join l r).items, x.WellFormed := fun x hx => by
    obtain ⟨value, rfl⟩ := exists_number_of_kind (numbers x hx)
    trivial
  obtain ⟨x, y, hx, hy, hv⟩ := Bracketing.run_join_eq_ok_iff.1 h
  have keeps {x y w : Value} (hx : x.WellFormed) (hy : y.WellFormed)
      (hw : body.call config left right x y = .ok w) : w.WellFormed := wellFormed_of_call hx hy hw
  have well_x : x.WellFormed := Bracketing.run_keeps (fun _ _ _ => keeps)
    (fun z hz => well z (List.mem_append_left _ hz)) hx
  have well_y : y.WellFormed := Bracketing.run_keeps (fun _ _ _ => keeps)
    (fun z hz => well z (List.mem_append_right _ hz)) hy
  have well_env := (Environment.wellFormed_empty.bind left well_x).bind right well_y
  have free_left := (mem_free_or_bound_of_evaluate plain well_env hv has_left).resolve_right
    unbound_left
  have free_right := (mem_free_or_bound_of_evaluate plain well_env hv has_right).resolve_right
    unbound_right
  obtain ⟨kind, expects⟩ := @exists_kind_left config left right body distinct free_left
    (compound left)
  obtain ⟨kind', expects'⟩ := @exists_kind_right config left right body free_right (compound right)
  obtain ⟨first, hfirst, _, _, applied⟩ := Bracketing.exists_apply_head h
  obtain ⟨last, hlast, _, _, applied'⟩ := Bracketing.exists_apply_last h
  have kind_x : x.kind = .number := by
    rw [expects hv, ← expects applied]
    exact numbers first (List.mem_of_mem_head? hfirst)
  have kind_y : y.kind = .number := by
    rw [expects' hv, ← expects' applied']
    exact numbers last (List.mem_of_mem_getLast? hlast)
  exact ⟨x, y, Bracketing.eq_item_of_kind sequences hx kind_x,
    Bracketing.eq_item_of_kind sequences hy kind_y⟩

/-! ### Faithful simplification -/

/-- The values that calls of a body come to from numbers. -/
inductive Operand (config : Config) (body : Expression) (left right : Name) : Value → Prop
  | number (x : Fraction) : Operand config body left right (.number x)
  | call {x y v : Value} (hx : Operand config body left right x)
      (hy : Operand config body left right y) (h : body.call config left right x y = .ok v) :
      Operand config body left right v

/-- The simplified body hides no failure: where it has a value for operands that may come up, the
body has one as well. -/
def SimplifiesFaithfully (config : Config) (body : Expression) (left right : Name) : Prop :=
  ∀ x y v, Operand config body left right x → Operand config body left right y →
    body.simplify.call config left right x y = .ok v →
      ∃ w, body.call config left right x y = .ok w

/-- **Sums, differences and products of numbers and parameters simplify faithfully**, as they never
fail for numbers, and come to numbers again. -/
theorem Total.simplifiesFaithfully {body : Expression} (total : body.Total left right) :
    body.SimplifiesFaithfully config left right := by
  have of_operand {v : Value} (h : Operand config body left right v) : ∃ x, v = .number x := by
    induction h with
    | number x => exact ⟨x, rfl⟩
    | call _ _ h ihx ihy =>
      obtain ⟨x, rfl⟩ := ihx
      obtain ⟨y, rfl⟩ := ihy
      obtain ⟨z, hz⟩ : ∃ z, body.call config left right (.number x) (.number y) = .ok (.number z) :=
        total.exists_call x y
      exact ⟨z, Except.ok.inj (h.symm.trans hz)⟩
  intro v w _ hv hw _
  obtain ⟨x, rfl⟩ := of_operand hv
  obtain ⟨y, rfl⟩ := of_operand hw
  exact (total.exists_call x y).imp' _ fun _ hz => hz

section Faithful

variable {body : Expression} (faithful : body.SimplifiesFaithfully config left right)
variable {t : Bracketing Value} (numbers : ∀ x ∈ t.items, x.kind = .number)

include faithful numbers

/-- A body whose simplified form does not look at its operands has a value for all bracketings, if
it has one for some operands. -/
theorem exists_run_of_constant (no_left : left ∉ body.simplify.free)
    (no_right : right ∉ body.simplify.free) {x y v : Value}
    (h : body.simplify.call config left right x y = .ok v) :
    ∃ w, t.run (body.call config left right) = .ok w := by
  have step (a b : Value) (ha : Operand config body left right a)
      (hb : Operand config body left right b) :
      ∃ w, body.call config left right a b = .ok w ∧ Operand config body left right w := by
    have constant : body.simplify.call config left right a b = .ok v :=
      (call_congr (fun free => absurd free no_left) fun free => absurd free no_right).trans h
    obtain ⟨w, hw⟩ := faithful a b v ha hb constant
    exact ⟨w, hw, .call ha hb hw⟩
  obtain ⟨w, hw, -⟩ := Bracketing.exists_run step fun x hx => by
    obtain ⟨value, rfl⟩ := exists_number_of_kind (numbers x hx)
    exact .number value
  exact ⟨w, hw⟩

/-- A body whose simplified form has a number for any two numbers has a value for all
bracketings. -/
theorem exists_run_of_numbers (total : ∀ x y : Fraction, ∃ z : Fraction,
      body.simplify.call config left right (.number x) (.number y) = .ok (.number z)) :
    ∃ w, t.run (body.call config left right) = .ok w := by
  have step (a b : Value) (ha : a.kind = .number) (hb : b.kind = .number) :
      ∃ w, body.call config left right a b = .ok w ∧ w.kind = .number := by
    obtain ⟨x, rfl⟩ := exists_number_of_kind ha
    obtain ⟨y, rfl⟩ := exists_number_of_kind hb
    obtain ⟨z, hz⟩ := total x y
    obtain ⟨w, hw⟩ := faithful _ _ _ (.number x) (.number y) hz
    obtain ⟨w', hw', unrolls⟩ := evaluate_simplify_unrolls (.refl _) hw
    cases hz.symm.trans hw'
    cases unrolls
    exact ⟨_, hw, rfl⟩
  obtain ⟨w, hw, -⟩ := Bracketing.exists_run step numbers
  exact ⟨w, hw⟩

end Faithful

/-- **A body that simplifies faithfully has a value for a bracketing of a row of numbers if it has
one for another bracketing of that row.** The test leaves three kinds of simplified bodies. One
that does not mention its parameters has the same value for all operands; a sum or a product has a
number for all numbers or for none; and one that gives sequences has a value for rows of two
numbers at most, which have one bracketing. -/
theorem exists_run_call {body : Expression} (associative : body.isAssociative left right = true)
    (faithful : body.SimplifiesFaithfully config left right)
    (unbound_left : left ∉ body.simplify.bound) (unbound_right : right ∉ body.simplify.bound)
    {s t : Bracketing Value} (numbers : ∀ x ∈ s.items, x.kind = .number)
    (same : s.items = t.items) {v : Value} (h : s.run (body.call config left right) = .ok v) :
    ∃ w, t.run (body.call config left right) = .ok w := by
  rw [isAssociative, Bool.and_eq_true, bne_iff_ne] at associative
  obtain ⟨distinct, uniform⟩ := associative
  obtain ⟨u, simplified, -⟩ := run_simplify h
  -- A row of a single item has one bracketing only, in which the body is not applied.
  cases s with
  | item x =>
    rw [Bracketing.eq_item_of_items same.symm]
    exact ⟨x, rfl⟩
  | join l r =>
  have numbers' : ∀ x ∈ t.items, x.kind = .number := fun x hx => numbers x (same ▸ hx)
  obtain ⟨x, y, hx, hy, hu⟩ := Bracketing.run_join_eq_ok_iff.1 simplified
  obtain ⟨scan, scanned, -⟩ := (Option.any_eq_true _ _).1 uniform
  have plain := hasReduce_of_scan? scanned
  rcases isUniform_cases distinct uniform with ⟨no_left, no_right⟩ | ⟨once_left, once_right, single⟩
  · exact exists_run_of_constant faithful numbers'
      (fun free => no_left (mem_leaves_of_mem_free free))
      (fun free => no_right (mem_leaves_of_mem_free free)) hu
  have has_left : Leaf.identifier left ∈ body.simplify.leaves :=
    List.count_pos_iff.1 (once_left.symm ▸ Nat.one_pos)
  have has_right : Leaf.identifier right ∈ body.simplify.leaves :=
    List.count_pos_iff.1 (once_right.symm ▸ Nat.one_pos)
  have compound := ne_identifier_of_leaves distinct has_left has_right
  -- A body that gives sequences has been run for two numbers.
  have of_sequences (sequences : ∀ {env : Environment} {v : Value},
      body.simplify.evaluate config false env = .ok v → v.kind = .sequence) :
      ∃ w, t.run (body.call config left right) = .ok w := by
    obtain ⟨a, b, rfl, rfl⟩ := eq_join_of_run distinct plain sequences compound has_left has_right
      unbound_left unbound_right numbers simplified
    rw [Bracketing.eq_join_of_items same.symm]
    exact ⟨v, h⟩
  cases form : body.simplify with
  | number value => simp [form, leaves] at has_left
  | identifier name => exact absurd form (compound name)
  | sequence first last => exact of_sequences (form ▸ kind_of_evaluate_sequence)
  | operation a op b =>
    have gives {p : Bracketing Value} {w : Value} (inside : ∀ x ∈ p.items, x.kind = .number)
        (h : p.run (body.simplify.call config left right) = .ok w) : ∃ z, w = .number z := by
      rw [form] at h
      exact exists_number_of_kind
        (Bracketing.run_keeps (fun _ _ _ _ _ => kind_of_evaluate_operation) inside h)
    obtain ⟨x, rfl⟩ := gives (fun z hz => numbers z (List.mem_append_left _ hz)) hx
    obtain ⟨y, rfl⟩ := gives (fun z hz => numbers z (List.mem_append_right _ hz)) hy
    obtain ⟨z, rfl⟩ := gives numbers simplified
    have results : ∀ op ∈ body.simplify.operators, ∀ x y, ∃ z, op.apply x y = .ok z := by
      intro op among x y
      rcases single with sums | products
      · rw [sums op among]
        exact ⟨x + y, rfl⟩
      · rw [products op among]
        exact ⟨x * y, rfl⟩
    exact exists_run_of_numbers faithful numbers' (total_of_call plain results hu).exists_call
  | map input parameter lambda => exact of_sequences (form ▸ kind_of_evaluate_map)
  | reduce =>
    rw [form] at plain
    cases plain

/-! ### The test and failures -/

/-- **The test hides a failure.** The body `a + b + (1 / a - 1 / a)` is recognised as associative,
as the difference simplifies to zero. Where 1, -1 and 0 are grouped from the left, it is applied
to 0 and 0, which divides by zero; grouped from the right they give 0. -/
theorem isAssociative_hides_failure :
    let a := identifier "a"
    let reciprocal := operation one .divide a
    let body := operation (operation a .add (identifier "b")) .add
      (operation reciprocal .subtract reciprocal)
    body.isAssociative "a" "b" = true ∧
      (Bracketing.join (.join (.item (.number 1)) (.item (.number (-1)))) (.item (.number 0))).run
          (body.call {} "a" "b") = .error .divisionByZero ∧
      (Bracketing.join (.item (.number 1)) (.join (.item (.number (-1))) (.item (.number 0)))).run
          (body.call {} "a" "b") = .ok (.number 0) := by
  decide +kernel

/-- The name that a `map` binds is taken for the second parameter of `map({a, 5}, b -> b + 1)`, a
body whose simplified form is the body itself. -/
example :
    let body := map (sequence (identifier "a") (number (.ofInt 5))) "b"
      (operation (identifier "b") .add one)
    body.isAssociative "a" "b" = true ∧ body.simplify = body ∧ "b" ∈ body.simplify.bound ∧
      (Bracketing.join (.join (.item (.number 1)) (.item (.number 1))) (.item (.number 1))).run
          (body.call {} "a" "b") = .error (.boundNotNumber .start "\x7b2 3 4 5 6\x7d") ∧
      (Bracketing.join (.item (.number 1)) (.join (.item (.number 1)) (.item (.number 1)))).run
          (body.call {} "a" "b") =
        .ok (.sequence (.list #[.ofInt 2, .ofInt 3, .ofInt 4, .ofInt 5, .ofInt 6])) := by
  decide +kernel

/-- **Where the test is sound for failures.** Of a body that is recognised as associative, whose
simplified form hides no failure and binds neither parameter, all bracketings of a row of numbers
have a value or none has. So it does not depend on the grouping of three numbers whether there is
one. -/
theorem isAssociative_defined (config : Config) {body : Expression}
    (associative : body.isAssociative left right = true)
    (faithful : body.SimplifiesFaithfully config left right)
    (unbound_left : left ∉ body.simplify.bound) (unbound_right : right ∉ body.simplify.bound) :
    (∀ x y z : Fraction,
      (∃ u v, body.call config left right (.number x) (.number y) = .ok u ∧
        body.call config left right u (.number z) = .ok v) ↔
      ∃ u v, body.call config left right (.number y) (.number z) = .ok u ∧
        body.call config left right (.number x) u = .ok v) ∧
    ∀ (xs : List Fraction) {s t : Bracketing Value},
      s.items = xs.map .number → t.items = xs.map .number →
      ((∃ v, s.run (body.call config left right) = .ok v) ↔
        ∃ w, t.run (body.call config left right) = .ok w) := by
  have regroups (xs : List Fraction) {s t : Bracketing Value} (hs : s.items = xs.map .number)
      (ht : t.items = xs.map .number) : (∃ v, s.run (body.call config left right) = .ok v) ↔
        ∃ w, t.run (body.call config left right) = .ok w := by
    have numbers : ∀ x ∈ xs.map Value.number, x.kind = .number := fun x hx => by
      obtain ⟨y, -, rfl⟩ := List.mem_map.1 hx
      rfl
    exact ⟨fun ⟨_, h⟩ => exists_run_call associative faithful unbound_left unbound_right
        (hs ▸ numbers) (hs.trans ht.symm) h,
      fun ⟨_, h⟩ => exists_run_call associative faithful unbound_left unbound_right
        (ht ▸ numbers) (ht.trans hs.symm) h⟩
  refine ⟨fun x y z => ?_, regroups⟩
  rw [← Bracketing.exists_run_three_left, ← Bracketing.exists_run_three_right]
  exact regroups [x, y, z] rfl rfl

/-- A body whose simplified form leaves out a factor of one, which does not fail where the rest
has a value. -/
theorem isAssociative_defined_times_one :
    let body := operation (identifier "a") .add (operation (identifier "b") .multiply one)
    body.isAssociative "a" "b" = true ∧ body.simplify ≠ body ∧
      body.SimplifiesFaithfully {} "a" "b" ∧
      ((∃ u v, body.call {} "a" "b" (.number 1) (.number (.ofInt 2)) = .ok u ∧
          body.call {} "a" "b" u (.number (.ofInt 3)) = .ok v) ↔
        ∃ u v, body.call {} "a" "b" (.number (.ofInt 2)) (.number (.ofInt 3)) = .ok u ∧
          body.call {} "a" "b" (.number 1) u = .ok v) := by
  intro body
  have associative : body.isAssociative "a" "b" = true := by decide
  have simplified : body.simplify = operation (identifier "a") .add (identifier "b") := by decide
  have faithful : body.SimplifiesFaithfully {} "a" "b" := Total.simplifiesFaithfully <|
    .operation .left (fun _ _ => ⟨_, rfl⟩) <|
      .operation .right (fun _ _ => ⟨_, rfl⟩) (.number 1)
  exact ⟨associative, by decide, faithful, (isAssociative_defined {} associative faithful
    (by rw [simplified]; decide) (by rw [simplified]; decide)).1 1 (.ofInt 2) (.ofInt 3)⟩

end Expression

end RatCalc
