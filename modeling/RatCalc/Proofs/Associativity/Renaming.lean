import Mathlib
import RatCalc.Proofs.Associativity.NormalForm

/-!
# Renaming the parameters of inner maps

The body of a `map` sees its own parameter and nothing else, so a parameter can be given another
name together with the occurrences that it binds. Names that are new to the expression keep apart
what was apart: two parts of the renamed expression are equal only if the parts they come from
are. The rules of the simplifier ask for no more than that, and hence they do to the renamed
expression what they do to the expression.

## Main definitions

* `Expression.names`, `Expression.mapParameters`: all names of an expression, and those that a
  `map` binds.
* `Expression.renameInner`: renames the parameters of the maps of an expression.
* `Separates`: what a renaming has to keep apart.
* `Expression.Within`: the names that a renaming was chosen for are all there are.

## Main results

* `Expression.renameInner_inj`: different expressions are different when they are renamed.
* `Expression.simplify_renameInner`: simplifying commutes with renaming.
-/

namespace RatCalc

namespace Expression

/-! ### Names and their renaming -/

/-- The names in an expression: its identifiers and the parameters of its bodies. -/
def names : Expression → List Name
  | number _ => []
  | identifier name => [name]
  | sequence first last => first.names ++ last.names
  | operation left _ right => left.names ++ right.names
  | map input parameter body => parameter :: (input.names ++ body.names)
  | reduce input initial left right body =>
    left :: right :: (input.names ++ initial.names ++ body.names)

/-- The parameters of the maps in an expression, in whatever body they are. -/
def mapParameters : Expression → List Name
  | number _ => []
  | identifier _ => []
  | sequence first last => first.mapParameters ++ last.mapParameters
  | operation left _ right => left.mapParameters ++ right.mapParameters
  | map input parameter body => parameter :: (input.mapParameters ++ body.mapParameters)
  | reduce input initial _ _ body =>
    input.mapParameters ++ initial.mapParameters ++ body.mapParameters

/-- Renames the parameters of all maps, each with the identifiers that it binds. The scope is the
parameter of the `map` whose body the expression belongs to; in the body of a `reduce` and outside
all bodies there is none. The parameters of a `reduce` keep their names. -/
def renameInner (rename : Name → Name) : Expression → Option Name → Expression
  | number value, _ => number value
  | identifier name, scope => identifier (if scope = some name then rename name else name)
  | sequence first last, scope =>
    sequence (first.renameInner rename scope) (last.renameInner rename scope)
  | operation left op right, scope =>
    operation (left.renameInner rename scope) op (right.renameInner rename scope)
  | map input parameter body, scope =>
    map (input.renameInner rename scope) (rename parameter)
      (body.renameInner rename (some parameter))
  | reduce input initial left right body, scope =>
    reduce (input.renameInner rename scope) (initial.renameInner rename scope) left right
      (body.renameInner rename none)

end Expression

/-- A renaming that keeps different parameters different, and gives a parameter that it renames a
name that is not among the old ones. -/
structure Separates (rename : Name → Name) (parameters names : List Name) : Prop where
  injective : ∀ p ∈ parameters, ∀ q ∈ parameters, rename p = rename q → p = q
  fresh : ∀ p ∈ parameters, rename p = p ∨ rename p ∉ names

namespace Expression

/-- The maps of an expression bind certain parameters only, and its identifiers are certain
names. -/
def Within (parameters names : List Name) : Expression → Prop
  | number _ => True
  | identifier name => name ∈ names
  | sequence first last => first.Within parameters names ∧ last.Within parameters names
  | operation left _ right => left.Within parameters names ∧ right.Within parameters names
  | map input parameter body =>
    input.Within parameters names ∧ parameter ∈ parameters ∧ body.Within parameters names
  | reduce input initial _ _ body =>
    input.Within parameters names ∧ initial.Within parameters names ∧ body.Within parameters names

section Within

variable {parameters parameters' names names' : List Name} {e : Expression}

theorem Within.mono (h : e.Within parameters names) (bound : parameters ⊆ parameters')
    (used : names ⊆ names') : e.Within parameters' names' := by
  induction e with
  | number => trivial
  | identifier name => exact used h
  | sequence first last hf hl => exact ⟨hf h.1, hl h.2⟩
  | operation left op right hl hr => exact ⟨hl h.1, hr h.2⟩
  | map input parameter body hi hb => exact ⟨hi h.1, bound h.2.1, hb h.2.2⟩
  | reduce input initial left right body hi hs hb => exact ⟨hi h.1, hs h.2.1, hb h.2.2⟩

theorem within_self (e : Expression) : e.Within e.mapParameters e.names := by
  induction e with
  | number => trivial
  | identifier name => exact List.mem_singleton_self name
  | sequence first last hf hl =>
    exact ⟨hf.mono (List.subset_append_left ..) (List.subset_append_left ..),
      hl.mono (List.subset_append_right ..) (List.subset_append_right ..)⟩
  | operation left op right hl hr =>
    exact ⟨hl.mono (List.subset_append_left ..) (List.subset_append_left ..),
      hr.mono (List.subset_append_right ..) (List.subset_append_right ..)⟩
  | map input parameter body hi hb =>
    exact ⟨hi.mono (List.subset_cons_of_subset _ (List.subset_append_left ..))
        (List.subset_cons_of_subset _ (List.subset_append_left ..)), List.mem_cons_self,
      hb.mono (List.subset_cons_of_subset _ (List.subset_append_right ..))
        (List.subset_cons_of_subset _ (List.subset_append_right ..))⟩
  | reduce input initial left right body hi hs hb =>
    refine ⟨hi.mono ?_ ?_, hs.mono ?_ ?_, hb.mono ?_ ?_⟩ <;> intro name h <;>
      simp only [mapParameters, names, List.mem_cons, List.mem_append, h, true_or, or_true]

/-- Simplifying brings no names. -/
theorem Within.simplify (h : e.Within parameters names) : e.simplify.Within parameters names := by
  induction e with
  | number => trivial
  | identifier name => exact h
  | sequence first last hf hl => exact ⟨hf h.1, hl h.2⟩
  | operation left op right hl hr =>
    exact combine_keeps (fun _ => trivial) (fun _ hx hy => ⟨hx, hy⟩) (hl h.1) (hr h.2) op
  | map input parameter body hi hb => exact ⟨hi h.1, h.2.1, hb h.2.2⟩
  | reduce input initial left right body hi hs hb => exact ⟨hi h.1, hs h.2.1, hb h.2.2⟩

end Within

theorem mem_names_of_mem_mapParameters {e : Expression} {name : Name}
    (h : name ∈ e.mapParameters) : name ∈ e.names := by
  induction e with
  | number | identifier => exact absurd h List.not_mem_nil
  | sequence first last hf hl => exact List.mem_append.2 ((List.mem_append.1 h).imp hf hl)
  | operation left op right hl hr => exact List.mem_append.2 ((List.mem_append.1 h).imp hl hr)
  | map input parameter body hi hb =>
    exact List.mem_cons.2 ((List.mem_cons.1 h).imp_right fun h =>
      List.mem_append.2 ((List.mem_append.1 h).imp hi hb))
  | reduce input initial left right body hi hs hb =>
    refine List.mem_cons_of_mem _ (List.mem_cons_of_mem _ ?_)
    exact List.mem_append.2 ((List.mem_append.1 h).imp
      (fun h => List.mem_append.2 ((List.mem_append.1 h).imp hi hs)) hb)

/-! ### Renaming keeps expressions apart -/

section Rename

variable {rename : Name → Name} {parameters names : List Name} {scope : Option Name}
  {x y : Expression}

theorem asNumber?_renameInner (e : Expression) :
    (e.renameInner rename scope).asNumber? = e.asNumber? := by
  cases e <;> rfl

theorem renameInner_eq_number_iff {e : Expression} {value : Fraction} :
    e.renameInner rename scope = number value ↔ e = number value := by
  rw [← asNumber?_eq_some_iff, asNumber?_renameInner, asNumber?_eq_some_iff]

theorem renameInner_eq_zero_iff {e : Expression} : e.renameInner rename scope = zero ↔ e = zero :=
  renameInner_eq_number_iff

theorem renameInner_eq_one_iff {e : Expression} : e.renameInner rename scope = one ↔ e = one :=
  renameInner_eq_number_iff

/-- **Different expressions are different when they are renamed**, as a bound name becomes neither
another bound name nor one that is not renamed. -/
theorem renameInner_inj (separates : Separates rename parameters names)
    (inScope : ∀ p, scope = some p → p ∈ parameters) (hx : x.Within parameters names)
    (hy : y.Within parameters names) :
    x.renameInner rename scope = y.renameInner rename scope ↔ x = y := by
  refine ⟨fun same => ?_, congrArg (renameInner rename · scope)⟩
  induction x generalizing y scope with
  | number value => exact (renameInner_eq_number_iff.1 same.symm).symm
  | identifier name =>
    cases y with
    | identifier name' =>
      rw [renameInner, renameInner, identifier.injEq] at same
      have only {p q : Name} (bound : scope = some p) (used : q ∈ names) (same : rename p = q) :
          p = q := by
        rcases separates.fresh p (inScope p bound) with kept | new
        · rw [← kept, same]
        · exact absurd (same ▸ used) new
      rw [identifier.injEq]
      split_ifs at same with bound bound' bound'
      · exact Option.some.inj (bound.symm.trans bound')
      · exact only bound hy same
      · exact (only bound' hx same.symm).symm
      · exact same
    | _ => cases same
  | sequence first last hf hl =>
    cases y with
    | sequence first' last' =>
      rw [renameInner, renameInner, sequence.injEq] at same
      rw [hf inScope hx.1 hy.1 same.1, hl inScope hx.2 hy.2 same.2]
    | _ => cases same
  | operation left op right hl hr =>
    cases y with
    | operation left' op' right' =>
      rw [renameInner, renameInner, operation.injEq] at same
      rw [hl inScope hx.1 hy.1 same.1, same.2.1, hr inScope hx.2 hy.2 same.2.2]
    | _ => cases same
  | map input parameter body hi hb =>
    cases y with
    | map input' parameter' body' =>
      rw [renameInner, renameInner, map.injEq] at same
      obtain rfl := separates.injective parameter hx.2.1 parameter' hy.2.1 same.2.1
      have inBody (p : Name) (h : some parameter = some p) : p ∈ parameters :=
        Option.some.inj h ▸ hx.2.1
      rw [hi inScope hx.1 hy.1 same.1, hb inBody hx.2.2 hy.2.2 same.2.2]
    | _ => cases same
  | reduce input initial left right body hi hs hb =>
    cases y with
    | reduce input' initial' left' right' body' =>
      rw [renameInner, renameInner, reduce.injEq] at same
      obtain ⟨sameInput, sameInitial, rfl, rfl, sameBody⟩ := same
      rw [hi inScope hx.1 hy.1 sameInput, hs inScope hx.2.1 hy.2.1 sameInitial,
        hb (fun _ h => by cases h) hx.2.2 hy.2.2 sameBody]
    | _ => cases same

/-! ### Simplifying what is renamed -/

theorem renameInner_times (x y : Expression) :
    times (x.renameInner rename scope) (y.renameInner rename scope) =
      (times x y).renameInner rename scope := by
  unfold times
  rw [asNumber?_renameInner, asNumber?_renameInner]
  split
  · rfl
  · simp only [renameInner_eq_zero_iff, renameInner_eq_one_iff]
    split_ifs <;> rfl

section Apart

variable (separates : Separates rename parameters names)
  (inScope : ∀ p, scope = some p → p ∈ parameters)
include separates inScope

theorem multipleOf?_renameInner (hx : x.Within parameters names) (hy : y.Within parameters names) :
    multipleOf? (x.renameInner rename scope) (y.renameInner rename scope) = multipleOf? x y := by
  cases y with
  | operation left op right =>
    cases op with
    | multiply =>
      simp only [renameInner, multipleOf?, asNumber?_renameInner,
        renameInner_inj separates inScope hy.1 hx, renameInner_inj separates inScope hy.2 hx]
    | _ => rfl
  | _ => rfl

theorem renameInner_plus (hx : x.Within parameters names) (hy : y.Within parameters names) :
    plus (x.renameInner rename scope) (y.renameInner rename scope) =
      (plus x y).renameInner rename scope := by
  unfold plus
  rw [asNumber?_renameInner, asNumber?_renameInner, multipleOf?_renameInner separates inScope hx hy,
    multipleOf?_renameInner separates inScope hy hx]
  simp only [renameInner_inj separates inScope hx hy]
  split
  · rfl
  · split_ifs
    · rfl
    · split
      · exact renameInner_times x (number _)
      · split
        · exact renameInner_times y (number _)
        · rfl

theorem renameInner_minus (hx : x.Within parameters names) (hy : y.Within parameters names) :
    minus (x.renameInner rename scope) (y.renameInner rename scope) =
      (minus x y).renameInner rename scope := by
  unfold minus
  rw [multipleOf?_renameInner separates inScope hy hx]
  simp only [renameInner_eq_zero_iff, renameInner_inj separates inScope hx hy]
  split_ifs
  · rfl
  · rfl
  · split
    · exact renameInner_times y (number _)
    · rfl

theorem renameInner_combine (hx : x.Within parameters names) (hy : y.Within parameters names)
    (op : Operator) : combine (x.renameInner rename scope) op (y.renameInner rename scope) =
      (combine x op y).renameInner rename scope := by
  cases op with
  | add => exact renameInner_plus separates inScope hx hy
  | subtract => exact renameInner_minus separates inScope hx hy
  | multiply => exact renameInner_times x y
  | divide =>
    simp only [combine, ratio, renameInner_eq_one_iff]
    split_ifs <;> rfl
  | exponent =>
    simp only [combine, power, renameInner_eq_zero_iff, renameInner_eq_one_iff]
    split_ifs <;> rfl

/-- **Simplifying commutes with renaming**, where the renaming keeps apart what is apart. -/
theorem simplify_renameInner {e : Expression} (h : e.Within parameters names) :
    (e.renameInner rename scope).simplify = e.simplify.renameInner rename scope := by
  induction e generalizing scope with
  | number | identifier => rfl
  | sequence first last hf hl =>
    exact congrArg₂ sequence (hf inScope h.1) (hl inScope h.2)
  | operation left op right hl hr =>
    rw [renameInner, simplify_operation, hl inScope h.1, hr inScope h.2, simplify_operation]
    exact renameInner_combine separates inScope h.1.simplify h.2.simplify op
  | map input parameter body hi hb =>
    have inBody (p : Name) (same : some parameter = some p) : p ∈ parameters :=
      Option.some.inj same ▸ h.2.1
    exact congrArg₂ (map · (rename parameter) ·) (hi inScope h.1) (hb inBody h.2.2)
  | reduce input initial left right body hi hs hb =>
    change reduce (input.renameInner rename scope).simplify
      (initial.renameInner rename scope).simplify left right
      (body.renameInner rename none).simplify = _
    rw [hi inScope h.1, hs inScope h.2.1, hb (fun _ h => by cases h) h.2.2]
    rfl

end Apart

end Rename

end Expression

end RatCalc
