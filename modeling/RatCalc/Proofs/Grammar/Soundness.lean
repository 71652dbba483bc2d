import Mathlib
import RatCalc.Proofs.Grammar.Operand

/-!
# What is read is derived

Every expression that is read is derived from the characters that were read. A reader that was
told to take operators from some strength on leaves a rest in front of which it is stuck. So an
operator that it joins later binds no tighter than what it has read so far.

## Main results

* `Grammar.derives_of_accepts_operand`: an operand is derived as an atom.
* `Grammar.derives_of_climbs`: the steps of the reader are derivations.
* `Grammar.derives_of_accepts`: an expression is derived.
-/

namespace RatCalc

namespace Grammar

/-- The text in front of a rest is derived as a tree whose operators bind tightly enough. -/
def Derived (level : ℕ) (s : List Char) (e : Expression) (r : List Char) : Prop :=
  ∃ text l, s = text ++ r ∧ level ≤ l.strength ∧ Derives Spelled l text e

/-- What is read is derived, and the reader is stuck in front of what it leaves. -/
def Sound (s : List Char) : Prop :=
  ∀ {level : ℕ} {e : Expression} {r : List Char}, level ≤ Level.atom.strength →
    (expression level s).Accepts e r → Derived level s e r ∧ Stuck level r

variable {s t r : List Char} {e : Expression}

/-- A piece that is read is derived, with blanks around it. -/
theorem derives_of_inside (sound : ∀ u : List Char, u.length < s.length → Sound u)
    (less : t.length < s.length) (h : Inside t e r) :
    ∃ u u', Derives Spelled .sum u e ∧ Around u u' ∧ t = u' ++ r := by
  obtain ⟨v, accepted, rfl⟩ := h
  have shorter := Nat.lt_of_le_of_lt (length_skipBlanks_le t) less
  obtain ⟨⟨text, l, split, -, derived⟩, -⟩ := sound _ shorter (Nat.zero_le _) accepted
  obtain ⟨u', around, rfl⟩ := around_of_skipBlanks split
  exact ⟨text, u', derived.loosen l.sum_le, around, rfl⟩

/-- **An operand is derived as an atom** if all that is read behind its first character is
derived. -/
theorem derives_of_accepts_operand (sound : ∀ u : List Char, u.length < s.length → Sound u)
    (h : (operand s fun r _ => expression 0 r).Accepts e r) :
    ∃ text, s = text ++ r ∧ Derives Spelled .atom text e := by
  simp only [operand, Reply.accepts_orElse] at h
  rcases h with group | ⟨-, sequence | ⟨-, map | ⟨-, reduce | ⟨-, number | ⟨-, identifier⟩⟩⟩⟩⟩
  · obtain ⟨t, rfl, inner⟩ := accepts_group.1 group
    obtain ⟨u, u', derived, around, rfl⟩ := derives_of_inside sound (by simp) inner
    exact ⟨_, by simp, .group derived around⟩
  · obtain ⟨x, y, t, v, rfl, first, last, rfl⟩ := accepts_sequence.1 sequence
    obtain ⟨u₁, u₁', derived₁, around₁, rfl⟩ := derives_of_inside sound (by simp) first
    obtain ⟨u₂, u₂', derived₂, around₂, rfl⟩ :=
      derives_of_inside sound (by simp; omega) last
    exact ⟨_, by simp, .sequence derived₁ around₁ derived₂ around₂⟩
  · obtain ⟨x, parameter, y, t, v, w, rfl, input, name, body, rfl⟩ := accepts_mapForm.1 map
    obtain ⟨u₁, u₁', derived₁, around₁, rfl⟩ := derives_of_inside sound (by simp; omega) input
    obtain ⟨isName, p, around, rfl⟩ := parameter_iff.1 name
    obtain ⟨u₂, u₂', derived₂, around₂, rfl⟩ :=
      derives_of_inside sound (by simp; omega) body
    exact ⟨_, by simp, .map derived₁ around₁ isName around derived₂ around₂⟩
  · obtain ⟨x, i, left, right, y, t, v, w, z, rfl, input, initial, names, body, rfl⟩ :=
      accepts_reduceForm.1 reduce
    obtain ⟨u₁, u₁', derived₁, around₁, rfl⟩ := derives_of_inside sound (by simp; omega) input
    obtain ⟨u₂, u₂', derived₂, around₂, rfl⟩ :=
      derives_of_inside sound (by simp; omega) initial
    obtain ⟨isLeft, isRight, b, p, some, blanks, around, rfl⟩ := parameters_iff.1 names
    obtain ⟨u₃, u₃', derived₃, around₃, rfl⟩ :=
      derives_of_inside sound (by simp; omega) body
    exact ⟨_, by simp, .reduce derived₁ around₁ derived₂ around₂ isLeft isRight some blanks around
      derived₃ around₃⟩
  · obtain ⟨q, accepted, rfl⟩ := Reply.accepts_map.1 number
    obtain ⟨text, rfl, spelled⟩ := exists_of_accepts_number accepted
    exact ⟨text, rfl, .number spelled⟩
  · obtain ⟨name, accepted, rfl⟩ := Reply.accepts_map.1 identifier
    obtain ⟨isName, -, rfl⟩ := accepts_identifier.1 accepted
    exact ⟨_, rfl, .identifier isName⟩

/-- **The steps of the reader are derivations.** What was read so far is derived at some level,
and no operator that binds tighter than that level can be joined. -/
theorem derives_of_climbs {level : ℕ} (sound : ∀ u : List Char, u.length < s.length → Sound u)
    {x : Expression} (h : Climbs level x t e r) {text : List Char} {l : Level}
    (split : s = text ++ t) (tight : level ≤ l.strength) (derived : Derives Spelled l text x)
    (stuck : Stuck (l.strength + 1) t) : Derived level s e r ∧ Stuck level r := by
  induction h generalizing text l with
  | stop stuck' => exact ⟨⟨text, l, split, tight, derived⟩, stuck'⟩
  | @step x y e op t t₁ r' r tight' symbol right _ ih =>
    have less : (skipBlanks t₁).length < s.length := by
      have shorter := length_skipBlanks_lt symbol
      rw [split, List.length_append]
      omega
    have weak : op.level.strength ≤ l.strength := by
      rw [op.strength_level]
      by_contra strong
      exact Reply.reading_eq_none_iff.1 (stuck op t₁ (by omega) symbol) _ _ right
    obtain ⟨⟨text', l', split', tight'', derived'⟩, stuck'⟩ :=
      sound _ less op.precedence_lt_atom right
    obtain ⟨front, blanks, ht⟩ := exists_blanks_append_skipBlanks t
    obtain ⟨back, blanks', ht₁⟩ := exists_blanks_append_skipBlanks t₁
    have joined := Derives.operation (derived.loosen weak) ⟨front, back, blanks, blanks', rfl⟩
      (derived'.loosen (Operator.tighter_le tight''))
    refine ih ?_ (op.strength_level ▸ tight') joined (op.strength_level ▸ stuck')
    rw [split, ht, symbol, ht₁, split']
    simp

/-- **What is read as an expression is derived**, and the reader is stuck in front of the
rest. -/
theorem derives_of_accepts (s : List Char) : Sound s := by
  induction size : s.length using Nat.strong_induction_on generalizing s with
  | _ n ih =>
    subst size
    intro level e r atom h
    have sound : ∀ u : List Char, u.length < s.length → Sound u := fun u less => ih _ less u rfl
    obtain ⟨x, t, accepted, climbs⟩ := accepts_expression.1 h
    obtain ⟨text, split, derived⟩ := derives_of_accepts_operand sound accepted
    have no_operator : Stuck (Level.atom.strength + 1) t := by
      intro op u tight
      have loose := op.precedence_lt_atom
      omega
    exact derives_of_climbs sound climbs split atom derived no_operator

end Grammar

end RatCalc
