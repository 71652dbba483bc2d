import Mathlib
import RatCalc.Proofs.Grammar.Numeral

/-!
# The grammar of expressions

A context-free grammar with three levels of operators and the atoms. Each level is
left-recursive: its operators take a left operand of the same level and a right one of the next
tighter level. Blanks may stand around every operand, every parameter and every operator. The
grammar leaves open which texts spell which number, so that a rule for literals may be put in
later.

## Main definitions

* `Level`: the levels, the loosest first.
* `Around`: a text with blanks in front and behind.
* `Stands`: a text stands in another one, where a word may start.
* `Derives`: a text is derived as a tree at a level.
* `Generates`: a whole text is a derived one with blanks around it.
* `Numeral`, `Spelled`: the two rules for literals, as it should be and as it is read.

## Main results

* `Derives.mono`: a derivation may change its rule for literals.
* `Derives.loosen`: what is derived at a level is derived at every looser one.
-/

namespace RatCalc

/-- The levels of the grammar. -/
inductive Level where
  | sum
  | product
  | power
  | atom
  deriving DecidableEq

namespace Level

/-- How tightly the operators of a level bind; an atom binds tighter than all of them. -/
def strength : Level → ℕ
  | sum => 10
  | product => 20
  | power => 30
  | atom => 40

/-- The next tighter level. -/
def tighter : Level → Level
  | sum => product
  | product => power
  | power => atom
  | atom => atom

/-- The sums are the loosest level. -/
theorem sum_le (l : Level) : sum.strength ≤ l.strength := by
  cases l <;> decide

/-- The atoms are the tightest level. -/
theorem le_atom (l : Level) : l.strength ≤ atom.strength := by
  cases l <;> decide

theorem le_tighter (l : Level) : l.strength ≤ l.tighter.strength := by
  cases l <;> decide

end Level

/-- The level of an operator. -/
def Operator.level : Operator → Level
  | add => .sum
  | subtract => .sum
  | multiply => .product
  | divide => .product
  | exponent => .power

/-- The levels are those of the table of precedences. -/
theorem Operator.strength_level (op : Operator) : op.level.strength = op.precedence := by
  cases op <;> rfl

/-- The right operand of an operator binds strictly tighter. -/
theorem Operator.precedence_lt_tighter (op : Operator) :
    op.precedence < op.level.tighter.strength := by
  cases op <;> decide

/-- A level that binds tighter than an operator binds as tightly as its right operands. -/
theorem Operator.tighter_le {op : Operator} {l : Level} (tight : op.precedence < l.strength) :
    op.level.tighter.strength ≤ l.strength := by
  cases op <;> cases l <;> revert tight <;> decide

/-- Every operator binds more loosely than an atom. -/
theorem Operator.precedence_lt_atom (op : Operator) : op.precedence < Level.atom.strength :=
  op.precedence_lt_tighter.trans_le op.level.tighter.le_atom

/-- The second text is the first one with blanks in front and behind. -/
def Around (s t : List Char) : Prop :=
  ∃ front back, Blanks front ∧ Blanks back ∧ t = front ++ s ++ back

/-! ### Where a word may start -/

/-- A text at whose end a word may start: it does not end with a character of a name. -/
def Fresh (front : List Char) : Prop :=
  ∀ c ∈ front.getLast?, Grammar.isNameRest c = false

namespace Fresh

theorem nil : Fresh [] :=
  fun _ h => absurd h (Option.not_mem_none _)

theorem concat (front : List Char) {c : Char} (h : Grammar.isNameRest c = false) :
    Fresh (front ++ [c]) := by
  intro d hd
  rw [List.getLast?_concat] at hd
  rwa [← Option.some.inj hd]

/-- The end of a text is that of its second part, unless this is empty. -/
theorem append (front : List Char) {back : List Char} (h : Fresh back) (some : back ≠ []) :
    Fresh (front ++ back) := by
  intro c hc
  rw [List.getLast?_append_of_ne_nil _ some] at hc
  exact h c hc

theorem append_of_fresh {front back : List Char} (h : Fresh front) (h' : Fresh back) :
    Fresh (front ++ back) := by
  by_cases some : back = []
  · rwa [some, List.append_nil]
  · exact h'.append front some

/-- A word may start behind blanks. -/
theorem blanks {b : List Char} (h : Blanks b) : Fresh b :=
  fun c hc => Grammar.isNameRest_of_isBlank c (h c (List.mem_of_getLast? hc))

end Fresh

/-- The first text stands in the second one, and there no name goes on with it. -/
def Stands (s t : List Char) : Prop :=
  ∃ front back, Fresh front ∧ t = front ++ s ++ back

namespace Stands

variable {s t u : List Char}

theorem refl (s : List Char) : Stands s s :=
  ⟨[], [], .nil, by simp⟩

theorem trans (h : Stands s t) (h' : Stands t u) : Stands s u := by
  obtain ⟨front, back, fresh, rfl⟩ := h
  obtain ⟨front', back', fresh', rfl⟩ := h'
  exact ⟨front' ++ front, back ++ back', fresh'.append_of_fresh fresh, by simp⟩

theorem length_le (h : Stands s t) : s.length ≤ t.length := by
  obtain ⟨front, back, -, rfl⟩ := h
  rw [List.length_append, List.length_append]
  omega

end Stands

/-- A text stands between its blanks. -/
theorem Around.stands {s t : List Char} (h : Around s t) : Stands s t := by
  obtain ⟨front, back, blanks, -, rfl⟩ := h
  exact ⟨front, back, .blanks blanks, rfl⟩

/-- A word may start behind an operator. -/
theorem Around.fresh {op : Operator} {o : List Char} (h : Around [op.toChar] o)
    (front : List Char) : Fresh (front ++ o) := by
  obtain ⟨before, behind, -, blanks, rfl⟩ := h
  have symbol : Grammar.isNameRest op.toChar = false := by cases op <;> rfl
  rw [← List.append_assoc, ← List.append_assoc]
  exact (Fresh.concat _ symbol).append_of_fresh (.blanks blanks)

/-! ### The rules of the grammar -/

/-- A text is derived as a tree at a level, by a rule that says which texts spell which
numbers. -/
inductive Derives (numeral : List Char → Fraction → Prop) : Level → List Char → Expression → Prop
  | tighter {level : Level} {s : List Char} {e : Expression}
      (h : Derives numeral level.tighter s e) : Derives numeral level s e
  | operation {s o t : List Char} {x y : Expression} {op : Operator}
      (left : Derives numeral op.level s x) (symbol : Around [op.toChar] o)
      (right : Derives numeral op.level.tighter t y) :
      Derives numeral op.level (s ++ o ++ t) (.operation x op y)
  | group {s s' : List Char} {e : Expression} (inner : Derives numeral .sum s e)
      (padded : Around s s') : Derives numeral .atom (['('] ++ s' ++ [')']) e
  | sequence {s s' t t' : List Char} {first last : Expression}
      (start : Derives numeral .sum s first) (padded₁ : Around s s')
      (stop : Derives numeral .sum t last) (padded₂ : Around t t') :
      Derives numeral .atom (['{'] ++ s' ++ [','] ++ t' ++ ['}']) (.sequence first last)
  | map {s s' p t t' : List Char} {input body : Expression} {parameter : Name}
      (items : Derives numeral .sum s input) (padded₁ : Around s s')
      (isName : IsName parameter.toList) (padded₂ : Around parameter.toList p)
      (result : Derives numeral .sum t body) (padded₃ : Around t t') :
      Derives numeral .atom
        (['m', 'a', 'p', '('] ++ s' ++ [','] ++ p ++ ['-', '>'] ++ t' ++ [')'])
        (.map input parameter body)
  | reduce {s s' i i' b p t t' : List Char} {input initial body : Expression} {left right : Name}
      (items : Derives numeral .sum s input) (padded₁ : Around s s')
      (start : Derives numeral .sum i initial) (padded₂ : Around i i')
      (isLeft : IsName left.toList) (isRight : IsName right.toList)
      (some : b ≠ []) (blanks : Blanks b)
      (padded₃ : Around (left.toList ++ b ++ right.toList) p)
      (result : Derives numeral .sum t body) (padded₄ : Around t t') :
      Derives numeral .atom
        (['r', 'e', 'd', 'u', 'c', 'e', '('] ++ s' ++ [','] ++ i' ++ [','] ++ p ++ ['-', '>'] ++
          t' ++ [')'])
        (.reduce input initial left right body)
  | number {s : List Char} {q : Fraction} (h : numeral s q) : Derives numeral .atom s (.number q)
  | identifier {name : Name} (h : IsName name.toList) :
      Derives numeral .atom name.toList (.identifier name)

/-- A whole text is derived as a tree, up to blanks at both ends. -/
def Generates (numeral : List Char → Fraction → Prop) (source : List Char) (e : Expression) :
    Prop :=
  ∃ s, Around s source ∧ Derives numeral .sum s e

/-! ### The rules for literals -/

/-- The text is a literal of fewer digits than the bound, and spells this number. -/
def Numeral (s : List Char) (q : Fraction) : Prop :=
  ∃ l : Literal, l.text = s ∧ l.digitCount < Fraction.scaleBound ∧ q.toRat = l.value

/-- The text is read as this number. -/
def Spelled (s : List Char) (q : Fraction) : Prop :=
  Fraction.ofLiteral? s = .ok q

/-- Every literal that stands in a text has fewer digits than the bound. -/
def NumeralsFit (source : List Char) : Prop :=
  ∀ l : Literal, Stands l.text source → l.digitCount < Fraction.scaleBound

/-- A literal that does not wrap is read as the number that it spells. -/
theorem Numeral.spelled {s : List Char} {q : Fraction} (h : Numeral s q) : Spelled s q := by
  obtain ⟨l, spelled, short, value⟩ := h
  have places : l.places.length < Fraction.scaleBound :=
    Nat.lt_of_le_of_lt (Nat.le_add_left _ _) short
  have same : l.fraction = q := by
    rw [← Fraction.toRat_inj, Literal.toRat_fraction places, value]
  exact Fraction.ofLiteral?_eq_ok_iff.2 ⟨l, spelled, same⟩

/-- What is read as a number spells it if the literals do not wrap. -/
theorem Spelled.numeral {source s : List Char} {q : Fraction} (fit : NumeralsFit source)
    (inside : Stands s source) (h : Spelled s q) : Numeral s q := by
  obtain ⟨l, rfl, rfl⟩ := Fraction.ofLiteral?_eq_ok_iff.1 h
  have short := fit l inside
  have places : l.places.length < Fraction.scaleBound :=
    Nat.lt_of_le_of_lt (Nat.le_add_left _ _) short
  exact ⟨l, rfl, short, Literal.toRat_fraction places⟩

/-! ### Derivations -/

namespace Derives

variable {numeral numeral' : List Char → Fraction → Prop} {level : Level} {s : List Char}
  {e : Expression}

/-- **A derivation may change its rule for literals**, if the new rule allows what the old one
allows of what stands in the text. -/
theorem mono (h : Derives numeral level s e)
    (imp : ∀ u q, Stands u s → numeral u q → numeral' u q) : Derives numeral' level s e := by
  induction h with
  | tighter _ ih => exact .tighter (ih imp)
  | @operation s o t _ _ _ _ symbol _ ihl ihr =>
    have left : Stands s (s ++ o ++ t) := ⟨[], o ++ t, .nil, by simp⟩
    have right : Stands t (s ++ o ++ t) := ⟨s ++ o, [], symbol.fresh s, by simp⟩
    exact .operation (ihl fun u q h => imp u q (h.trans left)) symbol
      (ihr fun u q h => imp u q (h.trans right))
  | @group s s' _ _ padded ih =>
    have inner : Stands s (['('] ++ s' ++ [')']) :=
      padded.stands.trans ⟨['('], [')'], .concat [] rfl, rfl⟩
    exact .group (ih fun u q h => imp u q (h.trans inner)) padded
  | @sequence s s' t t' _ _ _ padded₁ _ padded₂ ih₁ ih₂ =>
    have start : Stands s (['{'] ++ s' ++ [','] ++ t' ++ ['}']) :=
      padded₁.stands.trans ⟨['{'], [','] ++ t' ++ ['}'], .concat [] rfl, by simp⟩
    have stop : Stands t (['{'] ++ s' ++ [','] ++ t' ++ ['}']) :=
      padded₂.stands.trans ⟨['{'] ++ s' ++ [','], ['}'], .concat _ rfl, rfl⟩
    exact .sequence (ih₁ fun u q h => imp u q (h.trans start)) padded₁
      (ih₂ fun u q h => imp u q (h.trans stop)) padded₂
  | @map s s' p t t' _ _ _ _ padded₁ isName padded₂ _ padded₃ ih₁ ih₂ =>
    have items : Stands s
        (['m', 'a', 'p', '('] ++ s' ++ [','] ++ p ++ ['-', '>'] ++ t' ++ [')']) :=
      padded₁.stands.trans ⟨['m', 'a', 'p', '('], [','] ++ p ++ ['-', '>'] ++ t' ++ [')'],
        .concat ['m', 'a', 'p'] rfl, by simp⟩
    have result : Stands t
        (['m', 'a', 'p', '('] ++ s' ++ [','] ++ p ++ ['-', '>'] ++ t' ++ [')']) :=
      padded₃.stands.trans ⟨['m', 'a', 'p', '('] ++ s' ++ [','] ++ p ++ ['-', '>'], [')'],
        .append _ (.concat ['-'] rfl) (List.cons_ne_nil _ _), rfl⟩
    exact .map (ih₁ fun u q h => imp u q (h.trans items)) padded₁ isName padded₂
      (ih₂ fun u q h => imp u q (h.trans result)) padded₃
  | @reduce s s' i i' b p t t' _ _ _ _ _ _ padded₁ _ padded₂ isLeft isRight some blanks padded₃ _
      padded₄ ih₁ ih₂ ih₃ =>
    have items : Stands s (['r', 'e', 'd', 'u', 'c', 'e', '('] ++ s' ++ [','] ++ i' ++ [','] ++
        p ++ ['-', '>'] ++ t' ++ [')']) :=
      padded₁.stands.trans ⟨['r', 'e', 'd', 'u', 'c', 'e', '('],
        [','] ++ i' ++ [','] ++ p ++ ['-', '>'] ++ t' ++ [')'],
        .concat ['r', 'e', 'd', 'u', 'c', 'e'] rfl, by simp⟩
    have start : Stands i (['r', 'e', 'd', 'u', 'c', 'e', '('] ++ s' ++ [','] ++ i' ++ [','] ++
        p ++ ['-', '>'] ++ t' ++ [')']) :=
      padded₂.stands.trans ⟨['r', 'e', 'd', 'u', 'c', 'e', '('] ++ s' ++ [','],
        [','] ++ p ++ ['-', '>'] ++ t' ++ [')'], .concat _ rfl, by simp⟩
    have result : Stands t (['r', 'e', 'd', 'u', 'c', 'e', '('] ++ s' ++ [','] ++ i' ++ [','] ++
        p ++ ['-', '>'] ++ t' ++ [')']) :=
      padded₄.stands.trans ⟨['r', 'e', 'd', 'u', 'c', 'e', '('] ++ s' ++ [','] ++ i' ++ [','] ++
        p ++ ['-', '>'], [')'], .append _ (.concat ['-'] rfl) (List.cons_ne_nil _ _), rfl⟩
    exact .reduce (ih₁ fun u q h => imp u q (h.trans items)) padded₁
      (ih₂ fun u q h => imp u q (h.trans start)) padded₂ isLeft isRight some blanks padded₃
      (ih₃ fun u q h => imp u q (h.trans result)) padded₄
  | number h => exact .number (imp _ _ (.refl _) h)
  | identifier h => exact .identifier h

/-- What is derived at a level is derived at every looser one. -/
theorem loosen {level' : Level} (h : Derives numeral level s e)
    (looser : level'.strength ≤ level.strength) : Derives numeral level' s e := by
  cases level' with
  | sum =>
    cases level with
    | sum => exact h
    | product => exact .tighter h
    | power => exact .tighter (.tighter h)
    | atom => exact .tighter (.tighter (.tighter h))
  | product =>
    cases level with
    | sum => exact absurd looser (by decide)
    | product => exact h
    | power => exact .tighter h
    | atom => exact .tighter (.tighter h)
  | power =>
    cases level with
    | power => exact h
    | atom => exact .tighter h
    | _ => exact absurd looser (by decide)
  | atom =>
    cases level with
    | atom => exact h
    | _ => exact absurd looser (by decide)

end Derives

/-- A text that is generated with one rule for literals is generated with another one that
allows the same of what stands in the text. -/
theorem Generates.mono {numeral numeral' : List Char → Fraction → Prop} {source : List Char}
    {e : Expression} (h : Generates numeral source e)
    (imp : ∀ u q, Stands u source → numeral u q → numeral' u q) : Generates numeral' source e := by
  obtain ⟨s, around, derived⟩ := h
  exact ⟨s, around, derived.mono fun u q h => imp u q (h.trans around.stands)⟩

end RatCalc
