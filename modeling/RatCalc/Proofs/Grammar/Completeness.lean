import Mathlib
import RatCalc.Proofs.Grammar.Operand

/-!
# What is derived is read

Every derived text is read as its tree where nothing follows that could belong to it. The reader
comes to the end of the text with the whole tree in hand, and climbs on from there. Of the forms
of an operand at most one starts like the text, and a name that is spelled like a form is not
followed by the parenthesis that would make it one.

## Main definitions

* `Grammar.Blocked`: the operator in front of a rest, if any, binds too loosely.
* `Grammar.Ends`: a text that no expression goes on with.

## Main results

* `Derives.reaches`: the reader comes to the end of a derived text with its tree.
* `Grammar.Reaches.accepts`: a derived text is read in front of an end.
-/

namespace RatCalc

/-- No operator is written with a character that none is read from. -/
theorem Operator.toChar_ne {c : Char} (h : Operator.ofChar? c = none) (op : Operator) :
    op.toChar ≠ c := by
  rintro rfl
  rw [Operator.ofChar?_toChar] at h
  cases h

namespace Grammar

/-- Whether a word, or a form that starts with a word, may go on with this character. -/
def continues (c : Char) : Bool :=
  isNameRest c || c == '.' || c == '('

/-- An operator in front of this text binds more loosely than `level`. -/
def Blocked (level : ℕ) (r : List Char) : Prop :=
  ∀ (op : Operator) (t : List Char), skipBlanks r = op.toChar :: t → op.precedence < level

/-- A text that no expression goes on with: it starts with no blank, no operator and nothing
that belongs to a word. -/
def Ends (r : List Char) : Prop :=
  ∀ c ∈ r.head?, isBlank c = false ∧ continues c = false ∧ ∀ op : Operator, op.toChar ≠ c

variable {s r : List Char} {level : ℕ} {e : Expression}

theorem continues_of_isBlank (c : Char) (h : isBlank c = true) : continues c = false := by
  rcases eq_of_isBlank h with rfl | rfl
  · decide
  · decide

theorem isNameRest_of_isDigit {c : Char} (h : c.isDigit = true) : isNameRest c = true := by
  rw [isNameRest, Char.isAlphanum, h, Bool.or_true, Bool.true_or]

theorem isNameRest_of_continues {c : Char} (h : continues c = false) : isNameRest c = false := by
  rw [continues, Bool.or_eq_false_iff, Bool.or_eq_false_iff] at h
  exact h.1.1

theorem isNumeralRest_of_continues {c : Char} (h : continues c = false) :
    isNumeralRest c = false := by
  simp only [continues, isNameRest, Char.isAlphanum, Bool.or_eq_false_iff] at h
  rw [isNumeralRest, Bool.or_eq_false_iff]
  exact ⟨h.1.1.1.2, h.1.2⟩

/-- Where no operator binds tightly enough, no step can be taken. -/
theorem Blocked.stuck (h : Blocked level r) : Stuck level r :=
  fun op t tight symbol => absurd (h op t symbol) (Nat.not_lt.2 tight)

theorem Blocked.mono {level' : ℕ} (h : Blocked level r) (looser : level ≤ level') :
    Blocked level' r :=
  fun op t symbol => Nat.lt_of_lt_of_le (h op t symbol) looser

namespace Ends

theorem nil : Ends [] :=
  fun _ h => absurd h (Option.not_mem_none _)

theorem stops (h : Ends r) : Stops isBlank r :=
  fun c hc => (h c hc).1

/-- Nothing goes on behind blanks either. -/
theorem stops_blanks_append (h : Ends r) {b : List Char} (blanks : Blanks b) :
    Stops continues (b ++ r) :=
  Stops.blanks_append blanks continues_of_isBlank fun c hc => (h c hc).2.1

/-- No operator stands behind blanks either. -/
theorem blocked_blanks_append (h : Ends r) {b : List Char} (blanks : Blanks b) :
    Blocked level (b ++ r) := by
  intro op t symbol
  rw [skipBlanks_append blanks h.stops] at symbol
  exact absurd rfl ((h op.toChar (by rw [symbol]; rfl)).2.2 op)

end Ends

/-! ### The first characters -/

/-- A token is refused where its first character does not stand. -/
theorem token_eq_none {t : Token} {c d : Char} {ds : List Char} (chars : t.chars = d :: ds)
    (other : c ≠ d) : (token t (c :: s)).reading = none := by
  refine Reply.reading_eq_none_iff.2 fun u r h => ?_
  rw [accepts_token, chars, List.cons_append] at h
  exact other (List.cons.inj h).1

/-- Nothing is read behind what is refused. -/
theorem bind_eq_none {α β : Type} {p : Reply α s}
    {next : α → (r : List Char) → r.length < s.length → Reply β r} (h : p.reading = none) :
    (p.bind next).reading = none := by
  refine Reply.reading_eq_none_iff.2 fun u r accepted => ?_
  obtain ⟨x, t, first, -⟩ := Reply.accepts_bind.1 accepted
  exact Reply.reading_eq_none_iff.1 h x t first

theorem andThen_eq_none {α β : Type} {p : Reply α s}
    {next : α → (r : List Char) → r.length < s.length → Reply β r} (h : p.reading = none) :
    (p.andThen next).reading = none :=
  bind_eq_none h

/-- A second alternative is read where the first one is refused. -/
theorem accepts_orElse_of_none {α : Type} {p : Reply α s} {q : Unit → Reply α s} {v : α}
    (none : p.reading = none) (h : (q ()).Accepts v r) : (p.orElse q).Accepts v r :=
  Reply.accepts_orElse.2 (.inr ⟨none, h⟩)

theorem accepts_orElse_of_accepts {α : Type} {p : Reply α s} {q : Unit → Reply α s} {v : α}
    (h : p.Accepts v r) : (p.orElse q).Accepts v r :=
  Reply.accepts_orElse.2 (.inl h)

/-- A name in front of what does not go on with it is not taken for a form. -/
theorem name_append_ne {name word t : List Char} (isName : IsName name)
    (stops : Stops continues r) (inside : ∀ c ∈ word, isNameRest c = true) :
    name ++ r ≠ word ++ '(' :: t := by
  intro h
  have ends : Stops isNameRest r := fun c hc => isNameRest_of_continues (stops c hc)
  have opens : Stops isNameRest ('(' :: t) := .cons rfl
  obtain ⟨-, rfl⟩ := ends.append_inj opens isName.inside inside h
  exact absurd (stops '(' rfl) (by decide)

/-- A literal starts with a digit or a sign. -/
theorem head_of_spelled {q : Fraction} (h : Spelled s q) :
    ∃ c cs, s = c :: cs ∧ (c.isDigit = true ∨ c = '-') := by
  obtain ⟨l, rfl, -⟩ := Fraction.ofLiteral?_eq_ok_iff.1 h
  rw [Literal.text]
  split
  · exact ⟨'-', l.unsigned, rfl, .inr rfl⟩
  · obtain ⟨c, cs, whole⟩ := List.exists_cons_of_ne_nil l.whole_ne_nil
    have digit : c.isDigit = true := l.whole_digits c (by rw [whole]; exact List.mem_cons_self)
    exact ⟨c, cs ++ Literal.pointed l.places, by rw [Literal.unsigned, whole]; rfl, .inl digit⟩

/-- No name starts like a literal. -/
theorem isNameStart_eq_false {c : Char} (h : c.isDigit = true ∨ c = '-') :
    isNameStart c = false := by
  rcases h with h | rfl
  · simp only [Char.isDigit, Bool.and_eq_true, decide_eq_true_eq, ge_iff_le,
      UInt32.le_iff_toNat_le] at h
    simp only [isNameStart, Char.isAlpha, Char.isUpper, Char.isLower, Bool.or_eq_false_iff,
      Bool.and_eq_false_iff, decide_eq_false_iff_not, ge_iff_le, UInt32.le_iff_toNat_le,
      beq_eq_false_iff_ne]
    have low : '9'.val.toNat = 57 := rfl
    have upper : 'A'.val.toNat = 65 := rfl
    have lower : 'a'.val.toNat = 97 := rfl
    refine ⟨⟨by omega, by omega⟩, ?_⟩
    rintro rfl
    exact absurd h (by decide)
  · decide

/-- A literal does not start with a character that no literal starts with. -/
theorem ne_of_head {c d : Char} (h : c.isDigit = true ∨ c = '-') (digit : d.isDigit = false)
    (sign : d ≠ '-') : c ≠ d := by
  rintro rfl
  rcases h with h | h
  · rw [digit] at h
    cases h
  · exact sign h

/-! ### Atoms -/

section Operand

variable (inner : Inner s)

/-- A text that starts with no bracket is no group and no sequence. -/
theorem accepts_operand_of_word {c : Char} {cs : List Char} (head : s = c :: cs)
    (group : c ≠ '(') (sequence : c ≠ '{')
    (h : ((mapForm s inner).orElse fun _ =>
      (reduceForm s inner).orElse fun _ =>
        ((number s).map .number).orElse fun _ =>
          (identifier s).map .identifier).Accepts e r) : (operand s inner).Accepts e r := by
  subst head
  exact accepts_orElse_of_none (andThen_eq_none (token_eq_none rfl group))
    (accepts_orElse_of_none (andThen_eq_none (token_eq_none rfl sequence)) h)

end Operand

/-- A literal is read as an operand. -/
theorem accepts_operand_of_accepts_number {q : Fraction} (h : (number s).Accepts q r)
    (inner : Inner s) : (operand s inner).Accepts (.number q) r := by
  obtain ⟨text, rfl, spelled⟩ := exists_of_accepts_number h
  obtain ⟨c, cs, rfl, head⟩ := head_of_spelled spelled
  refine accepts_operand_of_word inner rfl (ne_of_head head rfl (by decide))
    (ne_of_head head rfl (by decide)) ?_
  refine accepts_orElse_of_none
    (andThen_eq_none (token_eq_none rfl (ne_of_head head rfl (by decide)))) ?_
  refine accepts_orElse_of_none
    (andThen_eq_none (token_eq_none rfl (ne_of_head head rfl (by decide)))) ?_
  exact accepts_orElse_of_accepts (Reply.accepts_map.2 ⟨q, h, rfl⟩)

theorem accepts_operand_of_number {q : Fraction} (spelled : Spelled s q)
    (stops : Stops continues r) (inner : Inner (s ++ r)) :
    (operand (s ++ r) inner).Accepts (.number q) r := by
  have rest : Stops isNumeralRest r := fun d hd => isNumeralRest_of_continues (stops d hd)
  exact accepts_operand_of_accepts_number (accepts_number_of_ofLiteral? spelled rest) inner

theorem accepts_operand_of_identifier {name : Name} (isName : IsName name.toList)
    (stops : Stops continues r) (inner : Inner (name.toList ++ r)) :
    (operand (name.toList ++ r) inner).Accepts (.identifier name) r := by
  have rest : Stops isNameRest r := fun d hd => isNameRest_of_continues (stops d hd)
  have no_map : (token .map (name.toList ++ r)).reading = none := by
    refine Reply.reading_eq_none_iff.2 fun u t h => ?_
    have word : ∀ c ∈ ['m', 'a', 'p'], isNameRest c = true := List.all_eq_true.1 rfl
    exact name_append_ne isName stops word (accepts_token.1 h)
  have no_reduce : (token .reduce (name.toList ++ r)).reading = none := by
    refine Reply.reading_eq_none_iff.2 fun u t h => ?_
    have word : ∀ c ∈ ['r', 'e', 'd', 'u', 'c', 'e'], isNameRest c = true := List.all_eq_true.1 rfl
    exact name_append_ne isName stops word (accepts_token.1 h)
  have no_number : ((number (name.toList ++ r)).map Expression.number).reading = none := by
    refine Reply.reading_eq_none_iff.2 fun e t h => ?_
    obtain ⟨q, accepted, -⟩ := Reply.accepts_map.1 h
    obtain ⟨text, split, spelled⟩ := exists_of_accepts_number accepted
    obtain ⟨c, cs, rfl, head⟩ := head_of_spelled spelled
    obtain ⟨d, ds, start, nameStart, -⟩ := isName
    rw [start] at split
    obtain rfl := (List.cons.inj split).1
    rw [isNameStart_eq_false head] at nameStart
    cases nameStart
  have head : ∃ c cs, name.toList ++ r = c :: cs ∧ isNameStart c = true := by
    obtain ⟨c, cs, start, nameStart, -⟩ := isName
    exact ⟨c, cs ++ r, by rw [start]; rfl, nameStart⟩
  obtain ⟨c, cs, start, nameStart⟩ := head
  refine accepts_operand_of_word inner start ?_ ?_ ?_
  · rintro rfl
    exact absurd nameStart (by decide)
  · rintro rfl
    exact absurd nameStart (by decide)
  · refine accepts_orElse_of_none (andThen_eq_none no_map)
      (accepts_orElse_of_none (andThen_eq_none no_reduce) (accepts_orElse_of_none no_number ?_))
    exact Reply.accepts_map.2 ⟨name, accepts_identifier.2 ⟨isName, rest, rfl⟩, rfl⟩

/-! ### Derived texts -/

/-- In front of a rest that does not go on with the text, and whose operator binds no tighter than
the level, the reader comes to the end of the text with its tree. -/
def Reaches (l : Level) (s : List Char) (e : Expression) : Prop :=
  ∀ {level : ℕ} {r r' : List Char} {e' : Expression}, level ≤ l.strength → Stops continues r →
    Blocked (l.strength + 1) r → Climbs level e r e' r' → (expression level (s ++ r)).Accepts e' r'

/-- A text that is reached is read as it stands in front of an end. -/
theorem Reaches.accepts {l : Level} (h : Reaches l s e) {b : List Char} (blanks : Blanks b)
    (ends : Ends r) : (expression 0 (s ++ (b ++ r))).Accepts e (b ++ r) :=
  h (Nat.zero_le _) (ends.stops_blanks_append blanks) (ends.blocked_blanks_append blanks)
    (.stop (Blocked.stuck (ends.blocked_blanks_append blanks)))

/-- A text that is reached is read as a piece. -/
theorem Reaches.inside {l : Level} (h : Reaches l s e) (solid : Solid s) {s' : List Char}
    (around : Around s s') (ends : Ends r) : Inside (s' ++ r) e r := by
  obtain ⟨b, blanks, front, back⟩ := around.skipBlanks_append solid ends.stops
  refine ⟨b ++ r, ?_, back⟩
  rw [front]
  exact h.accepts blanks ends

/-- An operand that is read is reached. -/
theorem reaches_of_operand {l : Level}
    (h : ∀ r, Stops continues r → (operand (s ++ r) fun r _ => expression 0 r).Accepts e r) :
    Reaches l s e :=
  fun _ stops _ climbs => accepts_expression.2 ⟨e, _, h _ stops, climbs⟩

/-- An expression ends in front of a closing bracket or a comma. -/
theorem ends_of_closing {c : Char} (closing : c = ')' ∨ c = '}' ∨ c = ',') (r : List Char) :
    Ends (c :: r) := by
  intro d hd
  obtain rfl := Option.some.inj hd
  rcases closing with rfl | rfl | rfl
  · exact ⟨rfl, rfl, Operator.toChar_ne rfl⟩
  · exact ⟨rfl, rfl, Operator.toChar_ne rfl⟩
  · exact ⟨rfl, rfl, Operator.toChar_ne rfl⟩

end Grammar

namespace Derives

open Grammar

variable {s : List Char} {e : Expression} {l : Level}

/-- A derived text does not start with a blank. -/
theorem solid (h : Derives Spelled l s e) : Solid s := by
  induction h with
  | tighter _ ih => exact ih
  | operation _ _ _ ih => exact (ih.append _).append _
  | group => exact ⟨'(', _, rfl, rfl⟩
  | sequence => exact ⟨'{', _, by simp; rfl, rfl⟩
  | map => exact ⟨'m', _, by simp; rfl, rfl⟩
  | reduce => exact ⟨'r', _, by simp; rfl, rfl⟩
  | number spelled =>
    obtain ⟨c, cs, rfl, head⟩ := head_of_spelled spelled
    refine ⟨c, cs, rfl, ?_⟩
    rcases head with digit | rfl
    · exact isBlank_of_isNameRest (isNameRest_of_isDigit digit)
    · rfl
  | identifier isName => exact isName.solid

/-- **The reader comes to the end of a derived text with its tree.** -/
theorem reaches (h : Derives Spelled l s e) : Reaches l s e := by
  induction h with
  | @tighter l _ _ _ ih =>
    intro level r r' e' tight stops blocked climbs
    have stronger := l.le_tighter
    exact ih (tight.trans stronger) stops (blocked.mono (Nat.succ_le_succ stronger)) climbs
  | @operation s o t x y op _ symbol right ihl ihr =>
    intro level r r' e' tight stops blocked climbs
    obtain ⟨front, back, blanks, blanks', rfl⟩ := symbol
    rw [op.strength_level] at tight blocked
    have char_stops : continues op.toChar = false := by cases op <;> rfl
    have char_solid : isBlank op.toChar = false := by cases op <;> rfl
    have found : skipBlanks (front ++ op.toChar :: (back ++ (t ++ r))) =
        op.toChar :: (back ++ (t ++ r)) :=
      skipBlanks_append blanks (.cons char_solid)
    have operand :
        (expression (op.precedence + 1) (skipBlanks (back ++ (t ++ r)))).Accepts y r := by
      rw [skipBlanks_append blanks' (right.solid.append r).stops]
      exact ihr op.precedence_lt_tighter stops
        (blocked.mono (Nat.le_succ_of_le op.precedence_lt_tighter)) (.stop blocked.stuck)
    have assoc : s ++ (front ++ [op.toChar] ++ back) ++ t ++ r =
        s ++ (front ++ op.toChar :: (back ++ (t ++ r))) := by simp
    rw [assoc]
    refine ihl (op.strength_level.symm ▸ tight)
      (.blanks_append blanks continues_of_isBlank (.cons char_stops)) ?_
      (.step tight found operand climbs)
    intro op' u symbol
    obtain ⟨same, -⟩ := List.cons.inj (found.symm.trans symbol)
    rw [← Operator.toChar_injective same, op.strength_level]
    exact Nat.lt_succ_self _
  | @group s s' e inner around ih =>
    refine reaches_of_operand fun r _ => accepts_orElse_of_accepts (accepts_group.2 ?_)
    exact ⟨s' ++ ')' :: r, by simp, ih.inside inner.solid around (ends_of_closing (.inl rfl) r)⟩
  | @sequence s s' t t' x y start around₁ stop around₂ ih₁ ih₂ =>
    refine reaches_of_operand fun r _ => ?_
    have accepted := accepts_sequence.2 ⟨x, y, s' ++ ',' :: (t' ++ '}' :: r), t' ++ '}' :: r, rfl,
      ih₁.inside start.solid around₁ (ends_of_closing (.inr (.inr rfl)) _),
      ih₂.inside stop.solid around₂ (ends_of_closing (.inr (.inl rfl)) r), rfl⟩
    have assoc : ['{'] ++ s' ++ [','] ++ t' ++ ['}'] ++ r =
        ['{'] ++ (s' ++ ',' :: (t' ++ '}' :: r)) := by simp
    rw [assoc]
    exact accepts_orElse_of_none (andThen_eq_none (token_eq_none rfl (by decide)))
      (accepts_orElse_of_accepts accepted)
  | @map s s' p t t' x y parameter input around₁ isName around₂ body around₃ ih₁ ih₂ =>
    refine reaches_of_operand fun r _ => ?_
    have accepted := accepts_mapForm.2 ⟨x, parameter, y,
      s' ++ ',' :: (p ++ ['-', '>'] ++ (t' ++ ')' :: r)), p ++ ['-', '>'] ++ (t' ++ ')' :: r),
      t' ++ ')' :: r, rfl, ih₁.inside input.solid around₁ (ends_of_closing (.inr (.inr rfl)) _),
      parameter_iff.2 ⟨isName, p, around₂, rfl⟩,
      ih₂.inside body.solid around₃ (ends_of_closing (.inl rfl) r), rfl⟩
    have assoc : ['m', 'a', 'p', '('] ++ s' ++ [','] ++ p ++ ['-', '>'] ++ t' ++ [')'] ++ r =
        ['m', 'a', 'p', '('] ++ (s' ++ ',' :: (p ++ ['-', '>'] ++ (t' ++ ')' :: r))) := by simp
    rw [assoc]
    exact accepts_operand_of_word _ rfl (by decide) (by decide)
      (accepts_orElse_of_accepts accepted)
  | @reduce s s' i i' b p t t' x z y left right input around₁ initial around₂ isLeft isRight some
      blanks around₃ body around₄ ih₁ ih₂ ih₃ =>
    refine reaches_of_operand fun r _ => ?_
    have accepted := accepts_reduceForm.2 ⟨x, z, left, right, y,
      s' ++ ',' :: (i' ++ ',' :: (p ++ ['-', '>'] ++ (t' ++ ')' :: r))),
      i' ++ ',' :: (p ++ ['-', '>'] ++ (t' ++ ')' :: r)), p ++ ['-', '>'] ++ (t' ++ ')' :: r),
      t' ++ ')' :: r, rfl, ih₁.inside input.solid around₁ (ends_of_closing (.inr (.inr rfl)) _),
      ih₂.inside initial.solid around₂ (ends_of_closing (.inr (.inr rfl)) _),
      parameters_iff.2 ⟨isLeft, isRight, b, p, some, blanks, around₃, rfl⟩,
      ih₃.inside body.solid around₄ (ends_of_closing (.inl rfl) r), rfl⟩
    have assoc : ['r', 'e', 'd', 'u', 'c', 'e', '('] ++ s' ++ [','] ++ i' ++ [','] ++ p ++
        ['-', '>'] ++ t' ++ [')'] ++ r = ['r', 'e', 'd', 'u', 'c', 'e', '('] ++
          (s' ++ ',' :: (i' ++ ',' :: (p ++ ['-', '>'] ++ (t' ++ ')' :: r)))) := by simp
    rw [assoc]
    exact accepts_operand_of_word _ rfl (by decide) (by decide)
      (accepts_orElse_of_none (andThen_eq_none (token_eq_none rfl (by decide)))
        (accepts_orElse_of_accepts accepted))
  | number spelled =>
    exact reaches_of_operand fun r stops => accepts_operand_of_number spelled stops _
  | identifier isName =>
    exact reaches_of_operand fun r stops => accepts_operand_of_identifier isName stops _

end Derives

end RatCalc
