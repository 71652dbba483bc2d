import Mathlib
import RatCalc.Proofs.Grammar.Completeness
import RatCalc.Proofs.Grammar.OneLine
import RatCalc.Proofs.Grammar.Soundness

/-!
# Trouble is met behind text that can be completed

Wherever a reader of words or expressions meets trouble, the text in front of the place is the
front of something that the reader accepts. For a word this is so because it is refused at its
first character. A sequence of readers has passed all texts but the last, and what the last one
can be completed to stands behind them. Of the climb over operators it is not plain: an operand
that gives up may stand behind an operator that binds tighter than what was read before it. Then
the operand and all that completes it go into the last operand of the tree.

## Main definitions

* `Viable`: the front of some text of a language.
* `MetInside`: trouble is met behind a viable text.
* `Reply.Reads`: a reply leaves what follows a text of a language, and meets trouble inside one.
* `Grammar.expressions`: the texts that are derived at some level.

## Main results

* `Derives.join_mem`: an operator and its operand may stand behind every derived text.
* `Grammar.reads_expression`: expressions, with the blanks behind them.
-/

namespace RatCalc

/-- Some text of the language starts like this. -/
def Viable (L : Language Char) (front : List Char) : Prop :=
  ∃ more, front ++ more ∈ L

/-- There is a text in the language. -/
class Populated (L : Language Char) : Prop where
  exists_mem : ∃ text, text ∈ L

instance Populated.mul {L M : Language Char} [Populated L] [Populated M] : Populated (L * M) := by
  obtain ⟨text, mem⟩ := exists_mem (L := L)
  obtain ⟨text', mem'⟩ := exists_mem (L := M)
  exact ⟨text ++ text', Language.append_mem_mul mem mem'⟩

namespace Viable

variable {L M : Language Char} {front above : List Char}

theorem of_mem (h : front ∈ L) : Viable L front :=
  ⟨[], by rwa [List.append_nil]⟩

/-- Nothing is the front of every text. -/
theorem nil [h : Populated L] : Viable L [] :=
  h.exists_mem

/-- Behind the front of a text, another text may follow. -/
theorem mul [h' : Populated M] (h : Viable L front) : Viable (L * M) front := by
  obtain ⟨more, mem⟩ := h
  obtain ⟨text, mem'⟩ := h'.exists_mem
  refine ⟨more ++ text, ?_⟩
  rw [← List.append_assoc]
  exact Language.append_mem_mul mem mem'

/-- A front may be put in front of what completes it. -/
theorem append (into : ∀ text ∈ M, above ++ text ∈ L) (h : Viable M front) :
    Viable L (above ++ front) := by
  obtain ⟨more, mem⟩ := h
  refine ⟨more, ?_⟩
  rw [List.append_assoc]
  exact into _ mem

end Viable

/-! ### Trouble that is met on the way -/

/-- What was expected at the further one of two places was expected there before. -/
theorem expected_furthest {a b : Option Trouble} {t : Trouble} {e : Expected}
    (h : t ∈ furthest a b) (mem : e ∈ t.expected) :
    (∃ u ∈ a, u.left = t.left ∧ e ∈ u.expected) ∨
      ∃ u ∈ b, u.left = t.left ∧ e ∈ u.expected := by
  cases a with
  | none => exact .inr ⟨t, h, rfl, mem⟩
  | some first =>
    cases b with
    | none => exact .inl ⟨t, h, rfl, mem⟩
    | some second =>
      unfold furthest at h
      dsimp only at h
      split_ifs at h with less more
      · obtain rfl := Option.some.inj h
        exact .inl ⟨_, rfl, rfl, mem⟩
      · obtain rfl := Option.some.inj h
        exact .inr ⟨_, rfl, rfl, mem⟩
      · obtain rfl := Option.some.inj h
        rcases mem_mergeExpected.1 mem with mem | mem
        · exact .inl ⟨first, rfl, rfl, mem⟩
        · exact .inr ⟨second, rfl, Nat.le_antisymm (Nat.le_of_not_lt less)
            (Nat.le_of_not_lt more), mem⟩

/-- Trouble that is met behind the front of a text of the language, and not because the text would
have to end there. -/
def MetInside (L : Language Char) (s : List Char) (trouble : Option Trouble) : Prop :=
  ∀ t ∈ trouble, .endOfInput ∉ t.expected ∧
    ∃ front r, s = front ++ r ∧ t.left = r.length ∧ Viable L front

namespace MetInside

variable {α β : Type} {L M : Language Char} {s t r above front : List Char}
  {a b : Option Trouble} {expected : List Expected}

theorem none (L : Language Char) (s : List Char) : MetInside L s .none :=
  fun _ h => absurd h (Option.not_mem_none _)

theorem some (split : s = front ++ r) (viable : Viable L front)
    (goes_on : .endOfInput ∉ expected) : MetInside L s (.some ⟨r.length, expected⟩) := by
  intro t ht
  obtain rfl := Option.some.inj ht
  exact ⟨goes_on, front, r, split, rfl, viable⟩

/-- A refusal at the first character. -/
theorem refuse [Populated L] (goes_on : .endOfInput ∉ expected) :
    MetInside L s (.some ⟨s.length, expected⟩) :=
  .some (List.nil_append s).symm .nil goes_on

theorem furthest (h : MetInside L s a) (h' : MetInside L s b) :
    MetInside L s (RatCalc.furthest a b) := by
  intro t ht
  refine ⟨fun ends => ?_, ?_⟩
  · rcases expected_furthest ht ends with ⟨u, hu, -, mem⟩ | ⟨u, hu, -, mem⟩
    · exact (h u hu).1 mem
    · exact (h' u hu).1 mem
  · rcases left_furthest ht with ⟨u, hu, same⟩ | ⟨u, hu, same⟩
    · exact same ▸ (h u hu).2
    · exact same ▸ (h' u hu).2

/-- Trouble that is met behind more text, which may stand in front of what completes the rest. -/
theorem behind (split : s = above ++ t) (into : ∀ text ∈ M, above ++ text ∈ L)
    (h : MetInside M t a) : MetInside L s a := by
  intro u hu
  obtain ⟨goes_on, front, r, rfl, left, viable⟩ := h u hu
  exact ⟨goes_on, above ++ front, r, by rw [split, List.append_assoc], left, viable.append into⟩

theorem mono (h : MetInside M s a) (le : M ≤ L) : MetInside L s a :=
  h.behind (List.nil_append s).symm fun _ mem => le mem

theorem mul [Populated M] (h : MetInside L s a) : MetInside (L * M) s a := by
  intro u hu
  obtain ⟨goes_on, front, r, split, left, viable⟩ := h u hu
  exact ⟨goes_on, front, r, split, left, viable.mul⟩

theorem bind {p : Reply α t} {next : α → (r : List Char) → r.length < t.length → Reply β r}
    (h : MetInside L s p.trouble)
    (later : ∀ x r less, p.Accepts x r → MetInside L s (next x r less).trouble) :
    MetInside L s (p.bind next).trouble := by
  unfold Reply.bind
  split
  · exact h
  · next x some => exact h.furthest (later _ _ _ ⟨x.shorter, some⟩)

theorem andThen {p : Reply α t} {next : α → (r : List Char) → r.length < t.length → Reply β r}
    (h : MetInside L s p.trouble)
    (later : ∀ x r less, p.Accepts x r → MetInside L s (next x (skipBlanks r) less).trouble) :
    MetInside L s (p.andThen next).trouble :=
  h.bind fun x r _ accepted => later x r _ accepted

end MetInside

/-! ### Sequencing and choice -/

/-- A text of blanks. -/
def gap : Language Char :=
  {b | Blanks b}

instance : Populated gap :=
  ⟨[], Blanks.nil⟩

/-- A reply leaves what follows a text of the language, and meets its trouble behind the front of
such a text. -/
structure Reply.Reads {α : Type} {s : List Char} (p : Reply α s) (L : Language Char) : Prop where
  rest : ∀ {value r}, p.Accepts value r → ∃ text ∈ L, s = text ++ r
  trouble : MetInside L s p.trouble

namespace Reply.Reads

variable {α β : Type} {s : List Char} {p : Reply α s} {L M : Language Char}

theorem accept {value : α} {r text : List Char} {shorter : r.length < s.length} (mem : text ∈ L)
    (split : s = text ++ r) : (accept value r shorter : Reply α s).Reads L where
  rest accepted := by
    obtain ⟨-, rfl⟩ := accepts_accept.1 accepted
    exact ⟨text, mem, split⟩
  trouble := .none L s

theorem refuse [Populated L] {expected : List Expected} (goes_on : .endOfInput ∉ expected) :
    (refuse s expected : Reply α s).Reads L where
  rest accepted := absurd accepted not_accepts_refuse
  trouble := .refuse goes_on

theorem mono (h : p.Reads M) (le : M ≤ L) : p.Reads L where
  rest accepted := by
    obtain ⟨text, mem, split⟩ := h.rest accepted
    exact ⟨text, le mem, split⟩
  trouble := h.trouble.mono le

theorem map {f : α → β} (h : p.Reads L) : (p.map f).Reads L where
  rest accepted := by
    obtain ⟨x, accepted, -⟩ := accepts_map.1 accepted
    exact h.rest accepted
  trouble := h.trouble

theorem orElse {q : Unit → Reply α s} (h : p.Reads L) (h' : (q ()).Reads L) :
    (p.orElse q).Reads L where
  rest accepted := by
    rcases accepts_orElse.1 accepted with accepted | ⟨-, accepted⟩
    · exact h.rest accepted
    · exact h'.rest accepted
  trouble := by
    unfold Reply.orElse
    split
    · exact h.trouble
    · exact h.trouble.furthest h'.trouble

theorem bind [Populated M] {next : α → (r : List Char) → r.length < s.length → Reply β r}
    (h : p.Reads L) (later : ∀ x r less, (next x r less).Reads M) :
    (p.bind next).Reads (L * M) where
  rest accepted := by
    obtain ⟨x, r, first, second⟩ := accepts_bind.1 accepted
    obtain ⟨text, mem, split⟩ := h.rest first
    obtain ⟨text', mem', rfl⟩ := (later _ _ _).rest second
    exact ⟨text ++ text', Language.append_mem_mul mem mem', by rw [split, List.append_assoc]⟩
  trouble := by
    refine .bind h.trouble.mul fun x r less accepted => ?_
    obtain ⟨text, mem, split⟩ := h.rest accepted
    exact (later x r less).trouble.behind split fun _ => Language.append_mem_mul mem

/-- What is read behind the blanks of a text, is read with the blanks in front. -/
theorem behindBlanks {q : Reply α (skipBlanks s)} (h : q.Reads L) :
    (q.widen (length_skipBlanks_le s)).Reads (gap * L) := by
  obtain ⟨b, blanks, split⟩ := exists_blanks_append_skipBlanks s
  have into : ∀ text ∈ L, b ++ text ∈ gap * L := fun _ => Language.append_mem_mul blanks
  constructor
  · intro value r accepted
    obtain ⟨text, mem, split'⟩ := h.rest (accepts_widen.1 accepted)
    exact ⟨b ++ text, into text mem, by rw [List.append_assoc, ← split', ← split]⟩
  · exact h.trouble.behind split into

theorem andThen [Populated M] {next : α → (r : List Char) → r.length < s.length → Reply β r}
    (h : p.Reads L) (later : ∀ x r less, (next x r less).Reads M) :
    (p.andThen next).Reads (L * (gap * M)) :=
  h.bind fun x r _ => (later x (skipBlanks r) _).behindBlanks

end Reply.Reads

namespace Grammar

open Reply (Reads)

variable {s t u : List Char} {level : ℕ}

/-! ### Words -/

/-- The spelling of a token. -/
def spelling (t : Token) : Language Char :=
  {t.chars}

/-- The spellings of names. -/
def names : Language Char :=
  {text | ∃ name : Name, name.toList = text ∧ IsName text}

/-- The spellings of numbers. -/
def numerals : Language Char :=
  {text | ∃ q, Spelled text q}

/-- One blank or more. -/
def spacing : Language Char :=
  {b | b ≠ [] ∧ Blanks b}

instance (t : Token) : Populated (spelling t) :=
  ⟨t.chars, rfl⟩

instance : Populated names :=
  ⟨['x'], "x", rfl, 'x', [], rfl, rfl, List.all_eq_true.1 rfl⟩

instance : Populated numerals :=
  ⟨['0'], ⟨_, rfl⟩⟩

instance : Populated spacing :=
  ⟨[' '], List.cons_ne_nil _ _, .space⟩

theorem reads_token (t : Token) (s : List Char) : (token t s).Reads (spelling t) := by
  unfold token
  split
  · next h => exact .accept (Set.mem_singleton t.chars) (eq_append_of_afterChars? h)
  · exact .refuse (by simp)

theorem reads_identifier (s : List Char) : (identifier s).Reads names where
  rest accepted := by
    obtain ⟨isName, -, split⟩ := accepts_identifier.1 accepted
    exact ⟨_, ⟨_, rfl, isName⟩, split⟩
  trouble := by
    cases s with
    | nil => exact .refuse (by simp)
    | cons c s =>
      unfold identifier
      dsimp only
      split_ifs
      · exact .none _ _
      · exact .refuse (by simp)

theorem reads_whitespace (s : List Char) : (whitespace s).Reads spacing where
  rest accepted := by
    obtain ⟨b, some, blanks, -, split⟩ := accepts_whitespace.1 accepted
    exact ⟨b, ⟨some, blanks⟩, split⟩
  trouble := by
    cases s with
    | nil => exact .refuse (by simp)
    | cons c s =>
      unfold whitespace
      dsimp only
      split_ifs
      · exact .none _ _
      · exact .refuse (by simp)

theorem reads_number (s : List Char) : (number s).Reads numerals where
  rest accepted := by
    obtain ⟨text, split, spelled⟩ := exists_of_accepts_number accepted
    exact ⟨text, ⟨_, spelled⟩, split⟩
  trouble := by
    unfold number
    split
    · exact .refuse (by simp)
    · split
      · exact .none _ _
      · exact .refuse (by simp)

/-! ### Operands -/

/-- The texts that are derived at a level at which the operators bind at least so tightly. -/
def expressions (level : ℕ) : Language Char :=
  {text | ∃ l e, level ≤ l.strength ∧ Derives Spelled l text e}

instance : Populated (expressions 0) :=
  ⟨['0'], .atom, _, Nat.zero_le _, .number rfl⟩

theorem expressions_anti {level' : ℕ} (looser : level ≤ level') :
    expressions level' ≤ expressions level := by
  rintro text ⟨l, e, tight, derived⟩
  exact ⟨l, e, looser.trans tight, derived⟩

/-- A piece of a form: an expression between blanks, behind a token. -/
theorem exists_of_mem_piece {t : Token} {L : Language Char}
    (h : u ∈ spelling t * (gap * (expressions 0 * gap * (gap * L)))) :
    ∃ s s' e, ∃ more ∈ L, Derives Spelled .sum s e ∧ Around s s' ∧ u = t.chars ++ (s' ++ more) := by
  obtain ⟨_, rfl, _, ⟨b, blanks, _, ⟨_, ⟨s, ⟨l, e, -, derived⟩, b₁, blanks₁, rfl⟩, _,
    ⟨b₂, blanks₂, more, mem, rfl⟩, rfl⟩, rfl⟩, rfl⟩ := h
  exact ⟨s, b ++ s ++ (b₁ ++ b₂), e, more, mem, derived.loosen l.sum_le,
    ⟨b, b₁ ++ b₂, blanks, blanks₁.append blanks₂, rfl⟩, by simp⟩

/-- A piece of a form: a name between blanks, behind a token. -/
theorem exists_of_mem_parameter {t : Token} {L : Language Char}
    (h : u ∈ spelling t * (gap * (names * (gap * L)))) :
    ∃ (name : Name) (p : List Char), ∃ more ∈ L, IsName name.toList ∧ Around name.toList p ∧
      u = t.chars ++ (p ++ more) := by
  obtain ⟨_, rfl, _, ⟨b, blanks, _, ⟨_, ⟨name, rfl, isName⟩, _, ⟨b', blanks', more, mem, rfl⟩,
    rfl⟩, rfl⟩, rfl⟩ := h
  exact ⟨name, b ++ name.toList ++ b', more, mem, isName, ⟨b, b', blanks, blanks', rfl⟩, by simp⟩

/-- A piece of a form: two names with a blank between them, behind a token. -/
theorem exists_of_mem_parameters {t : Token} {L : Language Char}
    (h : u ∈ spelling t * (gap * (names * (spacing * (gap * (names * (gap * L))))))) :
    ∃ (left right : Name) (b p : List Char), ∃ more ∈ L, IsName left.toList ∧
      IsName right.toList ∧ b ≠ [] ∧ Blanks b ∧ Around (left.toList ++ b ++ right.toList) p ∧
        u = t.chars ++ (p ++ more) := by
  obtain ⟨_, rfl, _, ⟨b₁, blanks₁, _, ⟨_, ⟨left, rfl, isLeft⟩, _, ⟨b₂, ⟨some, blanks₂⟩, _,
    ⟨b₃, blanks₃, _, ⟨_, ⟨right, rfl, isRight⟩, _, ⟨b₄, blanks₄, more, mem, rfl⟩, rfl⟩, rfl⟩, rfl⟩,
    rfl⟩, rfl⟩, rfl⟩ := h
  exact ⟨left, right, b₂ ++ b₃, b₁ ++ (left.toList ++ (b₂ ++ b₃) ++ right.toList) ++ b₄, more, mem,
    isLeft, isRight, by simp [some], blanks₂.append blanks₃,
    ⟨b₁, b₄, blanks₁, blanks₄, rfl⟩, by simp⟩

section Operand

variable {inner : Inner s} (h : ∀ r less, (inner r less).Reads (expressions 0 * gap))
include h

theorem reads_group : (group s inner).Reads (expressions Level.atom.strength) := by
  have symbol := reads_token
  refine Reads.mono (.andThen (symbol _ _) fun _ _ _ => .andThen (h _ _) fun _ _ _ =>
    (symbol _ _).map) fun text mem => ?_
  obtain ⟨u, u', e, _, rfl, derived, around, rfl⟩ := exists_of_mem_piece mem
  exact ⟨.atom, _, le_rfl, by simpa [Token.chars] using Derives.group derived around⟩

theorem reads_sequence : (sequence s inner).Reads (expressions Level.atom.strength) := by
  have symbol := reads_token
  refine Reads.mono (.andThen (symbol _ _) fun _ _ _ => .andThen (h _ _) fun _ _ _ =>
    .andThen (symbol _ _) fun _ _ _ => .andThen (h _ _) fun _ _ _ => (symbol _ _).map)
    fun text mem => ?_
  obtain ⟨u₁, u₁', x, _, mem₁, derived₁, around₁, rfl⟩ := exists_of_mem_piece mem
  obtain ⟨u₂, u₂', y, _, rfl, derived₂, around₂, rfl⟩ := exists_of_mem_piece mem₁
  exact ⟨.atom, _, le_rfl, by
    simpa [Token.chars] using Derives.sequence derived₁ around₁ derived₂ around₂⟩

theorem reads_mapForm : (mapForm s inner).Reads (expressions Level.atom.strength) := by
  have symbol := reads_token
  refine Reads.mono (.andThen (symbol _ _) fun _ _ _ => .andThen (h _ _) fun _ _ _ =>
    .andThen (symbol _ _) fun _ _ _ => .andThen (reads_identifier _) fun _ _ _ =>
      .andThen (symbol _ _) fun _ _ _ => .andThen (h _ _) fun _ _ _ => (symbol _ _).map)
    fun text mem => ?_
  obtain ⟨u₁, u₁', x, _, mem₁, derived₁, around₁, rfl⟩ := exists_of_mem_piece mem
  obtain ⟨name, p, _, mem₂, isName, around, rfl⟩ := exists_of_mem_parameter mem₁
  obtain ⟨u₂, u₂', y, _, rfl, derived₂, around₂, rfl⟩ := exists_of_mem_piece mem₂
  exact ⟨.atom, _, le_rfl, by
    simpa [Token.chars] using Derives.map derived₁ around₁ isName around derived₂ around₂⟩

theorem reads_reduceForm : (reduceForm s inner).Reads (expressions Level.atom.strength) := by
  have symbol := reads_token
  refine Reads.mono (.andThen (symbol _ _) fun _ _ _ => .andThen (h _ _) fun _ _ _ =>
    .andThen (symbol _ _) fun _ _ _ => .andThen (h _ _) fun _ _ _ =>
      .andThen (symbol _ _) fun _ _ _ => .bind (reads_identifier _) fun _ _ _ =>
        .andThen (reads_whitespace _) fun _ _ _ => .andThen (reads_identifier _) fun _ _ _ =>
          .andThen (symbol _ _) fun _ _ _ => .andThen (h _ _) fun _ _ _ => (symbol _ _).map)
    fun text mem => ?_
  obtain ⟨u₁, u₁', x, _, mem₁, derived₁, around₁, rfl⟩ := exists_of_mem_piece mem
  obtain ⟨u₂, u₂', i, _, mem₂, derived₂, around₂, rfl⟩ := exists_of_mem_piece mem₁
  obtain ⟨left, right, b, p, _, mem₃, isLeft, isRight, some, blanks, around, rfl⟩ :=
    exists_of_mem_parameters mem₂
  obtain ⟨u₃, u₃', y, _, rfl, derived₃, around₃, rfl⟩ := exists_of_mem_piece mem₃
  exact ⟨.atom, _, le_rfl, by
    simpa [Token.chars] using Derives.reduce derived₁ around₁ derived₂ around₂ isLeft isRight some
      blanks around derived₃ around₃⟩

theorem reads_operand : (operand s inner).Reads (expressions Level.atom.strength) := by
  refine .orElse (reads_group h) (.orElse (reads_sequence h) (.orElse (reads_mapForm h)
    (.orElse (reads_reduceForm h) (.orElse ?number ?identifier))))
  case number =>
    refine (reads_number s).map.mono ?_
    rintro text ⟨q, spelled⟩
    exact ⟨.atom, _, le_rfl, .number spelled⟩
  case identifier =>
    refine (reads_identifier s).map.mono ?_
    rintro text ⟨name, rfl, isName⟩
    exact ⟨.atom, _, le_rfl, .identifier isName⟩

end Operand

end Grammar

/-! ### Operators behind derived texts -/

/-- **An operator and its operand may stand behind every derived text.** If the operator binds
tighter than some operators of the text, it goes into the right operand of the last one of
them. -/
theorem Derives.join_mem {l : Level} {s o t : List Char} {x y : Expression} {op : Operator}
    (left : Derives Spelled l s x) (symbol : Around [op.toChar] o)
    (right : Derives Spelled op.level.tighter t y) :
    s ++ o ++ t ∈ Grammar.expressions (min l.strength op.level.strength) := by
  have direct {l : Level} {s : List Char} {x : Expression} (left : Derives Spelled l s x)
      (weak : op.level.strength ≤ l.strength) :
      s ++ o ++ t ∈ Grammar.expressions (min l.strength op.level.strength) :=
    ⟨op.level, _, min_le_right _ _, .operation (left.loosen weak) symbol right⟩
  have atom := op.level.le_atom
  induction left with
  | @tighter l _ _ _ ih =>
    exact Grammar.expressions_anti (min_le_min_right _ l.le_tighter) ih
  | @operation s o' t' x y op' left symbol' right' _ ih =>
    by_cases weak : op.level.strength ≤ op'.level.strength
    · exact direct (.operation left symbol' right') weak
    · obtain ⟨l', e, tight, derived⟩ := ih
      have tighter : op'.level.tighter.strength ≤ op.level.strength := by
        rw [op'.strength_level] at weak
        exact Operator.tighter_le (Nat.lt_of_not_le weak)
      rw [min_eq_left tighter] at tight
      refine ⟨op'.level, .operation x op' e, min_le_left _ _, ?_⟩
      rw [List.append_assoc, List.append_assoc, ← List.append_assoc t']
      exact .operation left symbol' (derived.loosen tight)
  | group inner padded => exact direct (.group inner padded) atom
  | sequence start padded₁ stop padded₂ => exact direct (.sequence start padded₁ stop padded₂) atom
  | map items padded₁ isName padded₂ result padded₃ =>
    exact direct (.map items padded₁ isName padded₂ result padded₃) atom
  | reduce items padded₁ start padded₂ isLeft isRight some blanks padded₃ result padded₄ =>
    exact direct (.reduce items padded₁ start padded₂ isLeft isRight some blanks padded₃ result
      padded₄) atom
  | number spelled => exact direct (.number spelled) atom
  | identifier isName => exact direct (.identifier isName) atom

namespace Grammar

open Reply (Reads)

variable {s : List Char} {level : ℕ}

/-- An operator is refused where it would have to stand. -/
theorem metInside_operator {L : Language Char} {front t : List Char} (split : s = front ++ t)
    (viable : Viable L front) : MetInside L s (operator level t).trouble := by
  cases t with
  | nil => exact .some split viable (by simp)
  | cons c t =>
    unfold operator
    dsimp only
    split
    · exact .none _ _
    · exact .some ‹_› viable (by simp)

/-- An operator that binds tightly enough may stand behind an expression, with an operand. -/
theorem append_mem_expressions {text o t : List Char} {op : Operator}
    (tight : level ≤ op.precedence) (left : text ∈ expressions level)
    (symbol : Around [op.toChar] o) (right : t ∈ expressions (op.precedence + 1)) :
    text ++ o ++ t ∈ expressions level := by
  obtain ⟨l, x, tight', derived⟩ := left
  obtain ⟨l₁, y, tight₁, derived₁⟩ := right
  obtain ⟨l', e, tight'', derived'⟩ :=
    derived.join_mem symbol (derived₁.loosen (Operator.tighter_le tight₁))
  rw [op.strength_level] at tight''
  exact ⟨l', e, (le_min tight' tight).trans tight'', derived'⟩

/-! ### Expressions -/

/-- Trouble in the climb is met behind the expression read so far and the blanks behind it, or
inside an operand behind an operator. -/
theorem metInside_climb
    (h : ∀ t : List Char, t.length < s.length → ∀ level, level ≤ Level.atom.strength →
      (expression level t).Reads (expressions level * gap))
    {left : Reading Expression s} {trouble : Option Trouble} {text : List Char}
    (split : s = text ++ left.rest) (mem : text ∈ expressions level)
    (met : MetInside (expressions level * gap) s trouble) :
    MetInside (expressions level * gap) s
      (climb level (fun tighter r _ => expression tighter r) left trouble).trouble := by
  induction size : left.rest.length using Nat.strong_induction_on
    generalizing left trouble text with
  | _ n ih =>
    subst size
    have shorter : (skipBlanks left.rest).length < s.length :=
      (length_skipBlanks_le _).trans_lt left.shorter
    have cut {op : Operator} {t : List Char} (symbol : skipBlanks left.rest = op.toChar :: t) :
        ∃ o, Around [op.toChar] o ∧ s = text ++ o ++ skipBlanks t := by
      have found : skipBlanks left.rest = [op.toChar] ++ t := symbol
      obtain ⟨o, around, rest⟩ := around_of_skipBlanks found
      exact ⟨o, around, by rw [List.append_assoc, ← rest, ← split]⟩
    have next : MetInside (expressions level * gap) s
        ((operator level (skipBlanks left.rest)).andThen fun op r _ =>
          (expression (op.precedence + 1) r).map fun right => (op, right)).trouble := by
      refine .andThen ?_ fun op r less accepted => ?_
      · obtain ⟨b, blanks, rest⟩ := exists_blanks_append_skipBlanks left.rest
        have whole : s = (text ++ b) ++ skipBlanks left.rest := by
          rw [List.append_assoc, ← rest, ← split]
        exact metInside_operator whole (.of_mem (Language.append_mem_mul mem blanks))
      · obtain ⟨tight, symbol⟩ := accepts_operator.1 accepted
        obtain ⟨o, around, whole⟩ := cut symbol
        refine (h _ (less.trans shorter) _ op.precedence_lt_atom).trouble.behind whole ?_
        rintro _ ⟨t, mem', b, blanks, rfl⟩
        rw [← List.append_assoc]
        exact Language.append_mem_mul (append_mem_expressions tight mem around mem') blanks
    rw [climb]
    split
    · exact met.furthest next
    · next op right rest less some =>
      -- The tree that is built is of no use here: what was read so far is derived at some level,
      -- and joining an operand to it leaves it so.
      obtain ⟨tight, t, symbol, accepted⟩ := accepts_step.1 ⟨less, some⟩
      obtain ⟨o, around, whole⟩ := cut symbol
      obtain ⟨⟨text', l, behind, tight', derived⟩, -⟩ :=
        derives_of_accepts (skipBlanks t) op.precedence_lt_atom accepted
      have mem' := append_mem_expressions tight mem around ⟨l, right, tight', derived⟩
      refine ih rest.length (Nat.lt_of_lt_of_le less (length_skipBlanks_le left.rest)) ?_ mem'
        (met.furthest next) rfl
      rw [List.append_assoc _ text', ← behind, ← whole]

/-- **Trouble in an expression is met inside an expression**, or in the blanks behind one. -/
theorem reads_expression (s : List Char) (shallow : level ≤ Level.atom.strength) :
    (expression level s).Reads (expressions level * gap) := by
  induction size : s.length using Nat.strong_induction_on generalizing s level with
  | _ n ih =>
    subst size
    have inner : ∀ t : List Char, t.length < s.length → ∀ level, level ≤ Level.atom.strength →
        (expression level t).Reads (expressions level * gap) :=
      fun t less level shallow => ih t.length less t shallow rfl
    have first : (operand s fun r _ => expression 0 r).Reads (expressions level) :=
      (reads_operand fun r less => inner r less 0 (Nat.zero_le _)).mono (expressions_anti shallow)
    constructor
    · intro e r accepted
      obtain ⟨⟨text, l, split, tight, derived⟩, -⟩ := derives_of_accepts s shallow accepted
      have whole : text ++ [] ∈ expressions level * gap :=
        Language.append_mem_mul ⟨l, e, tight, derived⟩ Blanks.nil
      rw [List.append_nil] at whole
      exact ⟨text, whole, split⟩
    · rw [expression]
      split
      · next none =>
        rw [none] at first
        exact first.trouble.mul
      · next left trouble some =>
        rw [some] at first
        obtain ⟨text, mem, split⟩ := first.rest ⟨left.shorter, rfl⟩
        exact metInside_climb inner split mem first.trouble.mul

end Grammar

end RatCalc
