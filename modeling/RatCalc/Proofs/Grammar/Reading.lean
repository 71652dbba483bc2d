import Mathlib
import RatCalc.Grammar.Word

/-!
# What readers accept

A reader accepts a value in front of a rest, or it refuses. Sequencing and ordered choice are
described by what they accept, and each word by its spelling and by what may follow it.

## Main definitions

* `Reply.Accepts`: a reply hands back this value and this rest.
* `Blanks`, `IsName`: texts of blanks, and the spellings of names.

## Main results

* `Reply.accepts_andThen`, `Reply.accepts_orElse`: sequencing and ordered choice.
* `Grammar.accepts_token`, `Grammar.accepts_identifier`, `Grammar.accepts_operator`: the words.
-/

namespace RatCalc

/-- The reply accepts a value and leaves a rest. -/
def Reply.Accepts {α : Type} {s : List Char} (p : Reply α s) (value : α) (rest : List Char) :
    Prop :=
  ∃ shorter, p.reading = some ⟨value, rest, shorter⟩

namespace Reply

variable {α β : Type} {s t : List Char} {p : Reply α s} {value : α} {rest : List Char}

/-- What is accepted leaves less of the text. -/
theorem Accepts.shorter (h : p.Accepts value rest) : rest.length < s.length :=
  h.1

/-- A reply accepts one thing at most. -/
theorem Accepts.unique {value' : α} {rest' : List Char} (h : p.Accepts value rest)
    (h' : p.Accepts value' rest') : value = value' ∧ rest = rest' := by
  obtain ⟨_, h⟩ := h
  obtain ⟨_, h'⟩ := h'
  cases h.symm.trans h'
  exact ⟨rfl, rfl⟩

/-- A reply that accepts nothing has no reading. -/
theorem reading_eq_none_iff : p.reading = none ↔ ∀ value rest, ¬ p.Accepts value rest := by
  constructor
  · rintro none value rest ⟨_, some⟩
    rw [none] at some
    cases some
  · intro refuses
    cases h : p.reading with
    | none => rfl
    | some x => exact absurd ⟨x.shorter, h⟩ (refuses x.value x.rest)

@[simp]
theorem accepts_accept {v : α} {r : List Char} {shorter : r.length < s.length} :
    (accept v r shorter).Accepts value rest ↔ v = value ∧ r = rest := by
  constructor
  · rintro ⟨_, h⟩
    cases h
    exact ⟨rfl, rfl⟩
  · rintro ⟨rfl, rfl⟩
    exact ⟨shorter, rfl⟩

@[simp]
theorem not_accepts_refuse {expected : List Expected} :
    ¬ (refuse s expected : Reply α s).Accepts value rest := by
  rintro ⟨_, h⟩
  cases h

@[simp]
theorem accepts_map {f : α → β} {value : β} :
    (p.map f).Accepts value rest ↔ ∃ x, p.Accepts x rest ∧ f x = value := by
  constructor
  · rintro ⟨shorter, h⟩
    obtain ⟨x, hx, hv⟩ := Option.map_eq_some_iff.1 h
    cases hv
    exact ⟨x.value, ⟨x.shorter, hx⟩, rfl⟩
  · rintro ⟨x, ⟨shorter, h⟩, rfl⟩
    exact ⟨shorter, congrArg (Option.map (Reading.map f)) h⟩

@[simp]
theorem accepts_after {earlier : Option Trouble} :
    (p.after earlier).Accepts value rest ↔ p.Accepts value rest :=
  Iff.rfl

@[simp]
theorem accepts_widen {q : Reply α t} {h : t.length ≤ s.length} :
    (q.widen h : Reply α s).Accepts value rest ↔ q.Accepts value rest := by
  constructor
  · rintro ⟨shorter, h⟩
    obtain ⟨x, hx, hv⟩ := Option.map_eq_some_iff.1 h
    cases hv
    exact ⟨x.shorter, hx⟩
  · rintro ⟨shorter, hx⟩
    exact ⟨Nat.lt_of_lt_of_le shorter h,
      congrArg (Option.map fun x : Reading α t => (x.widen h : Reading α s)) hx⟩

/-- Ordered choice: the second alternative counts only where the first one refuses. -/
theorem accepts_orElse {q : Unit → Reply α s} :
    (p.orElse q).Accepts value rest ↔
      p.Accepts value rest ∨ p.reading = none ∧ (q ()).Accepts value rest := by
  unfold orElse
  split
  · next x h => simp [h]
  · next h =>
    have refuses : ¬ p.Accepts value rest := reading_eq_none_iff.1 h value rest
    simp [h, refuses]

/-- Reading on directly behind what was read. -/
theorem accepts_bind {next : α → (r : List Char) → r.length < s.length → Reply β r} {value : β} :
    (p.bind next).Accepts value rest ↔
      ∃ x r, ∃ h : p.Accepts x r, (next x r h.shorter).Accepts value rest := by
  unfold bind
  split
  · next none =>
    have refuses := reading_eq_none_iff.1 none
    constructor
    · rintro ⟨_, h⟩
      cases h
    · rintro ⟨x, r, h, -⟩
      exact absurd h (refuses x r)
  · next x some =>
    rw [accepts_after, accepts_widen]
    constructor
    · intro h
      exact ⟨x.value, x.rest, ⟨x.shorter, some⟩, h⟩
    · rintro ⟨y, r, ⟨_, hy⟩, h⟩
      cases some.symm.trans hy
      exact h

/-- Reading on behind the blanks that follow what was read. -/
theorem accepts_andThen {next : α → (r : List Char) → r.length < s.length → Reply β r}
    {value : β} :
    (p.andThen next).Accepts value rest ↔
      ∃ x r, ∃ h : p.Accepts x r,
        (next x (skipBlanks r)
          (Nat.lt_of_le_of_lt (length_skipBlanks_le r) h.shorter)).Accepts value rest := by
  simp only [andThen, accepts_bind, accepts_widen]

end Reply

/-! ### Runs of characters -/

/-- A text that does not start with a character of a class. -/
def Stops (p : Char → Bool) (s : List Char) : Prop :=
  ∀ c ∈ s.head?, p c = false

namespace Stops

variable {p : Char → Bool} {s : List Char}

theorem nil : Stops p [] :=
  fun _ h => absurd h (Option.not_mem_none _)

theorem cons {c : Char} (h : p c = false) : Stops p (c :: s) := by
  intro d hd
  rwa [← Option.some.inj hd]

/-- What follows a run of characters does not start with one of them. -/
theorem dropWhile (p : Char → Bool) (s : List Char) : Stops p (s.dropWhile p) := by
  intro c h
  have first := List.head?_dropWhile_not p s
  rw [Option.mem_def.1 h] at first
  exact first

/-- A run of characters ends where a text starts that does not start with one of them. -/
theorem takeWhile_append {run : List Char} (inside : ∀ c ∈ run, p c = true) (stops : Stops p s) :
    (run ++ s).takeWhile p = run := by
  rw [List.takeWhile_append_of_pos inside]
  cases s with
  | nil => exact List.append_nil run
  | cons c s =>
    rw [List.takeWhile_cons_of_neg (by rw [stops c rfl]; exact Bool.false_ne_true),
      List.append_nil]

theorem dropWhile_append {run : List Char} (inside : ∀ c ∈ run, p c = true) (stops : Stops p s) :
    (run ++ s).dropWhile p = s := by
  rw [List.dropWhile_append_of_pos inside]
  cases s with
  | nil => rfl
  | cons c s => exact List.dropWhile_cons_of_neg (by rw [stops c rfl]; exact Bool.false_ne_true)

/-- A text is split in one way only behind a run of characters that goes on as far as it can. -/
theorem append_inj {t run run' : List Char} (stops : Stops p s) (stops' : Stops p t)
    (inside : ∀ c ∈ run, p c = true) (inside' : ∀ c ∈ run', p c = true)
    (h : run ++ s = run' ++ t) : run = run' ∧ s = t := by
  have rests := congrArg (List.dropWhile p) h
  rw [stops.dropWhile_append inside, stops'.dropWhile_append inside'] at rests
  subst rests
  exact ⟨List.append_cancel_right h, rfl⟩

end Stops

/-- A text of spaces and tabs, perhaps empty. -/
def Blanks (b : List Char) : Prop :=
  ∀ c ∈ b, isBlank c = true

theorem Blanks.nil : Blanks [] :=
  fun _ h => absurd h List.not_mem_nil

theorem Blanks.space : Blanks [' '] := by
  intro c h
  rw [List.mem_singleton.1 h]
  rfl

theorem Blanks.append {b b' : List Char} (blanks : Blanks b) (blanks' : Blanks b') :
    Blanks (b ++ b') :=
  fun c h => (List.mem_append.1 h).elim (blanks c) (blanks' c)

/-- Skipping blanks cuts blanks off the front. -/
theorem exists_blanks_append_skipBlanks (s : List Char) :
    ∃ b, Blanks b ∧ s = b ++ skipBlanks s :=
  ⟨s.takeWhile isBlank, fun _ h => List.mem_takeWhile_imp h,
    List.takeWhile_append_dropWhile.symm⟩

/-- Blanks in front of a text that does not start with a blank are all that is skipped. -/
theorem skipBlanks_append {b s : List Char} (blanks : Blanks b) (solid : Stops isBlank s) :
    skipBlanks (b ++ s) = s :=
  solid.dropWhile_append blanks

theorem skipBlanks_of_stops {s : List Char} (solid : Stops isBlank s) : skipBlanks s = s :=
  skipBlanks_append Blanks.nil solid

/-- What is left behind a character that is read, with blanks around it, is shorter. -/
theorem length_skipBlanks_lt {c : Char} {s t : List Char} (h : skipBlanks s = c :: t) :
    (skipBlanks t).length < s.length :=
  calc (skipBlanks t).length ≤ t.length := length_skipBlanks_le t
    _ < (skipBlanks s).length := by rw [h, List.length_cons]; exact Nat.lt_succ_self _
    _ ≤ s.length := length_skipBlanks_le s

/-! ### Words -/

/-- Operators are told apart by their characters. -/
theorem Operator.toChar_injective : Function.Injective Operator.toChar := by
  intro op op' h
  have same := congrArg Operator.ofChar? h
  rw [Operator.ofChar?_toChar, Operator.ofChar?_toChar] at same
  exact Option.some.inj same

/-- The spelling of a name: a letter or an underscore, then letters, digits and underscores. -/
def IsName (t : List Char) : Prop :=
  ∃ c cs, t = c :: cs ∧ Grammar.isNameStart c = true ∧ ∀ d ∈ cs, Grammar.isNameRest d = true

/-- Every character of a name may stand inside a name. -/
theorem IsName.inside {t : List Char} (h : IsName t) : ∀ c ∈ t, Grammar.isNameRest c = true := by
  obtain ⟨c, cs, rfl, start, rest⟩ := h
  intro d hd
  rcases List.mem_cons.1 hd with rfl | hd
  · simp only [Grammar.isNameStart, Grammar.isNameRest, Char.isAlphanum, Bool.or_eq_true] at start ⊢
    exact start.imp_left .inl
  · exact rest d hd

/-- A blank is a space or a tab. -/
theorem eq_of_isBlank {c : Char} (h : isBlank c = true) : c = ' ' ∨ c = '\t' := by
  simpa [isBlank] using h

/-- A name does not go on with a blank. -/
theorem Grammar.isNameRest_of_isBlank (c : Char) (h : isBlank c = true) : isNameRest c = false := by
  rcases eq_of_isBlank h with rfl | rfl
  · decide
  · decide

/-- A character of a name is no blank. -/
theorem Grammar.isBlank_of_isNameRest {c : Char} (h : isNameRest c = true) : isBlank c = false := by
  by_contra blank
  rw [isNameRest_of_isBlank c (Bool.eq_true_of_not_eq_false blank)] at h
  cases h

namespace Grammar

variable {s rest : List Char}

theorem afterChars?_append (cs r : List Char) : afterChars? cs (cs ++ r) = some r := by
  induction cs with
  | nil => rfl
  | cons c cs ih => rw [List.cons_append, afterChars?, beq_self_eq_true, if_pos rfl, ih]

/-- A token is accepted where it is spelled. -/
theorem accepts_token {t : Token} {u : Unit} :
    (token t s).Accepts u rest ↔ s = t.chars ++ rest := by
  unfold token
  split
  · next r h =>
    rw [Reply.accepts_accept]
    constructor
    · rintro ⟨-, rfl⟩
      exact eq_append_of_afterChars? h
    · rintro rfl
      rw [afterChars?_append] at h
      exact ⟨rfl, (Option.some.inj h).symm⟩
  · next h =>
    constructor
    · intro accepted
      exact absurd accepted Reply.not_accepts_refuse
    · rintro rfl
      rw [afterChars?_append] at h
      cases h

/-- The longest name at the front of a text is accepted. -/
theorem accepts_identifier {name : Name} :
    (identifier s).Accepts name rest ↔
      IsName name.toList ∧ Stops isNameRest rest ∧ s = name.toList ++ rest := by
  constructor
  · intro h
    cases s with
    | nil => exact absurd h Reply.not_accepts_refuse
    | cons c s =>
      unfold identifier at h
      dsimp only at h
      split at h
      · next start =>
        obtain ⟨rfl, rfl⟩ := Reply.accepts_accept.1 h
        rw [String.toList_ofList]
        exact ⟨⟨c, _, rfl, start, fun _ h => List.mem_takeWhile_imp h⟩, .dropWhile _ _, by simp⟩
      · exact absurd h Reply.not_accepts_refuse
  · rintro ⟨⟨c, cs, spelled, start, inside⟩, stops, rfl⟩
    rw [spelled, List.cons_append, identifier]
    simp only [start, if_true, stops.takeWhile_append inside, stops.dropWhile_append inside]
    rw [Reply.accepts_accept, ← spelled]
    exact ⟨String.ofList_toList, rfl⟩

/-- An operator is accepted where its character stands, if it binds tightly enough. -/
theorem accepts_operator {level : ℕ} {op : Operator} :
    (operator level s).Accepts op rest ↔ level ≤ op.precedence ∧ s = op.toChar :: rest := by
  constructor
  · intro h
    cases s with
    | nil => exact absurd h Reply.not_accepts_refuse
    | cons c s =>
      unfold operator at h
      dsimp only at h
      split at h
      · next found some =>
        obtain ⟨rfl, rfl⟩ := Reply.accepts_accept.1 h
        have tight : found ∈ operatorsFrom level := List.mem_of_find?_eq_some some
        have spelled := List.find?_some some
        rw [operatorsFrom, List.mem_filter, decide_eq_true_eq] at tight
        exact ⟨tight.2, by rw [eq_of_beq spelled]⟩
      · exact absurd h Reply.not_accepts_refuse
  · rintro ⟨tight, rfl⟩
    have mem : op ∈ operatorsFrom level := by
      have listed : op ∈ Operator.all := by cases op <;> decide
      rw [operatorsFrom, List.mem_filter, decide_eq_true_eq]
      exact ⟨listed, tight⟩
    rw [operator]
    split
    · next found some =>
      have spelled := List.find?_some some
      rw [beq_iff_eq] at spelled
      exact Reply.accepts_accept.2 ⟨Operator.toChar_injective spelled, rfl⟩
    · next none => exact absurd (beq_self_eq_true op.toChar) (List.find?_eq_none.1 none op mem)

/-- Blanks are accepted where there is one at least, and as many as there are. -/
theorem accepts_whitespace {u : Unit} :
    (whitespace s).Accepts u rest ↔
      ∃ b, b ≠ [] ∧ Blanks b ∧ Stops isBlank rest ∧ s = b ++ rest := by
  constructor
  · intro h
    cases s with
    | nil => exact absurd h Reply.not_accepts_refuse
    | cons c s =>
      unfold whitespace at h
      dsimp only at h
      split at h
      · next blank =>
        obtain ⟨-, rfl⟩ := Reply.accepts_accept.1 h
        obtain ⟨b, blanks, split⟩ := exists_blanks_append_skipBlanks s
        refine ⟨c :: b, List.cons_ne_nil c b, ?_, .dropWhile _ _, by rw [List.cons_append, ← split]⟩
        intro d hd
        rcases List.mem_cons.1 hd with rfl | hd
        · exact blank
        · exact blanks d hd
      · exact absurd h Reply.not_accepts_refuse
  · rintro ⟨b, some, blanks, stops, rfl⟩
    obtain ⟨c, b, rfl⟩ := List.exists_cons_of_ne_nil some
    have blank : isBlank c = true := blanks c List.mem_cons_self
    have others : Blanks b := fun d hd => blanks d (List.mem_cons_of_mem c hd)
    rw [List.cons_append, whitespace]
    simp only [blank, if_true, skipBlanks_append others stops]
    exact Reply.accepts_accept.2 ⟨rfl, rfl⟩

end Grammar

end RatCalc
