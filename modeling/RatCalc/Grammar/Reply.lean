import RatCalc.Grammar.Token

/-!
# Replies of readers

A reader looks at the front of a text. When it accepts, it hands back a value and a strictly
shorter rest, so that every grammar built from readers comes to an end. Accepting or not, it
notes the furthest place at which some alternative had to give up, with everything that would
have been accepted there. A place is measured by how many characters are left after it: fewer
left means further.

## Main definitions

* `Trouble`: a place and what was expected there; `furthest` keeps the later of two places.
* `Reading`: a value with the rest of the text behind it.
* `Reply`: a reading, or none, with the trouble met on the way.
* `Reply.orElse`, `Reply.bind`, `Reply.andThen`: ordered choice and sequencing; `andThen` skips
  blanks in between.
-/

namespace RatCalc

/-- A place where reading could not go on, given by the number of characters left there, and what
would have been accepted. -/
structure Trouble where
  left : Nat
  expected : List Expected
  deriving DecidableEq

/-- All expectations of both lists; those of the second that the first has too are not repeated. -/
def mergeExpected (first second : List Expected) : List Expected :=
  first ++ second.filter fun e => !first.contains e

/-- An expectation is among the merged ones if it is in either list. -/
theorem mem_mergeExpected {e : Expected} {first second : List Expected} :
    e ∈ mergeExpected first second ↔ e ∈ first ∨ e ∈ second := by
  simp only [mergeExpected, List.mem_append, List.mem_filter, Bool.not_eq_true',
    List.contains_eq_mem, decide_eq_false_iff_not]
  by_cases h : e ∈ first <;> simp [h]

/-- The trouble that lies further on; at one and the same place the expectations add up. -/
def furthest : Option Trouble → Option Trouble → Option Trouble
  | none, second => second
  | first, none => first
  | some first, some second =>
    if first.left < second.left then some first
    else if second.left < first.left then some second
    else some ⟨first.left, mergeExpected first.expected second.expected⟩

/-- A value read from the front of `s`, with the rest of `s` behind it. -/
structure Reading (α : Type) (s : List Char) where
  value : α
  rest : List Char
  shorter : rest.length < s.length

/-- What a reader makes of the front of `s`: a reading if it accepts, and the furthest trouble
that it met. -/
structure Reply (α : Type) (s : List Char) where
  reading : Option (Reading α s)
  trouble : Option Trouble

/-- Whether a character separates words on a line: a space or a tab. -/
def isBlank (c : Char) : Bool :=
  c == ' ' || c == '\t'

/-- The text without the blanks at its front. -/
def skipBlanks (s : List Char) : List Char :=
  s.dropWhile isBlank

/-- Dropping characters from the front makes a text no longer. -/
theorem length_dropWhile_le (p : Char → Bool) (s : List Char) :
    (s.dropWhile p).length ≤ s.length :=
  (List.dropWhile_sublist p).length_le

/-- Skipping blanks makes a text no longer. -/
theorem length_skipBlanks_le (s : List Char) : (skipBlanks s).length ≤ s.length :=
  length_dropWhile_le isBlank s

namespace Reading

variable {α β : Type} {s t : List Char}

/-- The reading with its value changed. -/
def map (f : α → β) (x : Reading α s) : Reading β s :=
  ⟨f x.value, x.rest, x.shorter⟩

/-- The same reading, seen from a text that is no shorter. -/
def widen (x : Reading α t) (h : t.length ≤ s.length) : Reading α s :=
  ⟨x.value, x.rest, Nat.lt_of_lt_of_le x.shorter h⟩

end Reading

namespace Reply

variable {α β : Type} {s t : List Char}

/-- Accepts a value in front of `rest`. -/
def accept (value : α) (rest : List Char) (shorter : rest.length < s.length) : Reply α s :=
  ⟨some ⟨value, rest, shorter⟩, none⟩

/-- Gives up at the front of `s`. -/
def refuse (s : List Char) (expected : List Expected) : Reply α s :=
  ⟨none, some ⟨s.length, expected⟩⟩

/-- The reply with its value changed. -/
def map (f : α → β) (p : Reply α s) : Reply β s :=
  ⟨p.reading.map (Reading.map f), p.trouble⟩

/-- The reply with trouble that was met before it. -/
def after (p : Reply α s) (earlier : Option Trouble) : Reply α s :=
  ⟨p.reading, furthest earlier p.trouble⟩

/-- The same reply, seen from a text that is no shorter. -/
def widen (p : Reply α t) (h : t.length ≤ s.length) : Reply α s :=
  ⟨p.reading.map (·.widen h), p.trouble⟩

/-- The first reply if it accepts, else the second. -/
def orElse (p : Reply α s) (q : Unit → Reply α s) : Reply α s :=
  match p.reading with
  | some _ => p
  | none => (q ()).after p.trouble

/-- Reads on directly behind the first reading. -/
def bind (p : Reply α s)
    (next : α → (r : List Char) → r.length < s.length → Reply β r) : Reply β s :=
  match p.reading with
  | none => ⟨none, p.trouble⟩
  | some x => ((next x.value x.rest x.shorter).widen (Nat.le_of_lt x.shorter)).after p.trouble

/-- Reads on behind the first reading and the blanks that follow it. -/
def andThen (p : Reply α s)
    (next : α → (r : List Char) → r.length < s.length → Reply β r) : Reply β s :=
  p.bind fun value r shorter =>
    (next value (skipBlanks r)
      (Nat.lt_of_le_of_lt (length_skipBlanks_le r) shorter)).widen (length_skipBlanks_le r)

end Reply

end RatCalc
