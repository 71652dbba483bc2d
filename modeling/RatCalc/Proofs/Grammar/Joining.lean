import Mathlib
import RatCalc.Proofs.Grammar.Lines
import RatCalc.Proofs.Grammar.OneLine

/-!
# Texts joined by a line break

Two texts with a line break between them are a program exactly if both are programs, as a statement
is read on one line and the reader of programs works line by line. If the first text is a program
and the second one is not, the joined text fails where the second one does: all trouble that is met
in the first text lies in front of the break, and behind the break the reader does what it does at
the front of the second text.

## Main definitions

* `Grammar.SameAhead`: behind their line ends, two texts lead to the same trouble and the same rest.

## Main results

* `Program.parse?_append_iff`: what a joined text is read as.
* `Program.parse?_append_error`: where a joined text fails.
-/

namespace RatCalc

/-- What is left of a text does not end with a character with which the text does not end. -/
theorem getLast?_ne_of_suffix {s r : List Char} {c : Char} (h : r <:+ s)
    (last : s.getLast? ≠ some c) : r.getLast? ≠ some c := by
  obtain ⟨front, rfl⟩ := h
  intro ends
  refine last ?_
  rw [List.getLast?_append, ends]
  rfl

open Grammar

variable {s r q tail : List Char} {P : Program}

/-! ### Splitting a program at a line break -/

namespace Grammar

/-- A line that ends in a joined text ends in the first text or with the break behind it. -/
theorem accepts_lineEnd_append (joint : tail = '\n' :: q ∨ tail = '\r' :: '\n' :: q)
    (carriage : s.getLast? ≠ some '\r') (h : (lineEnd (s ++ tail)).Accepts () r) :
    (∃ t, r = t ++ tail ∧ (lineEnd s).Accepts () t) ∨ Blanks s ∧ r = q := by
  have isBreak : IsBreak tail := ⟨q, joint⟩
  have carriage' := getLast?_ne_of_suffix (List.dropWhile_suffix isBlank) carriage
  change (skipBlanks s).getLast? ≠ _ at carriage'
  simp only [accepts_lineEnd_iff, blanks_iff_skipBlanks_eq_nil] at h ⊢
  rw [isBreak.skipBlanks_append] at h
  generalize skipBlanks s = v at h carriage' ⊢
  cases v with
  | nil =>
    refine .inr ⟨rfl, ?_⟩
    rcases joint with rfl | rfl
    · rcases h with h | h
      · exact (List.cons.inj h).2.symm
      · cases h
    · rcases h with h | h
      · cases h
      · exact (List.cons.inj (List.cons.inj h).2).2.symm
  | cons c t =>
    left
    rcases h with h | h
    · obtain ⟨rfl, rfl⟩ := List.cons.inj h
      exact ⟨t, rfl, .inl rfl⟩
    · obtain ⟨rfl, behind⟩ := List.cons.inj h
      cases t with
      | nil => exact absurd rfl carriage'
      | cons d t =>
        obtain ⟨rfl, rfl⟩ := List.cons.inj behind
        exact ⟨t, rfl, .inr rfl⟩

/-- A line ends behind its blanks and leaves an end of the text. -/
theorem suffix_of_lineEnd {u : Unit} (h : (lineEnd s).Accepts u r) : r <:+ s := by
  have skipped : skipBlanks s <:+ s := List.dropWhile_suffix _
  rcases accepts_lineEnd_iff.1 h with found | found
  · exact .trans (found ▸ List.suffix_cons '\n' r) skipped
  · exact .trans (found ▸ List.suffix_append ['\r', '\n'] r) skipped

/-- A statement leaves an end of the text. -/
theorem suffix_of_statement {st : Statement} (h : (statement (skipBlanks s)).Accepts st r) :
    r <:+ s :=
  ((OnLine.skipBlanks s).trans ((staysOnLine_statement _).rest h)).suffix

end Grammar

namespace Program

/-- **A program that is joined from two texts is joined from two programs.** -/
theorem Lines.split (joint : tail = '\n' :: q ∨ tail = '\r' :: '\n' :: q)
    (carriage : s.getLast? ≠ some '\r') (h : Lines (s ++ tail) P) :
    ∃ P₁ P₂, P = P₁ ++ P₂ ∧ Lines s P₁ ∧ Lines q P₂ := by
  have isBreak : IsBreak tail := ⟨q, joint⟩
  have not_blank (t : List Char) : ¬ Blanks (t ++ tail) := by
    rw [blanks_iff_skipBlanks_eq_nil, isBreak.skipBlanks_append, List.append_eq_nil_iff]
    rintro ⟨-, rfl⟩
    rcases joint with joint | joint
    · cases joint
    · cases joint
  generalize whole : s ++ tail = w at h
  induction h generalizing s with
  | blank blanks =>
    subst whole
    exact absurd blanks (not_blank s)
  | last first behind =>
    subst whole
    obtain ⟨r, rfl, -⟩ := (accepts_statement_in_front_iff isBreak).1 first
    exact absurd behind (not_blank r)
  | skip ends more ih =>
    subst whole
    rcases accepts_lineEnd_append joint carriage ends with ⟨t, rfl, ends'⟩ | ⟨blanks, rfl⟩
    · obtain ⟨P₁, P₂, rfl, lines, lines'⟩ :=
        ih (getLast?_ne_of_suffix (suffix_of_lineEnd ends') carriage) rfl
      exact ⟨P₁, P₂, rfl, .skip ends' lines, lines'⟩
    · exact ⟨[], _, rfl, .blank blanks, more⟩
  | @cons _ u t st P first ends more ih =>
    subst whole
    obtain ⟨r, rfl, first'⟩ := (accepts_statement_in_front_iff isBreak).1 first
    have carriage' := getLast?_ne_of_suffix (suffix_of_statement first') carriage
    rcases accepts_lineEnd_append joint carriage' ends with ⟨t, rfl, ends'⟩ | ⟨blanks, rfl⟩
    · obtain ⟨P₁, P₂, rfl, lines, lines'⟩ :=
        ih (getLast?_ne_of_suffix (suffix_of_lineEnd ends') carriage') rfl
      exact ⟨st :: P₁, P₂, rfl, .cons first' ends' lines, lines'⟩
    · exact ⟨[st], P, rfl, .last first' blanks, more⟩

/-- **A joined text is a program exactly if both texts are**, and then its statements are those of
the first text and behind them those of the second one. The first text must not end with a
carriage return, which would belong to the break. -/
theorem parse?_append_iff {p q newline : List Char} (carriage : p.getLast? ≠ some '\r')
    (isNewline : newline = ['\n'] ∨ newline = ['\r', '\n']) {P : Program} :
    parse? (p ++ newline ++ q) = .ok P ↔
      ∃ P₁ P₂, parse? p = .ok P₁ ∧ parse? q = .ok P₂ ∧ P = P₁ ++ P₂ := by
  have joint : newline ++ q = '\n' :: q ∨ newline ++ q = '\r' :: '\n' :: q := by
    rcases isNewline with rfl | rfl
    · exact .inl rfl
    · exact .inr rfl
  have isBreak : IsBreak (newline ++ q) := ⟨q, joint⟩
  have ends : (lineEnd (newline ++ q)).Accepts () q := by
    rw [accepts_lineEnd_iff, skipBlanks_of_stops (isBreak.stops rfl rfl)]
    exact joint
  simp only [parse?_eq_ok_iff_lines, List.append_assoc]
  constructor
  · intro lines
    obtain ⟨P₁, P₂, rfl, first, second⟩ := lines.split joint carriage
    exact ⟨P₁, P₂, first, second, rfl⟩
  · rintro ⟨P₁, P₂, first, second, rfl⟩
    exact first.append ends isBreak second

/-- An output and an empty line in front of a break with a carriage return, and a printed text
that holds one behind it. -/
theorem parse?_append_iff_carriage_return :
    let p := "out 1\r\n  ".toList
    let q := " print \"a\rb\"\n".toList
    p.getLast? ≠ some '\r' ∧ parse? p = .ok [.out (.number 1)] ∧
      parse? q = .ok [.print "a\rb"] ∧
      parse? (p ++ ['\r', '\n'] ++ q) = .ok [.out (.number 1), .print "a\rb"] := by
  intro p q
  have carriage : p.getLast? ≠ some '\r' := by decide
  have first : parse? p = .ok [.out (.number 1)] := by decide +kernel
  have second : parse? q = .ok [.print "a\rb"] := by decide +kernel
  exact ⟨carriage, first, second,
    (parse?_append_iff carriage (.inr rfl)).2 ⟨_, _, first, second, rfl⟩⟩

end Program

/-! ### Joined trouble -/

/-- Expectations are merged in any grouping. -/
theorem mergeExpected_assoc (a b c : List Expected) :
    mergeExpected (mergeExpected a b) c = mergeExpected a (mergeExpected b c) := by
  simp only [mergeExpected, List.filter_append, List.filter_filter, List.append_assoc]
  congr 2
  refine List.filter_congr fun e _ => ?_
  by_cases first : e ∈ a <;> by_cases second : e ∈ b <;> simp [first, second]

/-- Places of trouble are joined in any grouping. -/
theorem furthest_assoc (a b c : Option Trouble) :
    furthest (furthest a b) c = furthest a (furthest b c) := by
  have merged := mergeExpected_assoc
  cases a <;> cases b <;> cases c <;> grind [furthest]

/-- Trouble that lies further on than other trouble counts alone. -/
theorem furthest_of_left_lt {a : Option Trouble} {t : Trouble} (early : ∀ u ∈ a, t.left < u.left) :
    furthest a (some t) = some t := by
  cases a with
  | none => rfl
  | some u =>
    have less := early u rfl
    rw [furthest, if_neg less.not_gt, if_pos less]

/-- Joined trouble lies at least as far on as its first part. -/
theorem exists_furthest_some (t : Trouble) (b : Option Trouble) :
    ∃ u, furthest (some t) b = some u ∧ u.left ≤ t.left := by
  cases b with
  | none => exact ⟨t, rfl, le_rfl⟩
  | some v =>
    unfold furthest
    dsimp only
    split_ifs with less less'
    · exact ⟨t, rfl, le_rfl⟩
    · exact ⟨v, rfl, less'.le⟩
    · exact ⟨_, rfl, le_rfl⟩

/-! ### Places behind more text -/

/-- The bytes of two texts one after the other. -/
theorem byteLength_append (a b : List Char) :
    byteLength (a ++ b) = byteLength a + byteLength b := by
  induction a with
  | nil => exact (Nat.zero_add _).symm
  | cons c a ih => exact (congrArg (c.utf8Size + ·) ih).trans (Nat.add_assoc _ _ _).symm

/-- Behind a line break, columns are counted anew. -/
theorem columnAfter_append (a b : List Char) : columnAfter (a ++ '\n' :: b) = columnAfter b := by
  have stops : Stops (· != '\n') ('\n' :: a.reverse) := .cons rfl
  rw [columnAfter, columnAfter, List.reverse_append, List.reverse_cons, List.append_assoc,
    List.singleton_append, stops.takeWhile_eq]

/-- The error for trouble in the second of two texts, the first of which ends its line. -/
theorem ParseError.ofTrouble_append (p : List Char) {t : Trouble} (inside : t.left ≤ q.length) :
    ofTrouble (p ++ '\n' :: q) t = { ofTrouble q t with
      line := (ofTrouble q t).line + (p.count '\n' + 1)
      offset := (ofTrouble q t).offset + (byteLength p + 1) } := by
  have before : (p ++ '\n' :: q).take ((p ++ '\n' :: q).length - t.left) =
      p ++ '\n' :: q.take (q.length - t.left) := by
    have length : (p ++ '\n' :: q).length - t.left = p.length + ((q.length - t.left) + 1) := by
      rw [List.length_append, List.length_cons]
      omega
    rw [length, List.take_length_add_append, List.take_succ_cons]
  have lines : lineAfter (p ++ '\n' :: q.take (q.length - t.left)) =
      lineAfter (q.take (q.length - t.left)) + (p.count '\n' + 1) := by
    rw [lineAfter, lineAfter, List.count_append, List.count_cons_self]
    omega
  have bytes : byteLength (p ++ '\n' :: q.take (q.length - t.left)) =
      byteLength (q.take (q.length - t.left)) + (byteLength p + 1) := by
    have newline : byteLength ('\n' :: q.take (q.length - t.left)) =
        1 + byteLength (q.take (q.length - t.left)) := rfl
    rw [byteLength_append, newline]
    omega
  simp only [ofTrouble, before, lines, bytes, columnAfter_append]

/-! ### Behind a line break -/

namespace Grammar

variable {st : Statement} {t : List Char}

/-- A line that does not end is trouble at its start; one that ends is none. -/
theorem trouble_lineEnd (s : List Char) :
    ((lineEnd s).reading = none ∧ (lineEnd s).trouble = some ⟨s.length, [.newline]⟩) ∨
      ∃ r, (lineEnd s).Accepts () r ∧ (lineEnd s).trouble = none := by
  unfold lineEnd
  split
  · exact .inr ⟨_, Reply.accepts_accept.2 ⟨rfl, rfl⟩, rfl⟩
  · exact .inr ⟨_, Reply.accepts_accept.2 ⟨rfl, rfl⟩, rfl⟩
  · exact .inl ⟨rfl, rfl⟩

/-- Line ends are followed by trouble where the last one ends. -/
theorem trouble_lineEnds (s : List Char) :
    (lineEnds s).trouble = some ⟨(skipLineEnds s).1.length, [.newline]⟩ := by
  induction size : s.length using Nat.strong_induction_on generalizing s with
  | _ n ih =>
    subst size
    rcases trouble_lineEnd s with ⟨refused, met⟩ | ⟨r, accepted, silent⟩
    · rw [(skipLineEnds_of_none refused).2, lineEnds]
      split
      · next found => rwa [found] at met
      · next found =>
        rw [found] at refused
        cases refused
    · have behind := ih r.length accepted.shorter r rfl
      obtain ⟨shorter, first⟩ := id accepted
      rw [(skipLineEnds_of_accepts accepted).2, lineEnds]
      split
      · next found =>
        rw [found] at first
        cases first
      · next found =>
        rw [found] at first silent
        cases first
        cases silent
        split
        · next found' => rwa [found'] at behind
        · next found' => rwa [found'] at behind

theorem skipLineEnds_snd (s : List Char) :
    (skipLineEnds s).2 = some ⟨(skipLineEnds s).1.length, [.newline]⟩ := by
  rw [← trouble_lineEnds]
  unfold skipLineEnds
  split
  · next found => rw [found]
  · next found => rw [found]

/-- Two texts whose line ends are followed by the same are alike behind them. -/
theorem skipLineEnds_congr (h : (skipLineEnds s).1 = (skipLineEnds t).1) :
    skipLineEnds s = skipLineEnds t :=
  Prod.ext h (by rw [skipLineEnds_snd, skipLineEnds_snd, h])

/-- The trouble in front of a text and in the block behind its line ends. -/
def frontTrouble (s : List Char) : Option Trouble :=
  furthest (skipLineEnds s).2 (block (skipLineEnds s).1).trouble

/-- What is left behind the block of a text and the line ends that follow it, with the trouble
there. -/
def behindBlock (s : List Char) : List Char × Option Trouble :=
  skipLineEnds (block (skipLineEnds s).1).rest

/-- Two texts lead to the same trouble and to the same end. -/
structure SameAhead (s q : List Char) : Prop where
  front : frontTrouble s = frontTrouble q
  behind : behindBlock s = behindBlock q

/-- The trouble in front lies behind the line ends of the text or further on. -/
theorem exists_frontTrouble (s : List Char) :
    ∃ t, frontTrouble s = some t ∧ t.left ≤ s.length := by
  rw [frontTrouble, skipLineEnds_snd]
  obtain ⟨t, joined, left⟩ := exists_furthest_some
    ⟨(skipLineEnds s).1.length, [.newline]⟩ (block (skipLineEnds s).1).trouble
  exact ⟨t, joined, left.trans (lineEnd_skipLineEnds s).2⟩

namespace SameAhead

theorem refl (q : List Char) : SameAhead q q :=
  ⟨rfl, rfl⟩

/-- A line end in front changes nothing. -/
theorem of_lineEnd (ends : (lineEnd s).Accepts () r) (h : SameAhead r q) : SameAhead s q := by
  have same := skipLineEnds_congr (skipLineEnds_of_accepts ends).2
  refine ⟨?_, ?_⟩
  · rw [← h.front, frontTrouble, same, frontTrouble]
  · rw [← h.behind, behindBlock, same, behindBlock]

/-- A statement in front that has a line of its own changes nothing, if its trouble lies in front of
the second text. -/
theorem of_statement (first : (statement (skipBlanks s)).Accepts st r)
    (ends : (lineEnd r).Accepts () t) (longer : q.length < s.length)
    (early : ∀ u ∈ (statement (skipBlanks s)).trouble, q.length < u.left) (h : SameAhead r q) :
    SameAhead s q := by
  have lines := (skipLineEnds_of_accepts ends).1
  have same := (skipLineEnds_of_accepts ends).2
  rw [← same] at lines
  have alone : (skipLineEnds s).1 = s :=
    (skipLineEnds_of_none (lineEnd_eq_none_of_statement first)).2
  obtain ⟨y, hy, left⟩ := exists_frontTrouble q
  refine ⟨?_, ?_⟩
  · have ahead : furthest (lineEnds r).trouble (block (skipLineEnds r).1).trouble = some y := by
      rw [← hy, ← h.front, frontTrouble, skipLineEnds_snd, trouble_lineEnds]
    rw [frontTrouble, skipLineEnds_snd, alone, block_of_more first lines, furthest_assoc, ahead,
      furthest_of_left_lt fun u hu => left.trans_lt (early u hu), hy]
    exact furthest_of_left_lt fun u hu => by
      rw [← Option.some.inj hu]
      exact left.trans_lt longer
  · rw [← h.behind, behindBlock, alone, block_of_more first lines, behindBlock]
    dsimp only
    split_ifs with empty
    · rw [rest_of_statements_eq_nil empty]
      exact skipLineEnds_congr
        (skipLineEnds_of_none (lineEnd_skipLineEnds r).1).2.symm
    · rfl

end SameAhead

/-- The trouble of a statement in front of a line feed lies in front of it. -/
theorem lt_left_of_statement {q : List Char} {u : Trouble}
    (h : u ∈ (statement (skipBlanks (s ++ '\n' :: q))).trouble) : q.length < u.left := by
  obtain ⟨r, reached, left⟩ := (staysOnLine_statement _).trouble u h
  obtain ⟨v, rfl, -⟩ := OnLine.exists_append (s := s) (.trans (.skipBlanks _) reached)
  rw [left, List.length_append, List.length_cons]
  omega

end Grammar

namespace Program

/-- **A program in front of a line feed changes nothing of what is met behind it.** -/
theorem Lines.sameAhead (q : List Char) (h : Lines s P) : SameAhead (s ++ '\n' :: q) q := by
  have isBreak : IsBreak ('\n' :: q) := ⟨q, .inl rfl⟩
  have longer (t : List Char) : q.length < (t ++ '\n' :: q).length := by
    rw [List.length_append, List.length_cons]
    omega
  have seam {b : List Char} (blanks : Blanks b) : (lineEnd (b ++ '\n' :: q)).Accepts () q := by
    refine accepts_lineEnd_of_blanks isBreak ?_ blanks
    rw [accepts_lineEnd_iff, skipBlanks_of_stops (isBreak.stops rfl rfl)]
    exact .inl rfl
  have statements {t u : List Char} {st : Statement}
      (first : (statement (skipBlanks t)).Accepts st u) :
      (statement (skipBlanks (t ++ '\n' :: q))).Accepts st (u ++ '\n' :: q) :=
    (accepts_statement_in_front_iff isBreak).2 ⟨u, rfl, first⟩
  induction h with
  | blank blanks => exact .of_lineEnd (seam blanks) (.refl q)
  | last first behind =>
    exact .of_statement (statements first) (seam behind) (longer _)
      (fun _ => lt_left_of_statement) (.of_lineEnd (seam behind) (.refl q))
  | skip ends _ ih => exact .of_lineEnd (accepts_lineEnd_in_front isBreak ends) ih
  | cons first ends _ ih =>
    have extended := accepts_lineEnd_in_front isBreak ends
    exact .of_statement (statements first) extended (longer _)
      (fun _ => lt_left_of_statement) (.of_lineEnd extended ih)

/-- The whole of reading a program, by what is met in front and behind. -/
theorem parse?_eq (s : List Char) :
    parse? s = finishReading s (block (skipLineEnds s).1).statements
      (skipFinalBlanks (behindBlock s).1) (furthest (frontTrouble s) (behindBlock s).2) :=
  rfl

/-- **Errors are local to their line.** Behind a program and a line feed, a text that is no program
fails as it does alone, for the same rule, with the same message and in the same column. The place
is moved by the lines of the program and by its bytes. -/
theorem parse?_append_error {p q : List Char} {P : Program} {e : ParseError}
    (parsed : parse? p = .ok P) (failed : parse? q = .error e) :
    parse? (p ++ '\n' :: q) = .error { e with
      line := e.line + (p.count '\n' + 1)
      offset := e.offset + (byteLength p + 1) } := by
  have ahead := (parse?_eq_ok_iff_lines.1 parsed).sameAhead q
  rw [parse?_eq] at failed ⊢
  rw [ahead.front, ahead.behind]
  obtain ⟨t, front, inside⟩ := exists_frontTrouble q
  rw [front] at failed ⊢
  cases rest : skipFinalBlanks (behindBlock q).1 with
  | nil =>
    rw [rest] at failed
    cases failed
  | cons c cs =>
    rw [rest] at failed
    obtain ⟨u, joined, left⟩ := exists_furthest_some t (behindBlock q).2
    obtain ⟨v, met, left'⟩ := exists_furthest_some u (some ⟨(c :: cs).length, [.endOfInput]⟩)
    simp only [finishReading, joined, met, Option.getD_some, Except.error.injEq] at failed ⊢
    rw [← failed]
    exact ParseError.ofTrouble_append p ((left'.trans left).trans inside)

/-- A closing parenthesis too many in the third line, behind a printed text with a character of two
bytes and an empty line. -/
theorem parse?_append_error_third_line :
    let p := "print \"ä\"\n".toList
    let q := "var y = 1)".toList
    let e : ParseError :=
      ⟨1, 10, 9, "end_of_input", "Expected end of input, but still had input remaining"⟩
    parse? p = .ok [.print "ä"] ∧ parse? q = .error e ∧
      parse? (p ++ '\n' :: q) = .error { e with line := 3, offset := 21 } := by
  intro p q e
  have parsed : parse? p = .ok [.print "ä"] := by decide +kernel
  have failed : parse? q = .error e := by decide +kernel
  exact ⟨parsed, failed, parse?_append_error parsed failed⟩

end Program

end RatCalc
