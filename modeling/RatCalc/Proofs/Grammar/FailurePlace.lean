import Mathlib
import RatCalc.Proofs.Grammar.Joining
import RatCalc.Proofs.Grammar.Keywords
import RatCalc.Proofs.Grammar.Viability

/-!
# Errors do not accuse correct text

When a text is no program, the text in front of the reported place is the front of a program. If
the error is that the text should have ended there, it is a program. The lines above the place have
been read one by one, and each of them may stand in front of every program. On the last line some
form of statement can be completed, though not always the one that is tried first, and what another
form made of the line does not matter for that.

## Main definitions

* `Grammar.statements`, `Grammar.programs`: the texts of lines that hold a statement, and of
  programs.
* `Grammar.Complete`: a text that may stand in front of every program.
* `ParseError.Behind`: the place of an error lies behind a text.

## Main results

* `Grammar.reads_statement`: trouble in a statement is met inside a statement.
* `Grammar.metInside_block`: trouble in a block is met inside a program.
* `Program.parse?_error_place`: the place of an error.
-/

namespace RatCalc

namespace Grammar

open Reply (Reads)

variable {s t r : List Char} {st : Statement} {e : Expression}

/-! ### Statements -/

/-- The texts that hold one statement and blanks around it. -/
def statements : Language Char :=
  {text | ∃ st r, (statement (skipBlanks text)).Accepts st r ∧ Blanks r}

/-- An expression is read between blanks. -/
theorem exists_accepts_of_mem {text : List Char} (h : text ∈ gap * (expressions 0 * gap)) :
    ∃ e r, (expression 0 (skipBlanks text)).Accepts e r ∧ Blanks r := by
  obtain ⟨b, blanks, _, ⟨t, ⟨l, e, -, derived⟩, r, blanks', rfl⟩, rfl⟩ := h
  have read := Reaches.accepts derived.reaches blanks' Ends.nil
  have skipped := skipBlanks_append blanks (derived.solid.append r).stops
  rw [List.append_nil, ← skipped] at read
  exact ⟨e, r, read, blanks'⟩

theorem reads_varStatement (s : List Char) : (varStatement s).Reads statements := by
  have symbol := reads_token
  refine Reads.mono (.bind (symbol _ _) fun _ _ _ => .andThen (reads_whitespace _) fun _ _ _ =>
    .andThen (reads_identifier _) fun _ _ _ => .andThen (symbol _ _) fun _ r _ =>
      (reads_expression r (Nat.zero_le _)).map) fun text mem => ?_
  obtain ⟨_, rfl, _, ⟨b, ⟨some, blanks⟩, _, ⟨b₁, blanks₁, _, ⟨_, ⟨name, rfl, isName⟩, _,
    ⟨b₂, blanks₂, _, ⟨_, rfl, t, mem, rfl⟩, rfl⟩, rfl⟩, rfl⟩, rfl⟩, rfl⟩ := mem
  obtain ⟨e, r, read, blanks'⟩ := exists_accepts_of_mem mem
  have solid := (isName.solid.append (b₂ ++ (Token.equals.chars ++ t))).stops
  have named : (identifier (name.toList ++ (b₂ ++ (Token.equals.chars ++ t)))).Accepts name
      (b₂ ++ (Token.equals.chars ++ t)) :=
    accepts_identifier.2 ⟨isName, .blanks_append blanks₂ isNameRest_of_isBlank (.cons rfl), rfl⟩
  have equals : skipBlanks (b₂ ++ (Token.equals.chars ++ t)) = ['='] ++ t :=
    skipBlanks_append blanks₂ (.cons rfl)
  rw [← skipBlanks_of_stops solid] at named
  have accepted := accepts_varStatement.2 ⟨b ++ b₁, _, name, _, t, e, by simp [some],
    blanks.append blanks₁, solid, rfl, named, equals, read, rfl⟩
  refine ⟨.var name e, r, ?_, blanks'⟩
  rw [List.append_assoc] at accepted
  exact accepts_orElse_of_accepts accepted

theorem reads_outStatement (s : List Char) : (outStatement s).Reads statements := by
  refine Reads.mono (.bind (reads_token _ _) fun _ _ _ => .andThen (reads_whitespace _)
    fun _ r _ => (reads_expression r (Nat.zero_le _)).map) fun text mem => ?_
  obtain ⟨_, rfl, _, ⟨b, ⟨some, blanks⟩, t, mem, rfl⟩, rfl⟩ := mem
  obtain ⟨e, r, read, blanks'⟩ := exists_accepts_of_mem mem
  obtain ⟨b₁, blanks₁, split⟩ := exists_blanks_append_skipBlanks t
  have solid : Stops isBlank (skipBlanks t) := .dropWhile _ _
  rw [← skipBlanks_of_stops solid] at read
  have accepted := accepts_outStatement.2 ⟨b ++ b₁, skipBlanks t, e, by simp [some],
    blanks.append blanks₁, solid, rfl, read, rfl⟩
  rw [List.append_assoc b, ← split] at accepted
  exact ⟨.out e, r, accepts_orElse_of_none (bind_eq_none (token_eq_none rfl (by decide)))
    (accepts_orElse_of_accepts accepted), blanks'⟩

/-- The texts that go on in a printed text up to the quote that closes it. -/
def printedTexts : Language Char :=
  {text | ∃ run, (∀ c ∈ run, isPrintable c = true) ∧ text = run ++ ['"']}

instance : Populated printedTexts :=
  ⟨['"'], [], by simp, rfl⟩

theorem reads_printedText (s : List Char) : (printedText s).Reads printedTexts := by
  have split : s = s.takeWhile isPrintable ++ s.dropWhile isPrintable :=
    List.takeWhile_append_dropWhile.symm
  have inside : ∀ c ∈ s.takeWhile isPrintable, isPrintable c = true :=
    fun c => List.mem_takeWhile_imp
  have viable : Viable printedTexts (s.takeWhile isPrintable) := ⟨['"'], _, inside, rfl⟩
  constructor
  · intro text r accepted
    have quote := (accepts_printedText_iff.1 accepted).1
    refine ⟨s.takeWhile isPrintable ++ ['"'], ⟨_, inside, rfl⟩, ?_⟩
    rw [List.append_assoc, List.singleton_append, ← quote, ← split]
  · unfold printedText
    dsimp only
    split
    · exact .some split viable (by simp)
    · exact .some split viable (by simp)

theorem reads_printStatement (s : List Char) : (printStatement s).Reads statements := by
  refine Reads.mono (.andThen (reads_token _ _) fun _ _ _ => .bind (reads_token _ _)
    fun _ r _ => (reads_printedText r).map) fun text mem => ?_
  obtain ⟨_, rfl, _, ⟨b, blanks, _, ⟨_, rfl, _, ⟨run, inside, rfl⟩, rfl⟩, rfl⟩, rfl⟩ := mem
  have quote : skipBlanks (b ++ (Token.quote.chars ++ (run ++ ['"']))) = ['"'] ++ (run ++ ['"']) :=
    skipBlanks_append blanks (.cons rfl)
  have stops : Stops isPrintable ['"'] := .cons rfl
  have closed : (printedText (run ++ ['"'])).Accepts (String.ofList run) [] := by
    rw [accepts_printedText_iff, stops.dropWhile_append inside, stops.takeWhile_append inside]
    exact ⟨rfl, rfl⟩
  have accepted := accepts_printStatement.2 ⟨_, _, _, rfl, quote, closed, rfl⟩
  exact ⟨.print (String.ofList run), [],
    accepts_orElse_of_none (bind_eq_none (token_eq_none rfl (by decide)))
      (accepts_orElse_of_none (bind_eq_none (token_eq_none rfl (by decide)))
        (accepts_orElse_of_accepts accepted)), .nil⟩

/-- **Trouble in a statement is met inside a statement**, though maybe of another form. -/
theorem reads_statement (s : List Char) : (statement s).Reads statements := by
  refine .orElse (reads_varStatement s) (.orElse (reads_outStatement s)
    (.orElse (reads_printStatement s) ((reads_expression s (Nat.zero_le _)).map.mono ?_)))
  intro text mem
  obtain ⟨e, r, read, blanks⟩ := exists_accepts_of_mem ⟨[], Blanks.nil, text, mem, rfl⟩
  obtain ⟨expression, output⟩ := accepts_statement_of_expression read blanks
  by_cases negative : OutputOfNegative (skipBlanks text)
  · obtain ⟨e', accepted⟩ := output negative
    exact ⟨.out e', r, accepted, blanks⟩
  · exact ⟨.expression e, r, expression negative, blanks⟩

/-! ### Complete lines -/

/-- The texts of programs. -/
def programs : Language Char :=
  {text | ∃ P, Program.Lines text P}

theorem nil_mem_programs : [] ∈ programs :=
  ⟨[], .blank .nil⟩

/-- A statement is a program, with blanks in front as well. -/
theorem append_mem_programs {b text : List Char} (blanks : Blanks b) (h : text ∈ statements) :
    b ++ text ∈ programs := by
  obtain ⟨st, r, accepted, behind⟩ := h
  refine ⟨[st], .last ?_ behind⟩
  rwa [skipBlanks, List.dropWhile_append_of_pos blanks]

theorem newline_append {newline : List Char}
    (isNewline : newline = ['\n'] ∨ newline = ['\r', '\n']) (s : List Char) :
    newline ++ s = '\n' :: s ∨ newline ++ s = '\r' :: '\n' :: s := by
  rcases isNewline with rfl | rfl
  · exact .inl rfl
  · exact .inr rfl

/-- A text that may stand in front of every program. -/
def Complete (above : List Char) : Prop :=
  ∀ text ∈ programs, above ++ text ∈ programs

namespace Complete

variable {above above' : List Char} {P : Program}

theorem nil : Complete [] :=
  fun _ mem => mem

theorem append (h : Complete above) (h' : Complete above') : Complete (above ++ above') := by
  intro text mem
  rw [List.append_assoc]
  exact h _ (h' text mem)

/-- A text that may stand in front of every program stands in front of the empty one. -/
theorem mem_programs (h : Complete above) : above ∈ programs := by
  have mem := h [] nil_mem_programs
  rwa [List.append_nil] at mem

/-- Behind a program, the line has to end. -/
theorem of_lines {newline : List Char} (isNewline : newline = ['\n'] ∨ newline = ['\r', '\n'])
    (lines : Program.Lines above P) : Complete (above ++ newline) := by
  rintro text ⟨Q, more⟩
  have joint := newline_append isNewline text
  have isBreak : IsBreak (newline ++ text) := ⟨text, joint⟩
  have ends : (lineEnd (newline ++ text)).Accepts () text := by
    rw [accepts_lineEnd_iff, skipBlanks_of_stops (isBreak.stops rfl rfl)]
    exact joint
  rw [List.append_assoc]
  exact ⟨P ++ Q, lines.append ends isBreak more⟩

end Complete

/-- A line end is a newline behind blanks. -/
theorem exists_newline_of_accepts {u : Unit} (h : (lineEnd s).Accepts u r) :
    ∃ b newline, Blanks b ∧ (newline = ['\n'] ∨ newline = ['\r', '\n']) ∧
      s = b ++ newline ++ r := by
  obtain ⟨b, blanks, split⟩ := exists_blanks_append_skipBlanks s
  rcases accepts_lineEnd_iff.1 h with found | found
  · exact ⟨b, _, blanks, .inl rfl, by rw [split, found]; simp⟩
  · exact ⟨b, _, blanks, .inr rfl, by rw [split, found]; simp⟩

theorem exists_complete_of_lineEnd (h : (lineEnd s).Accepts () r) :
    ∃ above, Complete above ∧ s = above ++ r := by
  obtain ⟨b, newline, blanks, isNewline, split⟩ := exists_newline_of_accepts h
  exact ⟨b ++ newline, .of_lines isNewline (.blank blanks), split⟩

theorem exists_complete_of_skipLineEnds (s : List Char) :
    ∃ above, Complete above ∧ s = above ++ (skipLineEnds s).1 := by
  induction size : s.length using Nat.strong_induction_on generalizing s with
  | _ n ih =>
    subst size
    by_cases refused : (lineEnd s).reading = none
    · exact ⟨[], .nil, by rw [(skipLineEnds_of_none refused).2, List.nil_append]⟩
    · obtain ⟨⟨⟩, r, accepted⟩ := exists_accepts refused
      obtain ⟨above, complete, split⟩ := exists_complete_of_lineEnd accepted
      obtain ⟨above', complete', split'⟩ := ih r.length accepted.shorter r rfl
      refine ⟨above ++ above', complete.append complete', ?_⟩
      rw [(skipLineEnds_of_accepts accepted).2, List.append_assoc, ← split', ← split]

/-- A statement that has a line of its own. -/
theorem exists_complete_of_statement (first : (statement (skipBlanks s)).Accepts st r)
    (ends : (lineEnd r).Accepts () t) : ∃ above, Complete above ∧ s = above ++ t := by
  obtain ⟨b, newline, blanks, isNewline, rfl⟩ := exists_newline_of_accepts ends
  obtain ⟨u, rfl⟩ := suffix_of_statement first
  have isBreak : IsBreak (newline ++ t) := ⟨t, newline_append isNewline t⟩
  have line : (statement (skipBlanks (u ++ b))).Accepts st b := by
    rw [List.append_assoc, ← List.append_assoc u] at first
    obtain ⟨v, cut, accepted⟩ := (accepts_statement_in_front_iff isBreak).1 first
    obtain rfl := List.append_cancel_right cut
    exact accepted
  exact ⟨u ++ b ++ newline, .of_lines isNewline (.last line blanks), by simp⟩

/-- A statement that has a line of its own, with the empty lines behind it. -/
theorem exists_complete_behind (first : (statement (skipBlanks s)).Accepts st r)
    (ends : (lineEnd r).Accepts () t) :
    ∃ above, Complete above ∧ s = above ++ (skipLineEnds t).1 := by
  obtain ⟨above, complete, split⟩ := exists_complete_of_statement first ends
  obtain ⟨above', complete', split'⟩ := exists_complete_of_skipLineEnds t
  exact ⟨above ++ above', complete.append complete', by rw [List.append_assoc, ← split', ← split]⟩

/-- The text of a statement, with the blanks in front of it. -/
theorem exists_mem_programs_of_statement (first : (statement (skipBlanks s)).Accepts st r) :
    ∃ front ∈ programs, s = front ++ r := by
  obtain ⟨b, blanks, split⟩ := exists_blanks_append_skipBlanks s
  obtain ⟨text, mem, split'⟩ := (reads_statement _).rest first
  exact ⟨b ++ text, append_mem_programs blanks mem, by rw [List.append_assoc, ← split', ← split]⟩

/-! ### Blocks -/

theorem metInside_statement (s : List Char) :
    MetInside programs s (statement (skipBlanks s)).trouble := by
  obtain ⟨b, blanks, split⟩ := exists_blanks_append_skipBlanks s
  exact (reads_statement _).trouble.behind split fun _ => append_mem_programs blanks

/-- Behind line ends that follow a program, one more line end would be read. -/
theorem metInside_lineEnds {front : List Char} (mem : front ∈ programs)
    (split : s = front ++ (skipLineEnds r).1) : MetInside programs s (lineEnds r).trouble := by
  rw [trouble_lineEnds]
  exact .some split (.of_mem mem) (by simp)

/-- **Trouble in a block is met inside a program**, and the block and the line ends behind it are
one. -/
theorem metInside_block (s : List Char) : MetInside programs s (block s).trouble ∧
    ∃ front ∈ programs, s = front ++ (skipLineEnds (block s).rest).1 := by
  induction size : s.length using Nat.strong_induction_on generalizing s with
  | _ n ih =>
    subst size
    have here := metInside_statement s
    by_cases refused : (statement (skipBlanks s)).reading = none
    · obtain ⟨above, complete, split⟩ := exists_complete_of_skipLineEnds s
      rw [block_of_none refused]
      exact ⟨here, above, complete.mem_programs, split⟩
    · obtain ⟨st, r, first⟩ := exists_accepts refused
      by_cases last : (lineEnd r).reading = none
      · obtain ⟨refused', same⟩ := skipLineEnds_of_none last
        obtain ⟨front, mem, split⟩ := exists_mem_programs_of_statement first
        rw [block_of_last first refused']
        rw [← same] at split
        exact ⟨here.furthest (metInside_lineEnds mem split), front, mem, split⟩
      · obtain ⟨⟨⟩, t, ends⟩ := exists_accepts last
        obtain ⟨lines, same⟩ := skipLineEnds_of_accepts ends
        obtain ⟨above, complete, split⟩ := exists_complete_behind first ends
        have shorter : (skipLineEnds t).1.length < s.length :=
          calc (skipLineEnds t).1.length ≤ t.length := (lineEnd_skipLineEnds t).2
            _ < r.length := ends.shorter
            _ < (skipBlanks s).length := first.shorter
            _ ≤ s.length := length_skipBlanks_le s
        obtain ⟨met, front, mem, split'⟩ := ih _ shorter _ rfl
        have between := metInside_lineEnds complete.mem_programs (same ▸ split)
        rw [block_of_more first lines]
        refine ⟨(here.furthest between).furthest (met.behind split complete), ?_⟩
        dsimp only
        split_ifs with empty
        · -- The block behind the line ends is empty, and they are left to be skipped again.
          exact ⟨above, complete.mem_programs, same ▸ split⟩
        · exact ⟨above ++ front, complete _ mem, by rw [List.append_assoc, ← split', ← split]⟩

/-- Trouble in a whole text is met inside a program, and all that is read is one. -/
theorem metInside_program (s : List Char) :
    MetInside programs s (furthest (frontTrouble s) (behindBlock s).2) ∧
      ∃ front ∈ programs, s = front ++ (behindBlock s).1 := by
  obtain ⟨above, complete, split⟩ := exists_complete_of_skipLineEnds s
  obtain ⟨met, front, mem, split'⟩ := metInside_block (skipLineEnds s).1
  have whole : s = above ++ front ++ (behindBlock s).1 := by
    rw [List.append_assoc, behindBlock, ← split', ← split]
  have mem' := complete front mem
  refine ⟨.furthest (.furthest ?_ (met.behind split complete)) ?_, above ++ front, mem', whole⟩
  · rw [skipLineEnds_snd]
    exact .some split (.of_mem complete.mem_programs) (by simp)
  · rw [behindBlock, skipLineEnds_snd]
    exact .some whole (.of_mem mem') (by simp)

end Grammar

/-! ### The place of an error -/

/-- Every rule that an error is filed under, but for unread input, is named otherwise. -/
theorem Trouble.endOfInput_mem {t : Trouble} (h : t.rule = "end_of_input") :
    .endOfInput ∈ t.expected := by
  by_contra other
  rw [rule, if_neg other] at h
  split at h
  · next label single =>
    subst h
    have mem : "end_of_input" ∈ t.labels := by
      rw [single]
      exact List.mem_singleton_self _
    rw [labels, List.mem_mergeSort, List.mem_eraseDups, List.mem_map] at mem
    obtain ⟨e, -, label⟩ := mem
    have letters := congrArg String.toList label
    cases e with
    | token t =>
      rw [Expected.label, String.toList_ofList, quoted] at letters
      cases letters
    | _ => exact absurd letters (by decide)
  · exact absurd h (by decide)

/-- The place of an error lies behind a text: its offset is the length of the text in bytes, its
line is the number of the line in which the text ends, and its column is the number of the
character that would follow in this line. -/
structure ParseError.Behind (e : ParseError) (front : List Char) : Prop where
  offset : e.offset = byteLength front
  line : e.line = front.count '\n' + 1
  column : ∃ above line, front = above ++ line ∧ (above = [] ∨ ∃ lines, above = lines ++ ['\n']) ∧
    '\n' ∉ line ∧ e.column = line.length + 1

/-- The error for a trouble has its place. -/
theorem ParseError.behind_ofTrouble {s front r : List Char} {t : Trouble} (split : s = front ++ r)
    (left : t.left = r.length) : (ofTrouble s t).Behind front := by
  have before : s.take (s.length - t.left) = front := by
    rw [split, left, List.length_append, Nat.add_sub_cancel_right, List.take_left]
  rw [ofTrouble, before]
  refine ⟨rfl, rfl, front.rdropWhile (· != '\n'), front.rtakeWhile (· != '\n'),
    List.rdropWhile_append_rtakeWhile.symm, ?_, ?_, ?_⟩
  · by_cases empty : front.rdropWhile (· != '\n') = []
    · exact .inl empty
    · have stops := List.rdropWhile_last_not (· != '\n') front empty
      rw [bne_iff_ne, not_not] at stops
      exact .inr ⟨_, stops ▸ (List.dropLast_append_getLast empty).symm⟩
  · intro mem
    exact absurd (List.mem_rtakeWhile_imp mem) (by decide)
  · rw [List.rtakeWhile, List.length_reverse]
    rfl

/-- Trouble that is joined with trouble at hand is trouble. -/
theorem getD_mem_furthest (a : Option Trouble) (t : Trouble) :
    (furthest a (some t)).getD t ∈ furthest a (some t) := by
  cases a with
  | none => rfl
  | some first =>
    obtain ⟨u, joined, -⟩ := exists_furthest_some first (some t)
    rw [joined]
    rfl

/-- Unread input behind a text of the language is trouble behind the front of one, too. If it lies
furthest, all the text in front of it is in the language. -/
theorem MetInside.unread {L : Language Char} {s front r : List Char} {a : Option Trouble}
    (h : MetInside L s a) (mem : front ∈ L) (split : s = front ++ r) {t : Trouble}
    (ht : t ∈ RatCalc.furthest a (.some ⟨r.length, [.endOfInput]⟩)) :
    ∃ front' r', s = front' ++ r' ∧ t.left = r'.length ∧ Viable L front' ∧
      (.endOfInput ∈ t.expected → front' ∈ L) := by
  by_cases ends : .endOfInput ∈ t.expected
  · rcases expected_furthest ht ends with ⟨u, hu, -, mem'⟩ | ⟨u, hu, same, -⟩
    · exact absurd mem' (h u hu).1
    · obtain rfl := Option.some.inj hu
      exact ⟨front, r, split, same.symm, .of_mem mem, fun _ => mem⟩
  · rcases left_furthest ht with ⟨u, hu, same⟩ | ⟨u, hu, same⟩
    · obtain ⟨-, front', r', split', left, viable⟩ := h u hu
      exact ⟨front', r', split', same ▸ left, viable, fun ends' => absurd ends' ends⟩
    · obtain rfl := Option.some.inj hu
      exact ⟨front, r, split, same.symm, .of_mem mem, fun _ => mem⟩

namespace Program

open Grammar

variable {s : List Char} {e : ParseError}

/-- **An error does not accuse correct text.** The place of the error lies inside the text, behind
some front of it. This front goes on to a program in some way, and if it is reported that the text
should have ended there, the front is a program itself. -/
theorem parse?_error_place (h : parse? s = .error e) :
    ∃ front rest, s = front ++ rest ∧ byteLength front ≤ byteLength s ∧ e.Behind front ∧
      (∃ more P, parse? (front ++ more) = .ok P) ∧
        (e.rule = "end_of_input" → ∃ P, parse? front = .ok P) := by
  obtain ⟨met, body, mem, split⟩ := metInside_program s
  rw [parse?_eq] at h
  cases unread : skipFinalBlanks (behindBlock s).1 with
  | nil =>
    rw [unread] at h
    cases h
  | cons c cs =>
    have stop : (behindBlock s).1 = c :: cs := by
      unfold skipFinalBlanks at unread
      split_ifs at unread
      exact unread
    rw [unread] at h
    rw [stop] at split
    obtain ⟨front, rest, split', left, ⟨more, P, lines⟩, complete⟩ :=
      met.unread mem split (getD_mem_furthest _ _)
    have place := ParseError.behind_ofTrouble split' left
    rw [Except.error.inj h] at place
    refine ⟨front, rest, split', ?_, place, ⟨more, P, parse?_eq_ok_iff_lines.2 lines⟩, ?_⟩
    · rw [split', byteLength_append]
      exact Nat.le_add_right _ _
    · intro rule
      rw [← Except.error.inj h] at rule
      obtain ⟨P, lines⟩ := complete (Trouble.endOfInput_mem rule)
      exact ⟨P, parse?_eq_ok_iff_lines.2 lines⟩

/-- A closing parenthesis too many, in the second line and behind a character of two bytes. What
stands in front of it is a program. -/
theorem parse?_error_place_parenthesis :
    let s := "print \"ä\"\nvar y = 1)".toList
    let e : ParseError :=
      ⟨2, 10, 20, "end_of_input", "Expected end of input, but still had input remaining"⟩
    parse? s = .error e ∧ ∃ front rest, s = front ++ rest ∧ byteLength front ≤ byteLength s ∧
      e.Behind front ∧ (∃ more P, parse? (front ++ more) = .ok P) ∧ ∃ P, parse? front = .ok P := by
  intro s e
  have failed : parse? s = .error e := by decide +kernel
  obtain ⟨front, rest, split, within, place, viable, complete⟩ := parse?_error_place failed
  exact ⟨failed, front, rest, split, within, place, viable, complete rfl⟩

end Program

end RatCalc
