import Mathlib
import RatCalc.Report
import RatCalc.Text.Width
import RatCalc.Proofs.Grammar.Joining

/-!
# Where the caret of a report stands

An error tells its place as a line, a column in characters and an offset in bytes. The report
looks the line up by its number and cuts it by the column, and it places the caret by display
width behind expanded tabs. All of this agrees with the offset: the line that is shown is the one
around the offset, and the caret stands below the first character that is not in front of it.

## Main definitions

* `takeBytes`, `dropBytes`: a text cut at a byte offset.
* `lineFront`, `lineAround`, `lineBefore`: the line around a byte offset, and the part of it in
  front of the offset.

## Main results

* `lineAt_count`: the line with the number of a place is the line around it.
* `ParseError.offset_ofTrouble`, `ParseError.line_ofTrouble`, `ParseError.column_ofTrouble`: the
  three ways to tell the place of an error agree.
* `ParseError.reportOn_parse?_error`: the report of an error in a program.
-/

namespace RatCalc

variable {source line front back rest : List Char} {e : ParseError}

/-! ### Texts cut at a byte offset -/

/-- The characters of a text that lie in front of a byte offset. -/
def takeBytes : ℕ → List Char → List Char
  | _, [] => []
  | offset, c :: rest =>
    if c.utf8Size ≤ offset then c :: takeBytes (offset - c.utf8Size) rest else []

/-- The text from a byte offset on. -/
def dropBytes (offset : ℕ) (text : List Char) : List Char :=
  text.drop (takeBytes offset text).length

theorem takeBytes_append (front rest : List Char) :
    takeBytes (byteLength front) (front ++ rest) = front := by
  induction front with
  | nil =>
    cases rest with
    | nil => rfl
    | cons c rest => exact if_neg c.utf8Size_pos.not_ge
  | cons c front ih =>
    have size : byteLength (c :: front) = c.utf8Size + byteLength front := rfl
    rw [List.cons_append, takeBytes, size, if_pos (Nat.le_add_right _ _), Nat.add_sub_cancel_left,
      ih]

/-- A text is in front of every offset behind its end. -/
theorem takeBytes_of_le {offset : ℕ} (h : byteLength line ≤ offset) :
    takeBytes offset line = line := by
  induction line generalizing offset with
  | nil => rfl
  | cons c line ih =>
    have size : c.utf8Size + byteLength line ≤ offset := h
    rw [takeBytes, if_pos (by omega), ih (by omega)]

theorem takeBytes_isPrefix (offset : ℕ) (text : List Char) : takeBytes offset text <+: text := by
  induction text generalizing offset with
  | nil => exact List.prefix_rfl
  | cons c text ih =>
    rw [takeBytes]
    split_ifs
    · exact List.prefix_cons_inj c |>.2 (ih _)
    · exact List.nil_prefix

theorem takeBytes_append_dropBytes (offset : ℕ) (text : List Char) :
    takeBytes offset text ++ dropBytes offset text = text :=
  List.prefix_iff_eq_append.1 (takeBytes_isPrefix offset text)

/-- Whether the start of a line is measured in characters or in bytes does not matter. -/
theorem take_eq_takeBytes (h : line <+: front ++ back) :
    line.take front.length = takeBytes (byteLength front) line := by
  rcases List.prefix_or_prefix_of_prefix (List.prefix_append front back) h with
    ⟨behind, rfl⟩ | ⟨cut, rfl⟩
  · rw [List.take_left, takeBytes_append]
  · rw [List.take_of_length_le (by simp), takeBytes_of_le]
    rw [byteLength_append]
    exact Nat.le_add_right _ _

/-! ### The line around an offset -/

/-- The text between the last newline in front of an offset and the offset. -/
def lineFront (source : List Char) (offset : ℕ) : List Char :=
  (takeBytes offset source).rtakeWhile (· != '\n')

/-- The text between the last newline in front of an offset and the next one at or behind it, less
one carriage return at its end. -/
def lineAround (source : List Char) (offset : ℕ) : List Char :=
  dropCarriageReturn (lineFront source offset ++ (dropBytes offset source).takeWhile (· != '\n'))

/-- The part of the line around an offset that is in front of the offset. It is the whole line if
the offset lies behind it. -/
def lineBefore (source : List Char) (offset : ℕ) : List Char :=
  takeBytes (byteLength (lineFront source offset)) (lineAround source offset)

theorem dropCarriageReturn_isPrefix (line : List Char) : dropCarriageReturn line <+: line := by
  unfold dropCarriageReturn
  split_ifs
  · exact List.dropLast_prefix line
  · exact List.prefix_rfl

theorem lineAt_succ_newline (n : ℕ) (s : List Char) : lineAt (n + 1) ('\n' :: s) = lineAt n s :=
  rfl

theorem lineAt_succ_of_ne {c : Char} (h : c ≠ '\n') (n : ℕ) (s : List Char) :
    lineAt (n + 1) (c :: s) = lineAt (n + 1) s := by
  rw [lineAt, lineAt, List.dropWhile_cons_of_pos (by simpa using h)]

/-- The line behind a newline is the first line of what follows. -/
theorem lineAt_behind (above rest : List Char) :
    lineAt (above.count '\n' + 1) (above ++ '\n' :: rest) = lineAt 0 rest := by
  induction above with
  | nil => rfl
  | cons c above ih =>
    rw [List.cons_append]
    by_cases newline : c = '\n'
    · rw [newline, List.count_cons_self, lineAt_succ_newline, ih]
    · rw [List.count_cons_of_ne newline, lineAt_succ_of_ne newline, ih]

/-- **The line with the number of a place is the line around it.** The induction is on the text in
front of the place, from its end. -/
theorem lineAt_count (front rest : List Char) :
    lineAt (front.count '\n') (front ++ rest) =
      front.rtakeWhile (· != '\n') ++ rest.takeWhile (· != '\n') := by
  induction front using List.reverseRecOn generalizing rest with
  | nil => rfl
  | append_singleton front c ih =>
    rw [List.append_assoc, List.singleton_append, List.count_append]
    by_cases newline : c = '\n'
    · subst newline
      rw [List.rtakeWhile_concat, if_neg (by decide), List.nil_append]
      exact lineAt_behind front rest
    · have other : (c != '\n') = true := by simpa using newline
      have uncounted : [c].count '\n' = 0 := List.count_eq_zero.2 (by simpa [eq_comm] using newline)
      rw [uncounted, Nat.add_zero, ih, List.rtakeWhile_concat, if_pos other, List.takeWhile_cons,
        if_pos other, List.append_assoc, List.singleton_append]

theorem expandTabs_append (a b : List Char) : expandTabs (a ++ b) = expandTabs a ++ expandTabs b :=
  List.flatMap_append

theorem expandTabs_mono (h : front <+: line) : expandTabs front <+: expandTabs line := by
  obtain ⟨rest, rfl⟩ := h
  rw [expandTabs_append]
  exact List.prefix_append _ _

namespace ParseError

/-! ### The place of an error -/

section Trouble

variable (source : List Char) (t : Trouble)

theorem takeBytes_offset_ofTrouble :
    takeBytes (ofTrouble source t).offset source = source.take (source.length - t.left) := by
  have split := List.take_append_drop (source.length - t.left) source
  have cut := takeBytes_append (source.take (source.length - t.left))
    (source.drop (source.length - t.left))
  rwa [split] at cut

/-- The offset of an error lies between two characters. -/
theorem offset_ofTrouble :
    byteLength (takeBytes (ofTrouble source t).offset source) = (ofTrouble source t).offset := by
  rw [takeBytes_offset_ofTrouble]
  rfl

theorem line_ofTrouble : (ofTrouble source t).line =
    (takeBytes (ofTrouble source t).offset source).count '\n' + 1 := by
  rw [takeBytes_offset_ofTrouble]
  rfl

theorem column_ofTrouble :
    (ofTrouble source t).column = (lineFront source (ofTrouble source t).offset).length + 1 := by
  rw [lineFront, takeBytes_offset_ofTrouble, List.rtakeWhile, List.length_reverse]
  rfl

/-- The line that a report shows is the one around the offset. -/
theorem lineAt_ofTrouble : dropCarriageReturn (lineAt ((ofTrouble source t).line - 1) source) =
    lineAround source (ofTrouble source t).offset := by
  have split : takeBytes (ofTrouble source t).offset source ++
      dropBytes (ofTrouble source t).offset source = source :=
    takeBytes_append_dropBytes _ source
  have line := lineAt_count (takeBytes (ofTrouble source t).offset source)
    (dropBytes (ofTrouble source t).offset source)
  rw [split] at line
  rw [line_ofTrouble, Nat.add_sub_cancel, line]
  rfl

/-- The part of the line that a report measures is the one in front of the offset. -/
theorem take_ofTrouble :
    (lineAround source (ofTrouble source t).offset).take ((ofTrouble source t).column - 1) =
      lineBefore source (ofTrouble source t).offset := by
  rw [column_ofTrouble, Nat.add_sub_cancel]
  exact take_eq_takeBytes (dropCarriageReturn_isPrefix _)

end Trouble

/-- Whatever is wrong with a program is trouble at a place. -/
theorem exists_ofTrouble (failed : Program.parse? source = .error e) :
    ∃ t, e = ofTrouble source t := by
  rw [Program.parse?_eq] at failed
  unfold finishReading at failed
  split at failed
  · cases failed
  · exact ⟨_, (Except.error.inj failed).symm⟩

/-- **Caret reports point at the failure.** The report of an error in a program shows the line
around the offset of the error, behind a gutter with the number of the line, and the caret stands
behind as many columns as the gutter and the part of the line in front of the offset take. Header
and gutter tell the number of this line, and the header the number of the character at which the
rest of the line starts. This is so for every measure of columns. -/
theorem reportOn_parse?_error (failed : Program.parse? source = .error e) :
    let line := lineAround source e.offset
    let before := lineBefore source e.offset
    let gutter := Nat.toDigits 10 e.line ++ ['|']
    let shown := fun width : List Char → ℕ =>
      e.summary ++ "\n\n".toList ++ gutter ++ expandTabs line ++
        '\n' :: List.replicate (width gutter + width (expandTabs before)) '>' ++ ['^']
    (∀ width, e.reportOn width source = shown width) ∧
      gutter ++ expandTabs before <+: gutter ++ expandTabs line ∧
      byteLength (takeBytes e.offset source) = e.offset ∧
      e.line = (takeBytes e.offset source).count '\n' + 1 ∧
      e.column = (lineFront source e.offset).length + 1 := by
  intro line before gutter shown
  obtain ⟨t, rfl⟩ := exists_ofTrouble failed
  have reports (width : List Char → ℕ) :
      (ofTrouble source t).reportOn width source = shown width := by
    simp only [reportOn, lineAt_ofTrouble, take_ofTrouble]
    rfl
  refine ⟨reports, ?_, offset_ofTrouble source t, line_ofTrouble source t,
    column_ofTrouble source t⟩
  · exact (List.prefix_append_right_inj _).2 (expandTabs_mono (takeBytes_isPrefix _ _))

/-- A tab takes three columns and an ideograph two. The carriage return at the end of the line is
not shown. -/
theorem reportOn_parse?_error_wide :
    let s := "out 1\nprint\t\"日本\" x\r\nout 2".toList
    let e : ParseError :=
      ⟨2, 11, 20, "end_of_input", "Expected end of input, but still had input remaining"⟩
    Program.parse? s = .error e ∧ e.reportOn Text.width s =
      ("Parse error at 2:11 (end_of_input)\n\n" ++
        "Expected end of input, but still had input remaining\n\n" ++
        "2|print   \"日本\" x\n>>>>>>>>>>>>>>>>^").toList := by
  intro s e
  have failed : Program.parse? s = .error e := by decide +kernel
  obtain ⟨shown, -⟩ := reportOn_parse?_error failed
  exact ⟨failed, (shown Text.width).trans (by decide +kernel)⟩

end ParseError

end RatCalc
