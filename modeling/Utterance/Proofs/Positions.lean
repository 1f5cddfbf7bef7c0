import Utterance.Loading
import Utterance.Proofs.Cleaning
import Utterance.Proofs.Groups

/-!
# Positions — where the lines of a text stand

The lines of a text are numbered with the byte at which each one starts, and
the span of a line leaves out the blanks at both ends. That the bytes are
counted right is said without counting: a span covers a part of a text if the
text is made of something, the part and something, and the bytes and the line
feeds in front tell the numbers (`Span.Covers`). The span of every line covers
the line without the blanks at its ends (`SourceLine.locates`), and the spans of
a text follow one another (`SourceLine.pairwise_number`).
-/

namespace Utterance

/-! ## Parts of a text -/

namespace Text

/-- What stands behind the last line feed. -/
def lastLine (s : Text) : Text :=
  (s.reverse.takeWhile (· ≠ '\n')).reverse

/-- Lines with a line feed behind each. -/
def closed (raws : List Text) : Text :=
  raws.flatMap (· ++ ['\n'])

@[simp] theorem closed_nil : closed [] = [] := rfl

@[simp] theorem closed_cons (raw : Text) (raws : List Text) :
    closed (raw :: raws) = raw ++ '\n' :: closed raws := by
  simp [closed]

/-- The last line begins behind the last line feed. -/
theorem lastLine_closed_append (raws : List Text) {s : Text} (h : '\n' ∉ s) :
    (closed raws ++ s).lastLine = s := by
  have hs : ∀ c ∈ s.reverse, decide (c ≠ '\n') = true := fun c hc => by
    refine decide_eq_true ?_
    rintro rfl
    exact h (List.mem_reverse.1 hc)
  have hstop : (closed raws).reverse.takeWhile (· ≠ '\n') = [] := by
    rcases List.eq_nil_or_concat' raws with rfl | ⟨before, raw, rfl⟩
    · rfl
    · simp [closed]
  rw [lastLine, List.reverse_append, List.takeWhile_append_of_pos hs, hstop, List.append_nil,
    List.reverse_reverse]

/-- There are as many line feeds as closed lines. -/
theorem count_closed {raws : List Text} (h : ∀ raw ∈ raws, '\n' ∉ raw) :
    (closed raws).count '\n' = raws.length := by
  induction raws with
  | nil => rfl
  | cons raw raws ih =>
    have hraw : raw.count '\n' = 0 := List.count_eq_zero.2 (h raw (by simp))
    have hrest := ih fun r hr => h r (by simp [hr])
    simp [hraw, hrest]

/-- The lines of a text have no line feed. -/
theorem newline_not_mem_of_mem_lines {s raw : Text} (h : raw ∈ s.lines) : '\n' ∉ raw :=
  notMem_of_mem_splitOn h

/-- What stands before and behind one of some lines that are joined. -/
theorem intercalate_append_cons (before : List Text) (raw : Text) (after : List Text) :
    ['\n'].intercalate (before ++ raw :: after) =
      closed before ++ raw ++ after.flatMap ('\n' :: ·) := by
  induction before with
  | nil =>
    rw [closed_nil, List.nil_append, List.nil_append]
    induction after generalizing raw with
    | nil => simp
    | cons next after ih =>
      rw [List.intercalate_cons_cons, ih]
      simp
  | cons first before ih =>
    have hne : before ++ raw :: after ≠ [] := by simp
    obtain ⟨next, rest, hrest⟩ := List.exists_cons_of_ne_nil hne
    rw [List.cons_append, hrest, List.intercalate_cons_cons, ← hrest, ih]
    simp

/-- Lines without a line feed are those of the text that they make. -/
theorem lines_closed {raws : List Text} (h : ∀ raw ∈ raws, '\n' ∉ raw) :
    (closed raws).lines = raws ++ [[]] := by
  have hjoin : closed raws = ['\n'].intercalate (raws ++ [[]]) := by
    simp [intercalate_append_cons]
  rw [hjoin]
  refine List.splitOn_intercalate '\n' ?_ (by simp)
  intro raw hraw
  rcases List.mem_append.1 hraw with hraw | hraw
  · exact h raw hraw
  · simp [List.mem_singleton.1 hraw]

/-- **A line is the blanks in front, the trimmed line and the blanks behind.** -/
theorem exists_eq_indent_append_trim (s : Text) :
    ∃ blanks, s = s.indent ++ s.trim ++ blanks ∧ ∀ c ∈ blanks, isBlank c = true := by
  refine ⟨s.trimStart.rtakeWhile isBlank, ?_, fun c hc => List.mem_rtakeWhile_imp hc⟩
  have hend : s.trim ++ s.trimStart.rtakeWhile isBlank = s.trimStart :=
    List.rdropWhile_append_rtakeWhile ..
  rw [List.append_assoc, hend, indent_append_trimStart]

theorem byteSize_pos {s : Text} (h : s ≠ []) : 0 < s.byteSize := by
  obtain ⟨c, rest, rfl⟩ := List.exists_cons_of_ne_nil h
  have hc := c.utf8Size_pos
  rw [byteSize_cons]
  omega

end Text

namespace Line

/-- **Blanks at both ends make no difference.** -/
theorem clean_trim (raw : Text) : clean raw.trim = clean raw := by
  have hfront (blanks s : Text) (h : ∀ c ∈ blanks, isBlank c = true) :
      clean (blanks ++ s) = clean s := by
    induction blanks with
    | nil => rfl
    | cons c blanks ih =>
      have hc : isBlank c = true := h c (by simp)
      have hsharp : c ≠ '#' := by
        rintro rfl
        revert hc
        decide
      rw [← ih fun d hd => h d (by simp [hd]), List.cons_append, clean_eq,
        beforeComment_cons hsharp, Text.trim, Text.trimStart_cons_blank hc]
      rfl
  have hbehind (s blanks : Text) (h : ∀ c ∈ blanks, isBlank c = true) :
      clean (s ++ blanks) = clean s := by
    induction blanks using List.reverseRecOn with
    | nil => rw [List.append_nil]
    | append_singleton blanks c ih =>
      rw [← List.append_assoc, clean_append_blank (h c (by simp)),
        ih fun d hd => h d (by simp [hd])]
  obtain ⟨blanks, hraw, hblanks⟩ := raw.exists_eq_indent_append_trim
  have hindent : ∀ c ∈ raw.indent, isBlank c = true := fun c hc => List.mem_takeWhile_imp hc
  conv_rhs => rw [hraw, hbehind _ _ hblanks, hfront _ _ hindent]

end Line

/-! ## Spans -/

/-- **A span covers a part of a text**: it is the range of bytes that the part
takes up, its line is told by the line feeds in front, and its column by the
bytes behind the last one of them. -/
def Span.Covers (span : Span) (text part : Text) : Prop :=
  ∃ before after, text = before ++ part ++ after ∧ span.start = before.byteSize ∧
    span.stop = before.byteSize + part.byteSize ∧ span.line = before.count '\n' + 1 ∧
    span.column = before.lastLine.byteSize + 1

/-- **A span locates a part of a text**: the part is not empty, on one line,
and without blanks at its ends. -/
structure Span.Locates (span : Span) (text part : Text) : Prop where
  covers : span.Covers text part
  start_lt_stop : span.start < span.stop
  stop_le : span.stop ≤ text.byteSize
  oneLine : '\n' ∉ part
  trimmed : part.Trimmed

/-- A span stands before another one, on an earlier line. -/
def Span.Before (a b : Span) : Prop :=
  a.stop < b.start ∧ a.line < b.line

theorem Span.Covers.stop_le {span : Span} {text part : Text} (h : span.Covers text part) :
    span.stop ≤ text.byteSize := by
  obtain ⟨before, after, rfl, -, hstop, -⟩ := h
  simp only [hstop, Text.byteSize_append]
  omega

namespace SourceLine

/-- **The numbers of a line** are told by the lines in front of it. -/
theorem exists_of_mem_number {start number : Nat} {raws : List Text} {line : SourceLine}
    (h : line ∈ SourceLine.number start number raws) :
    ∃ before after, raws = before ++ line.raw :: after ∧
      line.span =
        .ofLine (start + (Text.closed before).byteSize) line.raw (number + before.length) := by
  induction raws generalizing start number with
  | nil => cases h
  | cons raw raws ih =>
    rw [number_cons] at h
    rcases List.mem_cons.1 h with rfl | h
    · exact ⟨[], raws, rfl, rfl⟩
    · obtain ⟨before, after, rfl, hspan⟩ := ih h
      have hfeed : '\n'.utf8Size = 1 := by decide
      have hstart : start + raw.byteSize + 1 + (Text.closed before).byteSize =
          start + (Text.closed (raw :: before)).byteSize := by
        simp only [Text.closed_cons, Text.byteSize_append, Text.byteSize_cons, hfeed]
        omega
      have hnumber : number + 1 + before.length = number + (raw :: before).length := by
        rw [List.length_cons]
        omega
      exact ⟨raw :: before, after, rfl, by rw [hspan, hstart, hnumber]⟩

/-- A line of a text stands where its span says. -/
theorem getElem?_lines_of_mem {text : Text} {line : SourceLine} (h : line ∈ ofText text) :
    text.lines[line.span.line - 1]? = some line.raw := by
  obtain ⟨before, after, hlines, hspan⟩ := exists_of_mem_number h
  have hnumber : line.span.line - 1 = before.length := by
    rw [hspan]
    exact Nat.add_sub_cancel_left ..
  rw [hnumber, hlines]
  simp

/-- The lines of a text are numbered from one. -/
theorem getElem?_number {start number i : Nat} {raws : List Text} {line : SourceLine}
    (h : (SourceLine.number start number raws)[i]? = some line) :
    raws[i]? = some line.raw ∧ line.span.line = number + i := by
  induction raws generalizing start number i with
  | nil => simp at h
  | cons raw raws ih =>
    rw [number_cons] at h
    cases i with
    | zero =>
      obtain rfl := Option.some.inj h
      exact ⟨rfl, rfl⟩
    | succ i =>
      obtain ⟨hraw, hline⟩ := ih h
      exact ⟨hraw, by omega⟩

/-- **The span of a line** covers it without the blanks at its ends. -/
theorem covers {text : Text} {line : SourceLine} (h : line ∈ ofText text) :
    line.span.Covers text line.raw.trim := by
  obtain ⟨before, after, hlines, hspan⟩ := exists_of_mem_number h
  obtain ⟨blanks, hraw, -⟩ := line.raw.exists_eq_indent_append_trim
  have hnone : ∀ raw ∈ text.lines, '\n' ∉ raw := fun raw => Text.newline_not_mem_of_mem_lines
  have hbefore : ∀ raw ∈ before, '\n' ∉ raw := fun raw hraw => hnone raw (by simp [hlines, hraw])
  have hindent : '\n' ∉ line.raw.indent := fun hmem =>
    hnone line.raw (by simp [hlines]) (by rw [hraw]; simp [hmem])
  have htext : text = Text.closed before ++ line.raw ++ after.flatMap ('\n' :: ·) := by
    rw [← Text.intercalate_append_cons, ← hlines, Text.intercalate_lines]
  refine ⟨Text.closed before ++ line.raw.indent, blanks ++ after.flatMap ('\n' :: ·), ?_, ?_⟩
  · conv_lhs => rw [htext, hraw]
    simp only [List.append_assoc]
  · have hcount : (Text.closed before ++ line.raw.indent).count '\n' = before.length := by
      rw [List.count_append, Text.count_closed hbefore, List.count_eq_zero.2 hindent, Nat.add_zero]
    rw [Text.lastLine_closed_append before hindent, hcount, Text.byteSize_append, hspan,
      Span.ofLine, Nat.zero_add, Nat.add_comm 1]
    exact ⟨rfl, rfl, rfl, rfl⟩

/-- **A line that is not blank is located by its span.** -/
theorem locates {text : Text} {line : SourceLine} (h : line ∈ ofText text)
    (hne : line.raw.trim ≠ []) : line.span.Locates text line.raw.trim where
  covers := covers h
  start_lt_stop := by
    obtain ⟨before, after, -, hstart, hstop, -⟩ := covers h
    have hpos := Text.byteSize_pos hne
    omega
  stop_le := (covers h).stop_le
  oneLine hmem :=
    Text.newline_not_mem_of_mem_lines (List.mem_of_getElem? (getElem?_lines_of_mem h))
      (Text.mem_of_mem_trim hmem)
  trimmed := Text.trimmed_trim _

/-- **The spans of a text follow one another.** -/
theorem pairwise_number (start number : Nat) (raws : List Text) :
    (SourceLine.number start number raws).Pairwise fun a b => a.span.Before b.span := by
  induction raws generalizing start number with
  | nil => exact .nil
  | cons raw raws ih =>
    rw [number_cons]
    refine .cons (fun line hline => ?_) (ih ..)
    obtain ⟨before, after, -, hspan⟩ := exists_of_mem_number hline
    obtain ⟨blanks, hraw, -⟩ := raw.exists_eq_indent_append_trim
    have hsize : raw.byteSize = raw.indent.byteSize + raw.trim.byteSize + blanks.byteSize := by
      conv_lhs => rw [hraw]
      simp only [Text.byteSize_append]
    simp only [Span.Before, hspan, Span.ofLine]
    omega

end SourceLine

end Utterance
