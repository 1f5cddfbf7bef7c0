import Utterance.Line.Keyword
import Mathlib.Data.List.DropRight

/-!
# Cleaning — what is left of a line

Cleaning goes word by word. Blanks in front of a word and behind the last
one go, and whatever stands between two words becomes one space
(`Line.clean_word_append`). A cleaned line has no blank but single spaces
inside and no comment sign (`Line.of_mem_clean`, `Line.not_blank_of_clean`), so
that the end of a line plays no part in what it is cleaned to
(`Line.clean_append_blank`), and a line that is clean is left as it is
(`Line.clean_clean`).
-/

namespace Utterance

namespace Text

/-! ## Trimming -/

theorem trimStart_cons_blank {c : Char} (h : isBlank c = true) (s : Text) :
    trimStart (c :: s) = trimStart s := by
  simp [trimStart, h]

theorem trimStart_cons {c : Char} (h : isBlank c = false) (s : Text) :
    trimStart (c :: s) = c :: s := by
  simp [trimStart, h]

/-- A character goes from the end exactly if it is a blank with nothing but
blanks behind it. -/
theorem trimEnd_cons (c : Char) (s : Text) :
    trimEnd (c :: s) = if trimEnd s = [] ∧ isBlank c = true then [] else c :: trimEnd s := by
  unfold trimEnd
  rw [List.reverse_cons, List.dropWhile_append]
  by_cases hnil : s.reverse.dropWhile isBlank = []
  · by_cases hc : isBlank c = true <;> simp [hnil, hc]
  · simp [hnil]

theorem trimEnd_append_blank {c : Char} (h : isBlank c = true) (s : Text) :
    trimEnd (s ++ [c]) = trimEnd s := by
  simp [trimEnd, h]

/-- The two ends are trimmed independently. -/
theorem trimStart_trimEnd (s : Text) : trimStart (trimEnd s) = trim s := by
  rw [trim]
  induction s with
  | nil => rfl
  | cons c s ih =>
    cases hc : isBlank c with
    | true =>
      rw [trimStart_cons_blank hc, ← ih, trimEnd_cons]
      split
      · rename_i hnil
        rw [hnil.1]
      · exact trimStart_cons_blank hc _
    | false =>
      have hkept : trimEnd (c :: s) = c :: trimEnd s := by simp [trimEnd_cons, hc]
      rw [trimStart_cons hc, hkept, trimStart_cons hc]

theorem trim_cons_blank {c : Char} (h : isBlank c = true) (s : Text) : trim (c :: s) = trim s := by
  rw [trim, trimStart_cons_blank h, ← trim]

theorem trim_append_blank {c : Char} (h : isBlank c = true) (s : Text) :
    trim (s ++ [c]) = trim s := by
  rw [← trimStart_trimEnd, trimEnd_append_blank h, trimStart_trimEnd]

/-- What follows a text without blanks is trimmed at its end. -/
theorem trimEnd_append {w : Text} (h : ∀ c ∈ w, isBlank c = false) (s : Text) :
    trimEnd (w ++ s) = w ++ trimEnd s := by
  induction w with
  | nil => rfl
  | cons c w ih =>
    have hc : isBlank c = false := h c (by simp)
    have hw : trimEnd (w ++ s) = w ++ trimEnd s := ih fun d hd => h d (by simp [hd])
    rw [List.cons_append, trimEnd_cons, if_neg (by simp [hc]), hw, List.cons_append]

theorem trimEnd_eq_nil_iff {s : Text} : trimEnd s = [] ↔ ∀ c ∈ s, isBlank c = true :=
  List.rdropWhile_eq_nil_iff

theorem trim_eq_nil_iff {s : Text} : trim s = [] ↔ trimEnd s = [] := by
  constructor
  · intro h
    have hstart : ∀ c ∈ s.trimStart, isBlank c = true := trimEnd_eq_nil_iff.1 h
    refine trimEnd_eq_nil_iff.2 fun c hc => ?_
    rw [← indent_append_trimStart s] at hc
    rcases List.mem_append.1 hc with hc | hc
    · exact List.all_eq_true.1 List.all_takeWhile c hc
    · exact hstart c hc
  · intro h
    rw [← trimStart_trimEnd, h]
    rfl

/-- A text that neither begins nor ends with a blank. -/
structure Trimmed (s : Text) : Prop where
  /-- It does not begin with one. -/
  head : ∀ c ∈ s.head?, isBlank c = false
  /-- It does not end with one. -/
  last : ∀ c ∈ s.getLast?, isBlank c = false

instance : DecidablePred Trimmed := fun s =>
  decidable_of_iff ((s.head?.any isBlank || s.getLast?.any isBlank) = false) (by
    rw [Bool.or_eq_false_iff, Option.any_eq_false, Option.any_eq_false]
    exact ⟨fun h => ⟨by simpa using h.1, by simpa using h.2⟩,
      fun h => ⟨by simpa using h.head, by simpa using h.last⟩⟩)

theorem trimmed_trim (s : Text) : Trimmed (trim s) where
  head c hc := by
    rw [← trimStart_trimEnd] at hc
    have hhead := List.head?_dropWhile_not isBlank (trimEnd s)
    rw [← trimStart, Option.mem_def.1 hc] at hhead
    simpa using hhead
  last c hc := by
    rw [trim, trimEnd, List.getLast?_reverse] at hc
    have hlast := List.head?_dropWhile_not isBlank s.trimStart.reverse
    rw [Option.mem_def.1 hc] at hlast
    simpa using hlast

theorem trimEnd_concat {c : Char} (h : isBlank c = false) (s : Text) :
    trimEnd (s ++ [c]) = s ++ [c] := by
  simp [trimEnd, h]

/-- **What is trimmed already** is left as it is. -/
theorem Trimmed.trim_eq {s : Text} (h : Trimmed s) : trim s = s := by
  obtain ⟨hhead, hlast⟩ := h
  have hstart : trimStart s = s := by
    cases s with
    | nil => rfl
    | cons c s => exact trimStart_cons (hhead c rfl) s
  rw [trim, hstart]
  rcases List.eq_nil_or_concat' s with rfl | ⟨s, c, rfl⟩
  · rfl
  · exact trimEnd_concat (hlast c (by simp)) s

/-! ## Squeezing -/

/-- **A run of blanks becomes one space.** -/
theorem squeeze_cons_blank {c : Char} (h : isBlank c = true) (s : Text) :
    squeeze (c :: s) = ' ' :: squeeze (trimStart s) := by
  induction s generalizing c with
  | nil => simp [squeeze_cons, h, trimStart]
  | cons d s ih =>
    cases hd : isBlank d with
    | true =>
      have hrest : squeeze (d :: s) = ' ' :: squeeze (trimStart s) := ih hd
      rw [squeeze_cons, hrest, trimStart_cons_blank hd]
      simp [h]
    | false =>
      have hne : d ≠ ' ' := by
        rintro rfl
        revert hd
        decide
      rw [trimStart_cons hd, squeeze_cons, squeeze_cons d]
      simp [h, hd, hne]

theorem squeeze_append {w : Text} (h : ∀ c ∈ w, isBlank c = false) (s : Text) :
    squeeze (w ++ s) = w ++ squeeze s := by
  induction w with
  | nil => rfl
  | cons c w ih =>
    have hc : isBlank c = false := h c (by simp)
    rw [List.cons_append, squeeze_cons, ih fun d hd => h d (by simp [hd])]
    simp [hc]

theorem squeeze_concat {c : Char} (h : isBlank c = false) (s : Text) :
    squeeze (s ++ [c]) = squeeze s ++ [c] := by
  have hne : c ≠ ' ' := by
    rintro rfl
    revert h
    decide
  induction s with
  | nil => simp [squeeze_cons, h]
  | cons d s ih =>
    have hhead : (squeeze s ++ [c]).head? = some ' ' ↔ (squeeze s).head? = some ' ' := by
      cases squeeze s <;> simp [hne]
    rw [List.cons_append, squeeze_cons, ih, squeeze_cons]
    simp only [hhead]
    split <;> [split; skip] <;> rfl

/-- Runs of blanks are squeezed once. -/
theorem squeeze_squeeze (s : Text) : squeeze (squeeze s) = squeeze s := by
  induction s with
  | nil => rfl
  | cons c s ih =>
    cases hc : isBlank c with
    | true =>
      by_cases hhead : (squeeze s).head? = some ' '
      · simpa [squeeze_cons, hc, hhead] using ih
      · have hspace : isBlank ' ' = true := by decide
        have houter : squeeze (c :: s) = ' ' :: squeeze s := by simp [squeeze_cons, hc, hhead]
        rw [houter, squeeze_cons, ih]
        simp [hspace, hhead]
    | false =>
      have houter : squeeze (c :: s) = c :: squeeze s := by simp [squeeze_cons, hc]
      rw [houter, squeeze_cons, ih]
      simp [hc]

theorem squeeze_eq_nil_iff {s : Text} : squeeze s = [] ↔ s = [] := by
  cases s with
  | nil => simp
  | cons c s =>
    cases hc : isBlank c with
    | true => simp [squeeze_cons_blank hc]
    | false => simp [squeeze_cons, hc]

theorem of_mem_squeeze {c : Char} {s : Text} (h : c ∈ squeeze s) :
    c = ' ' ∨ isBlank c = false ∧ c ∈ s := by
  induction s with
  | nil => simp at h
  | cons d s ih =>
    rw [squeeze_cons] at h
    split at h
    · split at h
      · exact (ih h).imp_right fun hs => ⟨hs.1, by simp [hs.2]⟩
      · rcases List.mem_cons.1 h with rfl | h
        · exact .inl rfl
        · exact (ih h).imp_right fun hs => ⟨hs.1, by simp [hs.2]⟩
    · rename_i hd
      rcases List.mem_cons.1 h with rfl | h
      · exact .inr ⟨by simpa using hd, by simp⟩
      · exact (ih h).imp_right fun hs => ⟨hs.1, by simp [hs.2]⟩

theorem mem_of_mem_trim {c : Char} {s : Text} (h : c ∈ trim s) : c ∈ s := by
  have hend : c ∈ s.trimStart.reverse.dropWhile isBlank := by
    simpa [trim, trimEnd] using h
  have hstart : c ∈ s.dropWhile isBlank :=
    List.mem_reverse.1 ((List.dropWhile_sublist isBlank).subset hend)
  exact (List.dropWhile_sublist isBlank).subset hstart

/-! ## Word by word -/

theorem trim_append {w : Text} (hne : w ≠ []) (hw : ∀ c ∈ w, isBlank c = false) (s : Text) :
    trim (w ++ s) = w ++ trimEnd s := by
  cases w with
  | nil => exact absurd rfl hne
  | cons c w =>
    have hc : isBlank c = false := hw c (by simp)
    rw [trim, List.cons_append, trimStart_cons hc, ← List.cons_append]
    exact trimEnd_append hw s

/-- The blanks behind a word are trimmed. -/
theorem trim_word_append {w behind : Text} (hw : ∀ c ∈ w, isBlank c = false)
    (hbehind : ∀ c ∈ behind, isBlank c = true) : trim (w ++ behind) = w := by
  have hend : trimEnd behind = [] := trimEnd_eq_nil_iff.2 hbehind
  by_cases hne : w = []
  · rw [hne, List.nil_append, trim_eq_nil_iff, hend]
  · rw [trim_append hne hw, hend, List.append_nil]

/-- So are the blanks on both sides. -/
theorem trim_append_word_append {before w behind : Text} (hbefore : ∀ c ∈ before, isBlank c = true)
    (hw : ∀ c ∈ w, isBlank c = false) (hbehind : ∀ c ∈ behind, isBlank c = true) :
    trim (before ++ w ++ behind) = w := by
  induction before with
  | nil => exact trim_word_append hw hbehind
  | cons c before ih =>
    rw [List.cons_append, List.cons_append, trim_cons_blank (hbefore c (by simp))]
    exact ih fun d hd => hbefore d (by simp [hd])

/-- A word is left as it is. -/
theorem squeeze_trim_word {w : Text} (hw : ∀ c ∈ w, isBlank c = false) : squeeze (trim w) = w := by
  have htrim : trim w = w := by simpa using trim_word_append hw (List.forall_mem_nil _)
  have hsqueeze : squeeze w = w := by simpa using squeeze_append hw []
  rw [htrim, hsqueeze]

/-- **Trimming and squeezing go word by word.** -/
theorem squeeze_trim_append {w : Text} (hne : w ≠ []) (hw : ∀ c ∈ w, isBlank c = false) {c : Char}
    (hc : isBlank c = true) (s : Text) :
    squeeze (trim (w ++ c :: s)) =
      if squeeze (trim s) = [] then w else w ++ ' ' :: squeeze (trim s) := by
  have hempty : squeeze (trim s) = [] ↔ trimEnd s = [] := by
    rw [squeeze_eq_nil_iff, trim_eq_nil_iff]
  rw [trim_append hne hw, squeeze_append hw, trimEnd_cons]
  by_cases hnil : trimEnd s = []
  · rw [if_pos ⟨hnil, hc⟩, if_pos (hempty.2 hnil), squeeze_nil, List.append_nil]
  · have hrest : squeeze (c :: trimEnd s) = ' ' :: squeeze (trim s) := by
      rw [squeeze_cons_blank hc, trimStart_trimEnd]
    rw [if_neg fun h => hnil h.1, if_neg fun h => hnil (hempty.1 h), hrest]

end Text

/-! ## Cleaning -/

namespace Line

open Text

/-- The part of a line in front of its comment. -/
def beforeComment (raw : Text) : Text :=
  raw.takeWhile (· ≠ '#')

theorem clean_eq (raw : Text) : clean raw = squeeze (Text.trim (beforeComment raw)) := rfl

theorem beforeComment_cons {c : Char} (h : c ≠ '#') (s : Text) :
    beforeComment (c :: s) = c :: beforeComment s := by
  simp [beforeComment, h]

/-- A character at the end is kept, unless a comment stands before it. -/
theorem beforeComment_append {c : Char} (h : c ≠ '#') (raw : Text) :
    beforeComment (raw ++ [c]) = beforeComment raw ∨
      beforeComment (raw ++ [c]) = beforeComment raw ++ [c] := by
  induction raw with
  | nil => exact .inr (beforeComment_cons h [])
  | cons d raw ih =>
    by_cases hd : d = '#'
    · exact .inl (by simp [beforeComment, hd])
    · rw [List.cons_append, beforeComment_cons hd, beforeComment_cons hd]
      exact ih.imp (congrArg _) (congrArg _)

/-- A text without blanks and comment signs. -/
def IsWord (w : Text) : Prop :=
  w ≠ [] ∧ ∀ c ∈ w, isBlank c = false ∧ c ≠ '#'

instance : DecidablePred IsWord := fun w =>
  decidable_of_iff (w ≠ [] ∧ w.all (fun c => !isBlank c && c != '#') = true) (by simp [IsWord])

theorem IsWord.not_blank {w : Text} (hw : IsWord w) : ∀ c ∈ w, isBlank c = false :=
  fun c hc => (hw.2 c hc).1

theorem IsWord.beforeComment_append {w : Text} (hw : IsWord w) (s : Text) :
    beforeComment (w ++ s) = w ++ beforeComment s :=
  List.takeWhile_append_of_pos fun c hc => by simpa using (hw.2 c hc).2

@[simp] theorem clean_nil : clean [] = [] := by decide

/-- **Cleaning goes word by word.** -/
theorem clean_word_append {w : Text} (hw : IsWord w) (s : Text) :
    clean (w ++ ' ' :: s) = if clean s = [] then w else w ++ ' ' :: clean s := by
  rw [clean_eq, hw.beforeComment_append, beforeComment_cons (by decide),
    squeeze_trim_append hw.1 hw.not_blank (by decide), ← clean_eq]

theorem clean_word {w : Text} (hw : IsWord w) : clean w = w := by
  have hcut : beforeComment w = w := by simpa [beforeComment] using hw.beforeComment_append []
  rw [clean_eq, hcut, squeeze_trim_word hw.not_blank]

/-- **A blank at the end makes no difference.** -/
theorem clean_append_blank {c : Char} (h : isBlank c = true) (raw : Text) :
    clean (raw ++ [c]) = clean raw := by
  have hc : c ≠ '#' := by
    rintro rfl
    revert h
    decide
  rw [clean_eq, clean_eq]
  rcases beforeComment_append hc raw with hcut | hcut
  · rw [hcut]
  · rw [hcut, ← trimStart_trimEnd, trimEnd_append_blank h, trimStart_trimEnd]

/-- A cleaned line has no comment sign and no blank but spaces. -/
theorem of_mem_clean {c : Char} {raw : Text} (h : c ∈ clean raw) :
    c ≠ '#' ∧ (isBlank c = true → c = ' ') := by
  rcases of_mem_squeeze h with rfl | ⟨hc, hmem⟩
  · exact ⟨by decide, fun _ => rfl⟩
  · have hcut : c ∈ raw.takeWhile (· ≠ '#') := mem_of_mem_trim hmem
    have hsharp : c ≠ '#' := by simpa using List.mem_takeWhile_imp hcut
    exact ⟨hsharp, fun hblank => absurd hblank (by simp [hc])⟩

/-- A cleaned line does not begin with a blank. -/
theorem not_blank_of_clean {c : Char} {raw rest : Text} (h : clean raw = c :: rest) :
    isBlank c = false := by
  have hstart : clean raw = squeeze (trimStart (trimEnd (beforeComment raw))) := by
    rw [trimStart_trimEnd, clean_eq]
  cases htrim : trimStart (trimEnd (beforeComment raw)) with
  | nil =>
    rw [hstart, htrim] at h
    cases h
  | cons d s =>
    have hd : isBlank d = false := by
      have hhead := List.head?_dropWhile_not isBlank (trimEnd (beforeComment raw))
      rw [← trimStart, htrim] at hhead
      simpa using hhead
    rw [hstart, htrim, squeeze_cons] at h
    simp only [hd, Bool.false_eq_true, if_false, List.cons.injEq] at h
    exact h.1 ▸ hd

/-- A cleaned line is trimmed. -/
theorem trimmed_clean (raw : Text) : Trimmed (clean raw) where
  head c hc := by
    cases hclean : clean raw with
    | nil => simp [hclean] at hc
    | cons d rest =>
      obtain rfl : d = c := by simpa [hclean] using hc
      exact not_blank_of_clean hclean
  last c hc := by
    have htrimmed := trimmed_trim (beforeComment raw)
    rw [clean_eq] at hc
    rcases List.eq_nil_or_concat' (Text.trim (beforeComment raw)) with hnil | ⟨s, d, hlast⟩
    · simp [hnil] at hc
    · have hd : isBlank d = false := htrimmed.last d (by simp [hlast])
      rw [hlast, squeeze_concat hd] at hc
      obtain rfl : d = c := by simpa using hc
      exact hd

/-- **Cleaning twice is cleaning once.** -/
theorem clean_clean (raw : Text) : clean (clean raw) = clean raw := by
  have hcut : beforeComment (clean raw) = clean raw :=
    List.takeWhile_eq_self_iff.2 fun c hc => by simpa using (of_mem_clean hc).1
  rw [clean_eq (clean raw), hcut, (trimmed_clean raw).trim_eq, clean_eq, squeeze_squeeze]

end Line

end Utterance
