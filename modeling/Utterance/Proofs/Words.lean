import Utterance.Proofs.Forms

/-!
# Words — what cleaning reads off a line

The words of a text are its maximal runs of characters that are no blanks, in
the order in which they stand there (`Text.exists_runs`). A text is gone through
word by word (`Text.word_induction`), and so it is trimmed and squeezed: what
comes out are the words, joined by single spaces (`Text.squeeze_trim_eq`), and
they can be told again from that (`Text.words_intercalate`). All that cleaning
forgets of a line is therefore which blanks stand between its words and at both
ends, and what its comment says (`Line.clean_joins_words`).
-/

namespace Utterance

namespace Text

/-- The words of a text: what stands between its blanks, in order. -/
def words (s : Text) : List Text :=
  (s.splitOnP isBlank).filter (· ≠ [])

/-- A text that has characters, none of which is a blank. -/
def Solid (w : Text) : Prop :=
  w ≠ [] ∧ ∀ c ∈ w, isBlank c = false

variable {c : Char} {s w : Text} {ws : List Text}

/-! ## One word after another -/

/-- **Going through a text word by word**: it has no blanks, or it begins with
a part that has none and the first blank. -/
theorem word_induction {motive : Text → Prop}
    (last : ∀ w, (∀ c ∈ w, isBlank c = false) → motive w)
    (step : ∀ w c s, (∀ d ∈ w, isBlank d = false) → isBlank c = true → motive s →
      motive (w ++ c :: s))
    (s : Text) : motive s := by
  induction hlength : s.length using Nat.strong_induction_on generalizing s with
  | h n ih =>
    have hsplit : s.takeWhile (fun c => !isBlank c) ++ s.dropWhile (fun c => !isBlank c) = s :=
      List.takeWhile_append_dropWhile
    have hw : ∀ c ∈ s.takeWhile (fun c => !isBlank c), isBlank c = false := fun c hc => by
      simpa using List.mem_takeWhile_imp hc
    cases hrest : s.dropWhile (fun c => !isBlank c) with
    | nil =>
      rw [hrest, List.append_nil] at hsplit
      exact last s (hsplit ▸ hw)
    | cons c rest =>
      have hc : isBlank c = true := by
        have hhead := List.head?_dropWhile_not (fun c => !isBlank c) s
        rw [hrest] at hhead
        simpa using hhead
      have hshorter : rest.length < n := by
        rw [← hlength, ← hsplit, hrest, List.length_append, List.length_cons]
        omega
      rw [← hsplit, hrest]
      exact step _ c rest hw hc (ih rest.length hshorter rest rfl)

/-- **A blank parts the words** in front of it from those behind it. -/
theorem words_append_blank (hc : isBlank c = true) (s t : Text) :
    words (s ++ c :: t) = words s ++ words t := by
  rw [words, List.splitOnP_append_cons _ _ hc, List.filter_append, words, words]

/-- A text without blanks is one word, unless it is empty. -/
theorem words_of_forall (hw : ∀ c ∈ w, isBlank c = false) :
    words w = if w = [] then [] else [w] := by
  rw [words, List.splitOnP_eq_singleton hw]
  split <;> simp_all

theorem words_of_solid (hw : Solid w) : words w = [w] := by
  rw [words_of_forall hw.2, if_neg hw.1]

theorem words_solid_append (hw : Solid w) (hc : isBlank c = true) (s : Text) :
    words (w ++ c :: s) = w :: words s := by
  rw [words_append_blank hc, words_of_solid hw, List.singleton_append]

/-- Words are solid. -/
theorem solid_of_mem_words (h : w ∈ words s) : Solid w := by
  have hword {u : Text} (hu : ∀ c ∈ u, isBlank c = false) (h : w ∈ words u) : Solid w := by
    rw [words_of_forall hu] at h
    split at h
    · cases h
    · rename_i hne
      obtain rfl := List.mem_singleton.1 h
      exact ⟨hne, hu⟩
  induction s using word_induction with
  | last u hu => exact hword hu h
  | step u c s hu hc ih =>
    rw [words_append_blank hc] at h
    exact (List.mem_append.1 h).elim (hword hu) ih

/-- The words hold all characters but the blanks. -/
theorem flatten_words (s : Text) : (words s).flatten = s.filter fun c => !isBlank c := by
  have hword {w : Text} (hw : ∀ c ∈ w, isBlank c = false) :
      (words w).flatten = w.filter fun c => !isBlank c := by
    have hkept : w.filter (fun c => !isBlank c) = w :=
      List.filter_eq_self.2 fun c hc => by simp [hw c hc]
    rw [words_of_forall hw, hkept]
    split <;> simp_all
  induction s using word_induction with
  | last w hw => exact hword hw
  | step w c s hw hc ih =>
    rw [words_append_blank hc, List.flatten_append, hword hw, ih, List.filter_append,
      List.filter_cons_of_neg (by simp [hc])]

/-! ## Words joined by spaces -/

theorem intercalate_space_cons (w : Text) (ws : List Text) :
    [' '].intercalate (w :: ws) = if ws = [] then w else w ++ ' ' :: [' '].intercalate ws := by
  cases ws with
  | nil => simp
  | cons v ws => simp [List.intercalate_cons_cons]

theorem intercalate_eq_nil_iff (hws : ∀ w ∈ ws, Solid w) : [' '].intercalate ws = [] ↔ ws = [] := by
  cases ws with
  | nil => simp
  | cons w ws =>
    have hne : w ≠ [] := (hws w (by simp)).1
    rw [intercalate_space_cons]
    split <;> simp [hne]

/-- **Trimming and squeezing leave the words**, joined by single spaces. -/
theorem squeeze_trim_eq (s : Text) : squeeze (trim s) = [' '].intercalate (words s) := by
  induction s using word_induction with
  | last w hw =>
    rw [squeeze_trim_word hw, words_of_forall hw]
    split <;> simp_all
  | step w c s hw hc ih =>
    have hnil : [' '].intercalate (words s) = [] ↔ words s = [] :=
      intercalate_eq_nil_iff fun _ => solid_of_mem_words
    by_cases hne : w = []
    · subst hne
      rw [List.nil_append, trim_cons_blank hc, ih, ← List.nil_append (c :: s),
        words_append_blank hc]
      rfl
    · rw [squeeze_trim_append hne hw hc, ih, words_solid_append ⟨hne, hw⟩ hc,
        intercalate_space_cons]
      simp only [hnil]

/-- **The words can be told from what joins them.** -/
theorem words_intercalate (hws : ∀ w ∈ ws, Solid w) : words ([' '].intercalate ws) = ws := by
  induction ws with
  | nil => rfl
  | cons w ws ih =>
    have hw : Solid w := hws w (by simp)
    rw [intercalate_space_cons]
    split
    · rename_i hnil
      rw [words_of_solid hw, hnil]
    · rw [words_solid_append hw (by decide), ih fun v hv => hws v (by simp [hv])]

/-- A solid text ends with a character that is no blank. -/
theorem Solid.exists_last (hw : Solid w) : ∃ a ∈ w.getLast?, isBlank a = false :=
  ⟨w.getLast hw.1, List.getLast?_eq_some_getLast hw.1, hw.2 _ (List.getLast_mem hw.1)⟩

theorem Solid.exists_head (hw : Solid w) (s : Text) : ∃ b ∈ (w ++ s).head?, isBlank b = false := by
  obtain ⟨b, v, rfl⟩ := List.exists_cons_of_ne_nil hw.1
  exact ⟨b, rfl, hw.2 b (by simp)⟩

/-- **A blank in joined words** is one of the spaces that join them. -/
theorem between_words (hws : ∀ w ∈ ws, Solid w) {before behind : Text} (hc : isBlank c = true)
    (h : [' '].intercalate ws = before ++ c :: behind) :
    c = ' ' ∧ (∃ a ∈ before.getLast?, isBlank a = false) ∧
      ∃ b ∈ behind.head?, isBlank b = false := by
  induction ws generalizing before with
  | nil => simp at h
  | cons w ws ih =>
    have hw : Solid w := hws w (by simp)
    have hrest : ∀ v ∈ ws, Solid v := fun v hv => hws v (by simp [hv])
    have hinside : c ∉ w := fun hmem => by simp [hw.2 c hmem] at hc
    rw [intercalate_space_cons] at h
    split at h
    · exact absurd (h ▸ by simp) hinside
    · rename_i hne
      have hnext : ∃ b ∈ ([' '].intercalate ws).head?, isBlank b = false := by
        obtain ⟨v, vs, rfl⟩ := List.exists_cons_of_ne_nil hne
        have hv := (hrest v (by simp)).exists_head
        rw [intercalate_space_cons]
        split
        · simpa using hv []
        · exact hv _
      obtain ⟨m, rfl, hm⟩ := exists_eq_append_of_notMem hinside h
      cases m with
      | nil =>
        -- the space behind the first word
        obtain ⟨rfl, rfl⟩ := List.cons.inj hm
        exact ⟨rfl, by simpa using hw.exists_last, hnext⟩
      | cons d m =>
        -- a space behind a later word
        obtain ⟨hspace, ⟨a, ha, hsolid⟩, hbehind⟩ := ih hrest (List.cons.inj hm).2
        refine ⟨hspace, ⟨a, ?_, hsolid⟩, hbehind⟩
        rw [Option.mem_def] at ha ⊢
        simp [List.getLast?_append, List.getLast?_cons, ha]

/-! ## Maximal runs -/

/-- A part of a text, with what stands in front of it and behind it. -/
structure Stretch where
  /-- What stands in front of the part. -/
  before : Text
  /-- The part. -/
  part : Text
  /-- What stands behind the part. -/
  behind : Text

namespace Stretch

/-- **A maximal run of characters that are no blanks**: the part has some, and
what stands next to it on either side, if anything, is a blank. -/
structure IsRun (r : Stretch) (s : Text) : Prop where
  text : r.before ++ r.part ++ r.behind = s
  solid : Solid r.part
  starts : ∀ c ∈ r.before.getLast?, isBlank c = true
  stops : ∀ c ∈ r.behind.head?, isBlank c = true

/-- The same part, with more in front. -/
def after (front : Text) (r : Stretch) : Stretch :=
  { r with before := front ++ r.before }

variable {r : Stretch}

/-- A run of a text that begins with a word is the word, or stands behind the
blank that ends it. -/
theorem IsRun.front_or_later {rest : Text} (hw : ∀ d ∈ w, isBlank d = false)
    (hrest : ∀ d ∈ rest.head?, isBlank d = true) (h : r.IsRun (w ++ rest)) :
    (w ≠ [] ∧ r = ⟨[], w, rest⟩) ∨
      ∃ m d, r.before = w ++ m ++ [d] ∧ rest = m ++ d :: (r.part ++ r.behind) := by
  obtain ⟨before, part, behind⟩ := r
  obtain ⟨htext, hsolid, hstarts, hstops⟩ := h
  rcases List.eq_nil_or_concat' before with rfl | ⟨m, d, rfl⟩
  · have hends {t : Text} (ht : ∀ d ∈ t.head?, isBlank d = true) :
        t.head?.any (fun d => !isBlank d) = false := by
      cases t with
      | nil => rfl
      | cons d t => simpa using ht d rfl
    have hsplit {u t : Text} (hu : ∀ d ∈ u, isBlank d = false)
        (ht : ∀ d ∈ t.head?, isBlank d = true) :
        (u ++ t).takeWhile (fun d => !isBlank d) = u ∧
          (u ++ t).dropWhile (fun d => !isBlank d) = t :=
      Line.takeWhile_dropWhile_append (fun d hd => by simp [hu d hd]) (hends ht)
    have hleft := hsplit hsolid.2 hstops
    have hright := hsplit hw hrest
    rw [show part ++ behind = w ++ rest from htext] at hleft
    obtain rfl : w = part := hright.1.symm.trans hleft.1
    obtain rfl : rest = behind := hright.2.symm.trans hleft.2
    exact .inl ⟨hsolid.1, rfl⟩
  · have hd : isBlank d = true := hstarts d (by simp)
    have hnot : d ∉ w := fun hmem => by simp [hw d hmem] at hd
    have hcut : w ++ rest = m ++ d :: (part ++ behind) := by simpa using htext.symm
    obtain ⟨m, rfl, hbehind⟩ := exists_eq_append_of_notMem hnot hcut
    exact .inr ⟨m, d, rfl, hbehind⟩

theorem isRun_iff (hw : ∀ d ∈ w, isBlank d = false) : r.IsRun w ↔ w ≠ [] ∧ r = ⟨[], w, []⟩ := by
  constructor
  · intro h
    rw [← List.append_nil w] at h
    rcases h.front_or_later hw (by simp) with hfront | ⟨m, d, -, hrest⟩
    · exact hfront
    · simp at hrest
  · rintro ⟨hne, rfl⟩
    exact ⟨by simp, ⟨hne, hw⟩, by simp, by simp⟩

/-- **The runs of a text** are the word in front of its first blank and the runs
of what stands behind it. -/
theorem isRun_append_iff (hw : ∀ d ∈ w, isBlank d = false) (hc : isBlank c = true) :
    r.IsRun (w ++ c :: s) ↔
      (w ≠ [] ∧ r = ⟨[], w, c :: s⟩) ∨ ∃ r' : Stretch, r'.IsRun s ∧ r = r'.after (w ++ [c]) := by
  have hhead : ∀ d ∈ (c :: s).head?, isBlank d = true := by simpa using hc
  constructor
  · intro h
    refine (h.front_or_later hw hhead).imp_right ?_
    rintro ⟨m, d, hbefore, hrest⟩
    obtain ⟨before, part, behind⟩ := r
    cases m with
    | nil =>
      obtain ⟨rfl, rfl⟩ := List.cons.inj hrest
      exact ⟨⟨[], part, behind⟩, ⟨rfl, h.solid, by simp, h.stops⟩, by simpa [after] using hbefore⟩
    | cons e m =>
      obtain ⟨rfl, rfl⟩ := List.cons.inj hrest
      obtain rfl : before = w ++ c :: m ++ [d] := hbefore
      have hstarts : ∀ e ∈ (m ++ [d]).getLast?, isBlank e = true := by
        simpa [List.getLast?_cons] using h.starts
      exact ⟨⟨m ++ [d], part, behind⟩, ⟨by simp, h.solid, hstarts, h.stops⟩, by simp [after]⟩
  · rintro (⟨hne, rfl⟩ | ⟨r', h, rfl⟩)
    · exact ⟨by simp, ⟨hne, hw⟩, by simp, hhead⟩
    · refine ⟨by simp [after, ← h.text], h.solid, fun d hd => ?_, h.stops⟩
      rcases List.eq_nil_or_concat' r'.before with hnil | ⟨m, e, hlast⟩
      · obtain rfl : c = d := by simpa [after, hnil] using hd
        exact hc
      · obtain rfl : e = d := by simpa [after, hlast, List.getLast?_cons] using hd
        exact h.starts e (by simp [hlast])

end Stretch

/-- **The words of a text are its maximal runs**, in the order in which they
stand there. -/
theorem exists_runs (s : Text) :
    ∃ runs : List Stretch, (∀ r, r ∈ runs ↔ r.IsRun s) ∧
      runs.Pairwise (fun r r' => r.before.length < r'.before.length) ∧
      runs.map Stretch.part = words s := by
  induction s using word_induction with
  | last w hw =>
    refine ⟨if w = [] then [] else [⟨[], w, []⟩], fun r => ?_, ?_, ?_⟩
    · rw [Stretch.isRun_iff hw]
      split <;> simp_all
    · split <;> simp
    · rw [words_of_forall hw]
      split <;> rfl
  | step w c s hw hc ih =>
    obtain ⟨runs, hmem, horder, hparts⟩ := ih
    refine ⟨(if w = [] then [] else [⟨[], w, c :: s⟩]) ++ runs.map (Stretch.after (w ++ [c])),
      fun r => ?_, ?_, ?_⟩
    · rw [Stretch.isRun_append_iff hw hc, List.mem_append, List.mem_map]
      simp only [hmem, eq_comm]
      split <;> simp_all
    · refine List.pairwise_append.2 ⟨by split <;> simp, ?_, ?_⟩
      · rw [List.pairwise_map]
        exact horder.imp fun h => by simpa [Stretch.after] using h
      · intro r hr r' hr'
        obtain ⟨later, -, rfl⟩ := List.mem_map.1 hr'
        split at hr
        · cases hr
        · obtain rfl := List.mem_singleton.1 hr
          simp only [Stretch.after, List.length_nil, List.length_append, List.length_singleton]
          omega
    · have hsame : (runs.map (Stretch.after (w ++ [c]))).map Stretch.part = words s := by
        rw [List.map_map, ← hparts]
        rfl
      rw [words_append_blank hc, words_of_forall hw, List.map_append, hsame]
      split <;> rfl

end Text

namespace Line

open Text

/-- **Cleaning joins the words in front of the comment.** A cleaned line is the
maximal runs of characters that are no blanks, in the part of the line in front
of its first comment sign and in the order in which they stand there, joined by
single spaces. So it has no comment sign, and no blank but single spaces between
other characters. It keeps all other characters of that part in their order,
cleaning it again changes nothing, and two lines are cleaned to the same text
exactly if they have the same words. -/
theorem clean_joins_words (raw : Text) :
    (∃ runs : List Stretch, (∀ r, r ∈ runs ↔ r.IsRun (beforeComment raw)) ∧
      runs.Pairwise (fun r r' => r.before.length < r'.before.length) ∧
      runs.map Stretch.part = words (beforeComment raw)) ∧
    clean raw = [' '].intercalate (words (beforeComment raw)) ∧
    '#' ∉ clean raw ∧
    (∀ before c behind, clean raw = before ++ c :: behind → isBlank c = true →
      c = ' ' ∧ (∃ a ∈ before.getLast?, isBlank a = false) ∧
        ∃ b ∈ behind.head?, isBlank b = false) ∧
    ((clean raw).filter fun c => !isBlank c) = (beforeComment raw).filter (fun c => !isBlank c) ∧
    clean (clean raw) = clean raw ∧
    ∀ other, clean raw = clean other ↔
      words (beforeComment raw) = words (beforeComment other) := by
  have hjoined (raw : Text) : clean raw = [' '].intercalate (words (beforeComment raw)) := by
    rw [clean_eq, squeeze_trim_eq]
  have hwords (raw : Text) : words (clean raw) = words (beforeComment raw) := by
    rw [hjoined, words_intercalate fun _ => solid_of_mem_words]
  refine ⟨exists_runs _, hjoined raw, fun hmem => (of_mem_clean hmem).1 rfl, ?_, ?_,
    clean_clean raw, fun other => ⟨fun h => ?_, fun h => ?_⟩⟩
  · intro before c behind h hc
    exact between_words (fun _ => solid_of_mem_words) hc ((hjoined raw).symm.trans h)
  · rw [← flatten_words, hwords, flatten_words]
  · rw [← hwords raw, h, hwords other]
  · rw [hjoined raw, h, ← hjoined other]

/-- A line with a tab, a wide space and one that does not break, with a carriage
return in front of the comment: its only blank stands between the two words,
and it is cleaned like a line that is spelt plainly. -/
theorem clean_joins_words_wide_blanks :
    let raw := "\t\u3000play\u00a0 <song> \r# now".toList
    let plain := "play <song>".toList
    words (beforeComment raw) = ["play".toList, "<song>".toList] ∧ clean raw = plain ∧
      (∃ a ∈ "play".toList.getLast?, isBlank a = false) ∧
      (∃ b ∈ "<song>".toList.head?, isBlank b = false) ∧ clean raw = clean plain := by
  intro raw plain
  obtain ⟨-, hjoined, -, hblank, -, -, hsame⟩ := clean_joins_words raw
  have hwords : words (beforeComment raw) = ["play".toList, "<song>".toList] := by decide +kernel
  have hclean : clean raw = plain := by rw [hjoined, hwords]; decide +kernel
  obtain ⟨-, hlast, hhead⟩ := hblank "play".toList ' ' "<song>".toList hclean (by decide)
  exact ⟨hwords, hclean, hlast, hhead, (hsame plain).2 (by decide +kernel)⟩

end Line

end Utterance
