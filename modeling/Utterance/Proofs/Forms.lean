import Utterance.Line.Grammar
import Utterance.Proofs.Cleaning
import Utterance.Proofs.Groups

/-!
# Forms — what the parts of lines may be

Names, types and language codes are made of ASCII letters, digits and a few
signs, so that they are words that cleaning leaves as they are. A keyword is read
where it is written (`Line.parse_keyword`). The forms of the other parts are said
without the parser, and what is read is shown to have them: a language code
(`Line.languageCode?_eq_some_iff`), a definition (`Line.definition?_append`,
`Line.definition?_eq_none_iff`), and a sentence, which has neither a keyword nor
the form of a definition (`Line.isSentence_iff`).
-/

namespace Utterance

/-! ## Words -/

/-- An identifier is read to its end. -/
theorem identifier?_eq_self_iff {name : Text} :
    identifier? name = some (name, []) ↔ IsIdentifier name := by
  rw [identifier?_eq_some, List.append_nil]
  exact ⟨fun h => h.2.1, fun h => ⟨rfl, h, rfl⟩⟩

namespace Line

theorem isTypeChar_of_isIdentChar {c : Char} (h : isIdentChar c = true) : isTypeChar c = true := by
  simp only [isIdentChar, Bool.or_eq_true] at h
  rcases h with (h | h) | h <;> simp [isTypeChar, h]

theorem range_of_isLower {c : Char} (h : c.isLower = true) : 97 ≤ c.toNat ∧ c.toNat ≤ 122 := by
  obtain ⟨hfirst, hlast⟩ := (Bool.and_eq_true_iff ..).1 h
  exact ⟨of_decide_eq_true hfirst, of_decide_eq_true hlast⟩

theorem range_of_isDigit {c : Char} (h : c.isDigit = true) : 48 ≤ c.toNat ∧ c.toNat ≤ 57 := by
  obtain ⟨hfirst, hlast⟩ := (Bool.and_eq_true_iff ..).1 h
  exact ⟨of_decide_eq_true hfirst, of_decide_eq_true hlast⟩

/-- The ranges of the letters and digits. -/
theorem range_of_isAlphanum {c : Char} (h : c.isAlphanum = true) :
    48 ≤ c.toNat ∧ c.toNat ≤ 57 ∨ 65 ≤ c.toNat ∧ c.toNat ≤ 90 ∨ 97 ≤ c.toNat ∧ c.toNat ≤ 122 := by
  have hclass : c.isAlpha = true ∨ c.isDigit = true := Bool.or_eq_true_iff.1 h
  rcases hclass with halpha | hdigit
  · have hcase : c.isUpper = true ∨ c.isLower = true := Bool.or_eq_true_iff.1 halpha
    rcases hcase with hupper | hlower
    · have hrange : 65 ≤ c.toNat ∧ c.toNat ≤ 90 := of_decide_eq_true hupper
      omega
    · have hrange := range_of_isLower hlower
      omega
  · have hrange := range_of_isDigit hdigit
    omega

/-- The characters of names, types and language codes are ASCII, and neither
blanks nor comment signs. -/
theorem of_isTypeChar {c : Char} (h : isTypeChar c = true) :
    c.toNat < 0x80 ∧ isBlank c = false ∧ c ≠ '#' := by
  simp only [isTypeChar, Bool.or_eq_true, beq_iff_eq] at h
  rcases h with ((h | rfl) | rfl) | rfl
  · have hrange := range_of_isAlphanum h
    refine ⟨by omega, ?_, ?_⟩
    · simp only [isBlank, Bool.or_eq_false_iff, Bool.and_eq_false_iff, decide_eq_false_iff_not,
        beq_eq_false_iff_ne]
      omega
    · rintro rfl
      revert hrange
      decide
  · decide
  · decide
  · decide

/-- A text of such characters is a word. -/
theorem isWord_of_isTypeChar {w : Text} (hne : w ≠ []) (h : ∀ c ∈ w, isTypeChar c = true) :
    IsWord w :=
  ⟨hne, fun c hc => (of_isTypeChar (h c hc)).2⟩

theorem isWord_of_isIdentifier {name : Text} (h : IsIdentifier name) : IsWord name := by
  have hne : name ≠ [] := by
    rintro rfl
    exact h
  exact isWord_of_isTypeChar hne fun c hc =>
    isTypeChar_of_isIdentChar (isIdentChar_of_isIdentifier h c hc)

theorem isWord_word (k : Keyword) : IsWord k.word := by
  cases k <;> decide

/-- A word in front of a clean text leaves it clean. -/
theorem clean_word_append_of_clean {w s : Text} (hw : IsWord w) (hs : clean s = s) (hne : s ≠ []) :
    clean (w ++ ' ' :: s) = w ++ ' ' :: s := by
  rw [clean_word_append hw, hs, if_neg hne]

/-- A clean text has no line feed. -/
theorem newline_not_mem_of_clean {s : Text} (hs : clean s = s) : '\n' ∉ s := by
  intro hmem
  rw [← hs] at hmem
  exact absurd ((of_mem_clean hmem).2 (by decide)) (by decide)

/-- A run of characters ends where one of another class follows. -/
theorem takeWhile_dropWhile_append {p : Char → Bool} {w rest : Text} (hw : ∀ c ∈ w, p c = true)
    (hrest : rest.head?.any p = false) :
    (w ++ rest).takeWhile p = w ∧ (w ++ rest).dropWhile p = rest := by
  rw [List.takeWhile_append_of_pos hw, List.dropWhile_append_of_pos hw]
  cases rest with
  | nil => simp
  | cons c rest =>
    have hc : p c = false := by simpa using hrest
    simp [hc]

/-! ## Keywords -/

/-- **A keyword is read where it is written.** -/
theorem parse_keyword (k : Keyword) (rest : Text) :
    parse (k.word ++ rest) = parseDeclaration k.word k rest := by
  have hupper : k.word.map Char.toUpper = k.word := by cases k <;> decide
  have hopens : Keyword.opens (k.word ++ rest) k = true := by
    rw [Keyword.opens_iff, List.map_append, hupper]
    exact List.prefix_append ..
  rw [parse, Keyword.leading?_eq_some_iff.2 hopens]
  simp only [List.take_left, List.drop_left]

/-- No letter has the colon as its upper case. -/
theorem toUpper_eq_colon {c : Char} (h : c.toUpper = ':') : c = ':' := by
  unfold Char.toUpper at h
  split at h
  · rename_i hlower
    have hrange : 97 ≤ c.val.toNat ∧ c.val.toNat ≤ 122 := hlower
    have hshift : ('A'.val - 'a'.val).toNat = 4294967264 := by decide
    have hcolon : ':'.val.toNat = 58 := by decide
    have hsum := congrArg (fun d : Char => d.val.toNat) h
    simp only [UInt32.toNat_add, hshift, hcolon] at hsum
    omega
  · exact h

/-- **No keyword begins a line** that has no colon in front of a sign that no
keyword has. -/
theorem leading?_eq_none {w : Text} (hw : ':' ∉ w) {sign : Char}
    (hsign : ∀ k : Keyword, sign.toUpper ∉ k.word) (rest : Text) :
    Keyword.leading? (w ++ sign :: rest) = none := by
  cases hleading : Keyword.leading? (w ++ sign :: rest) with
  | none => rfl
  | some k =>
    have hword : k.word <+: (w ++ sign :: rest).map Char.toUpper :=
      Keyword.opens_iff.1 (Keyword.leading?_eq_some_iff.1 hleading)
    have hfirst : (w ++ [sign]).map Char.toUpper <+: (w ++ sign :: rest).map Char.toUpper := by
      simp
    have hcolon : ':' ∈ k.word := by cases k <;> decide
    rcases List.prefix_or_prefix_of_prefix hword hfirst with hshort | hlong
    · -- the colon of the keyword would stand at the sign or in front of it
      obtain ⟨c, hc, hupper⟩ := List.mem_map.1 (hshort.subset hcolon)
      rcases List.mem_append.1 hc with hc | hc
      · exact absurd (toUpper_eq_colon hupper ▸ hc) hw
      · obtain rfl := List.mem_singleton.1 hc
        exact absurd hcolon (hupper ▸ hsign k)
    · -- the sign would stand in the keyword
      exact absurd (hlong.subset (by simp)) (hsign k)

/-! ## What the parts may be -/

/-- The name of a variable in lower case. -/
def IsVariableName (name : Text) : Prop :=
  name ≠ [] ∧ ∀ c ∈ name, (c.isLower || c.isDigit || c == '_' || c == '-') = true

/-- The name of a type. -/
def IsTypeName (type : Text) : Prop :=
  type ≠ [] ∧ ∀ c ∈ type, isTypeChar c = true

/-- A language code: letters, and then parts of letters and digits, each
after a hyphen. -/
def IsLanguageCode (code : Text) : Prop :=
  ∃ (letters : Text) (parts : List Text), letters ≠ [] ∧ (∀ c ∈ letters, c.isAlpha = true) ∧
    (∀ part ∈ parts, part ≠ [] ∧ ∀ c ∈ part, c.isAlphanum = true) ∧
    code = letters ++ parts.flatMap ('-' :: ·)

/-- The form of a definition: a name, spaces and an equals sign. -/
def IsDefinition (t : Text) : Prop :=
  ∃ name gap rest : Text, name ≠ [] ∧ (∀ c ∈ name, isIdentChar c = true) ∧ (∀ c ∈ gap, c = ' ') ∧
    t = name ++ gap ++ '=' :: rest

/-- A text that is read as a sentence: it is clean and not empty, and has
neither a keyword in front, in whatever case, nor the form of a definition. -/
structure IsSentence (t : Text) : Prop where
  /-- Cleaning leaves it as it is. -/
  clean : Line.clean t = t
  /-- It is not empty. -/
  ne_nil : t ≠ []
  /-- No keyword begins it. -/
  keyword : ∀ k : Keyword, ¬ k.word <+: t.map Char.toUpper
  /-- It has not the form of a definition. -/
  definition : ¬ IsDefinition t

instance : DecidablePred IsVariableName := fun name =>
  decidable_of_iff (name ≠ [] ∧
      name.all (fun c => c.isLower || c.isDigit || c == '_' || c == '-') = true)
    (by simp only [IsVariableName, List.all_eq_true])

instance : DecidablePred IsTypeName := fun type =>
  decidable_of_iff (type ≠ [] ∧ type.all isTypeChar = true)
    (by simp only [IsTypeName, List.all_eq_true])

theorem isIdentChar_of_isVariableName {name : Text} (h : IsVariableName name) :
    ∀ c ∈ name, isIdentChar c = true := by
  intro c hc
  have hclass := h.2 c hc
  simp only [Bool.or_eq_true] at hclass
  rcases hclass with ((hlower | hdigit) | hsign) | hsign
  · have halpha : c.isAlpha = true := Bool.or_eq_true_iff.2 (.inr hlower)
    simp [isIdentChar, Char.isAlphanum, halpha]
  · simp [isIdentChar, Char.isAlphanum, hdigit]
  · simp [isIdentChar, hsign]
  · simp [isIdentChar, hsign]

/-- The name of a variable in lower case is its own key. -/
theorem lower_of_isVariableName {name : Text} (h : IsVariableName name) : name.lower = name := by
  have hascii : ∀ c ∈ name, c.toNat < 0x80 := fun c hc =>
    (of_isTypeChar (isTypeChar_of_isIdentChar (isIdentChar_of_isVariableName h c hc))).1
  rw [Text.lower_of_ascii hascii]
  refine (List.map_congr_left fun c hc => ?_).trans (List.map_id name)
  have hclass := h.2 c hc
  simp only [Bool.or_eq_true, beq_iff_eq] at hclass
  have hupper : ¬ (65 ≤ c.toNat ∧ c.toNat ≤ 90) := by
    rcases hclass with ((hlower | hdigit) | rfl) | rfl
    · have hrange := range_of_isLower hlower
      omega
    · have hrange := range_of_isDigit hdigit
      omega
    · decide
    · decide
  exact dif_neg hupper

/-- **A definition is read** from its name, spaces and equals sign. -/
theorem definition?_append {name gap : Text} (hne : name ≠ [])
    (hname : ∀ c ∈ name, isIdentChar c = true) (hgap : ∀ c ∈ gap, c = ' ') (rest : Text) :
    definition? (name ++ (gap ++ '=' :: rest)) =
      some (.definition name gap ⟨(spaces rest).1, (spaces rest).2⟩) := by
  have hends : (gap ++ '=' :: rest).head?.any isIdentChar = false := by
    cases gap with
    | nil => rfl
    | cons c gap =>
      obtain rfl := hgap c (by simp)
      rfl
  have hspace : ∀ c ∈ gap, (c == ' ') = true := fun c hc => beq_of_eq (hgap c hc)
  have hsign : ('=' :: rest).head?.any (· == ' ') = false := rfl
  obtain ⟨htake, hdrop⟩ := takeWhile_dropWhile_append hname hends
  obtain ⟨htakeGap, hdropGap⟩ := takeWhile_dropWhile_append hspace hsign
  have hspaces : spaces (gap ++ '=' :: rest) = (gap, '=' :: rest) := Prod.ext htakeGap hdropGap
  obtain ⟨c, name, rfl⟩ := List.exists_cons_of_ne_nil hne
  simp only [definition?, htake, hdrop, hspaces]

theorem parse_definition {name gap : Text} (hne : name ≠ [])
    (hname : ∀ c ∈ name, isIdentChar c = true) (hgap : ∀ c ∈ gap, c = ' ') (rest : Text) :
    parse (name ++ (gap ++ '=' :: rest)) =
      .ok (.definition name gap ⟨(spaces rest).1, (spaces rest).2⟩) := by
  have hcolon : ':' ∉ name ++ gap := by
    intro hmem
    rcases List.mem_append.1 hmem with hmem | hmem
    · exact absurd (hname ':' hmem) (by decide)
    · exact absurd (hgap ':' hmem) (by decide)
  have hsign (k : Keyword) : '='.toUpper ∉ k.word := by
    cases k <;> decide
  have hleading := leading?_eq_none hcolon hsign rest
  rw [List.append_assoc] at hleading
  rw [parse, hleading, definition?_append hne hname hgap]

/-- **What has the form of a definition** is read as one, and nothing else
is. -/
theorem definition?_eq_none_iff {t : Text} : definition? t = none ↔ ¬ IsDefinition t := by
  constructor
  · rintro hnone ⟨name, gap, rest, hne, hname, hgap, rfl⟩
    rw [List.append_assoc, definition?_append hne hname hgap] at hnone
    cases hnone
  · intro h
    unfold definition?
    split
    · rfl
    · rename_i hname
      split
      · rename_i beforeSign rest hspaces
        have hsplit := spaces_append (t.dropWhile isIdentChar)
        have hgap : (t.dropWhile isIdentChar).takeWhile (· == ' ') = beforeSign :=
          congrArg Prod.fst hspaces
        rw [hspaces] at hsplit
        refine absurd ⟨t.takeWhile isIdentChar, beforeSign, rest, hname, fun c hc =>
          List.mem_takeWhile_imp hc, fun c hc => ?_, ?_⟩ h
        · rw [← hgap] at hc
          simpa using List.mem_takeWhile_imp hc
        · rw [List.append_assoc, hsplit, List.takeWhile_append_dropWhile]
      · rfl

instance : DecidablePred IsDefinition := fun t =>
  decidable_of_iff (¬ definition? t = none) (by rw [definition?_eq_none_iff, not_not])

/-- The parts of a language code are read to their end. -/
theorem languageParts_flatMap {parts : List Text}
    (h : ∀ part ∈ parts, part ≠ [] ∧ ∀ c ∈ part, c.isAlphanum = true) :
    languageParts (parts.flatMap ('-' :: ·)) = (parts.flatMap ('-' :: ·), []) := by
  induction parts with
  | nil => simp [languageParts]
  | cons part parts ih =>
    obtain ⟨hne, halnum⟩ := h part (by simp)
    have hend : (parts.flatMap ('-' :: ·)).head?.any Char.isAlphanum = false := by
      cases parts with
      | nil => rfl
      | cons next parts => simp
    obtain ⟨htake, hdrop⟩ := takeWhile_dropWhile_append halnum hend
    have hrest := ih fun p hp => h p (by simp [hp])
    rw [List.flatMap_cons, List.cons_append, languageParts]
    split
    · rename_i hnil
      exact absurd (htake.symm.trans hnil) hne
    · rw [htake, hdrop, hrest]
      rfl

/-- What is read behind the letters is made of parts. -/
theorem languageParts_eq_flatMap (s : Text) :
    ∃ parts : List Text, (∀ part ∈ parts, part ≠ [] ∧ ∀ c ∈ part, c.isAlphanum = true) ∧
      (languageParts s).1 = parts.flatMap ('-' :: ·) := by
  fun_induction languageParts s with
  | case1 => exact ⟨[], by simp, rfl⟩
  | case2 r more rest hr hne ih =>
    obtain ⟨parts, hparts, hmore⟩ := ih
    have hpart : r.takeWhile Char.isAlphanum ≠ [] ∧
        ∀ c ∈ r.takeWhile Char.isAlphanum, c.isAlphanum = true :=
      ⟨hne, fun c hc => List.mem_takeWhile_imp hc⟩
    refine ⟨r.takeWhile Char.isAlphanum :: parts, List.forall_mem_cons.2 ⟨hpart, hparts⟩, ?_⟩
    rw [hr] at hmore
    exact congrArg ('-' :: r.takeWhile Char.isAlphanum ++ ·) hmore
  | case3 => exact ⟨[], by simp, rfl⟩

/-- **A language code** is read to its end, and nothing else is. -/
theorem languageCode?_eq_some_iff {code : Text} :
    languageCode? code = some (code, []) ↔ IsLanguageCode code := by
  constructor
  · intro hread
    unfold languageCode? at hread
    split at hread
    · cases hread
    · rename_i hne
      obtain ⟨parts, hparts, hmore⟩ := languageParts_eq_flatMap (code.dropWhile Char.isAlpha)
      have hcode := congrArg Prod.fst (Option.some.inj hread)
      refine ⟨code.takeWhile Char.isAlpha, parts, hne, fun c hc => List.mem_takeWhile_imp hc,
        hparts, ?_⟩
      rw [← hmore]
      exact hcode.symm
  · rintro ⟨letters, parts, hne, halpha, hparts, rfl⟩
    have hend : (parts.flatMap ('-' :: ·)).head?.any Char.isAlpha = false := by
      cases parts with
      | nil => rfl
      | cons next parts => simp
    obtain ⟨htake, hdrop⟩ := takeWhile_dropWhile_append halpha hend
    obtain ⟨c, letters, rfl⟩ := List.exists_cons_of_ne_nil hne
    simp only [languageCode?, htake, hdrop, languageParts_flatMap hparts]

instance : DecidablePred IsLanguageCode := fun _ => decidable_of_iff _ languageCode?_eq_some_iff

theorem isTypeChar_of_isLanguageCode {code : Text} (h : IsLanguageCode code) :
    ∀ c ∈ code, isTypeChar c = true := by
  obtain ⟨letters, parts, -, halpha, hparts, rfl⟩ := h
  intro c hc
  rcases List.mem_append.1 hc with hc | hc
  · simp [isTypeChar, Char.isAlphanum, halpha c hc]
  · obtain ⟨part, hpart, hc⟩ := List.mem_flatMap.1 hc
    rcases List.mem_cons.1 hc with rfl | hc
    · decide
    · simp [isTypeChar, (hparts part hpart).2 c hc]

theorem isWord_of_isLanguageCode {code : Text} (h : IsLanguageCode code) : IsWord code := by
  have hne : code ≠ [] := by
    obtain ⟨letters, parts, hne, -, -, rfl⟩ := h
    simp [hne]
  exact isWord_of_isTypeChar hne (isTypeChar_of_isLanguageCode h)

/-- **A text is a sentence** if it is clean and not empty, and neither a
keyword nor a definition is read from it. -/
theorem isSentence_iff {t : Text} :
    IsSentence t ↔
      clean t = t ∧ t ≠ [] ∧ Keyword.leading? t = none ∧ definition? t = none := by
  have hkeyword : Keyword.leading? t = none ↔ ∀ k : Keyword, ¬ k.word <+: t.map Char.toUpper := by
    rw [Option.eq_none_iff_forall_ne_some]
    simp only [ne_eq, Keyword.leading?_eq_some_iff, Keyword.opens_iff]
  rw [hkeyword, definition?_eq_none_iff]
  exact ⟨fun h => ⟨h.clean, h.ne_nil, h.keyword, h.definition⟩,
    fun ⟨hclean, hne, hleading, hdefinition⟩ => ⟨hclean, hne, hleading, hdefinition⟩⟩

instance : DecidablePred IsSentence := fun _ => decidable_of_iff _ isSentence_iff.symm

end Line

/-- The keyword that opens a collection of a kind. -/
def Kind.keyword : Kind → Keyword
  | .intent => .intent
  | .entity => .entity

end Utterance
