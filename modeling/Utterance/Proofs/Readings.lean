import Utterance.Proofs.Declarations
import Utterance.Proofs.Forms

/-!
# Readings — what a cleaned line says

What a declaration has to look like is said here without the parser: which
parts stand behind the keyword, which characters they are made of, and that
spaces may stand between them (`Keyword.Declares`). A line with a keyword parses
exactly when what stands behind the keyword has the keyword's form
(`Line.parse_eq_ok_iff_declares`). A line without one is a definition if it has
the form of one, and otherwise a sentence (`Line.parse_eq_ok_iff_means`), so that
only a malformed declaration can fail to parse. Whatever else is wrong with a
line of a source is that it stands in the wrong place
(`Source.fault_ne_unrecognized`).
-/

namespace Utterance

/-! ## Parts -/

/-- Spaces, or none. -/
def IsGap (gap : Text) : Prop :=
  ∀ c ∈ gap, c = ' '

/-- A text that is not empty and does not begin with a space. -/
def IsPart (text : Text) : Prop :=
  text ≠ [] ∧ text.head? ≠ some ' '

/-- Spaces with something of a form behind them. -/
structure Spaced.Holds (form : Text → Prop) (part : Spaced) : Prop where
  /-- In front there are only spaces. -/
  gap : IsGap part.gap
  /-- What stands behind them has the form. -/
  text : form part.text

namespace Line

/-- The spaces at the head of a text are all that stand there. -/
theorem spaces_eq_iff {s gap r : Text} :
    spaces s = (gap, r) ↔ s = gap ++ r ∧ IsGap gap ∧ r.head? ≠ some ' ' := by
  constructor
  · intro h
    have hsplit := spaces_append s
    rw [h] at hsplit
    obtain ⟨rfl, rfl⟩ := Prod.mk.inj h
    refine ⟨hsplit.symm, fun c hc => by simpa using List.mem_takeWhile_imp hc, fun hhead => ?_⟩
    have hends := List.head?_dropWhile_not (· == ' ') s
    rw [hhead] at hends
    cases hends
  · rintro ⟨rfl, hgap, hhead⟩
    have hends : r.head?.any (· == ' ') = false := by
      cases r with
      | nil => rfl
      | cons c r => simpa using hhead
    obtain ⟨htake, hdrop⟩ :=
      takeWhile_dropWhile_append (fun c hc => beq_of_eq (hgap c hc)) hends
    exact Prod.ext htake hdrop

/-- What a class ends in front of, it ends in front of spaces and that. -/
theorem any_head?_gap_append {p : Char → Bool} {gap s : Text} (hgap : IsGap gap)
    (hspace : p ' ' = false) (hs : s.head?.any p = false) : (gap ++ s).head?.any p = false := by
  cases gap with
  | nil => exact hs
  | cons c gap =>
    obtain rfl := hgap c (by simp)
    simpa using hspace

/-- A part is found behind its spaces. -/
theorem spaces_full_append {part : Spaced} {form : Text → Prop} (h : part.Holds form)
    (hpart : IsPart part.text) (s : Text) :
    spaces (part.full ++ s) = (part.gap, part.text ++ s) := by
  refine spaces_eq_iff.2 ⟨List.append_assoc .., h.gap, ?_⟩
  rw [List.head?_append_of_ne_nil _ hpart.1]
  exact hpart.2

/-- No space begins a text whose characters are all of a class without it. -/
theorem isPart_of_forall {p : Char → Bool} (hspace : p ' ' = false) {s : Text} (hne : s ≠ [])
    (h : ∀ c ∈ s, p c = true) : IsPart s := by
  refine ⟨hne, fun hhead => ?_⟩
  rw [h ' ' (List.mem_of_head? hhead)] at hspace
  cases hspace

theorem IsTypeName.isPart {type : Text} (h : IsTypeName type) : IsPart type :=
  isPart_of_forall (by decide) h.1 h.2

theorem IsLanguageCode.isPart {code : Text} (h : IsLanguageCode code) : IsPart code :=
  isPart_of_forall (by decide) (isWord_of_isLanguageCode h).1 (isTypeChar_of_isLanguageCode h)

/-- The keyword of a declaration. -/
def keyword? : Line → Option Keyword
  | invocation _ _ => some .invocation
  | language _ _ => some .language
  | opening kind _ _ => some kind.keyword
  | slot _ _ _ _ _ _ => some .slot
  | definition _ _ _ => none
  | sentence _ => none

end Line

theorem IsIdentifier.isPart {name : Text} (h : IsIdentifier name) : IsPart name :=
  Line.isPart_of_forall (by decide) (Line.isWord_of_isIdentifier h).1
    (isIdentChar_of_isIdentifier h)

/-! ## Declarations -/

/-- What stands behind the name of a slot and its spaces: the type after a
colon, spaces, and the example after a tilde. -/
def Slot.tail (type : Option Spaced) (beforeExample : Text) («example» : Option Spaced) : Text :=
  (type.map fun t => ':' :: t.full).getD [] ++ beforeExample ++
    (example.map fun e => '~' :: e.full).getD []

/-- The parts behind the name of a slot have their form. Without a type there
are no spaces to set the example apart from it. -/
structure Slot.IsTail (type : Option Spaced) (beforeExample : Text) («example» : Option Spaced) :
    Prop where
  /-- The type, if there is one, is the name of a type. -/
  isTypeName : ∀ t ∈ type, t.Holds Line.IsTypeName
  /-- Spaces stand in front of the example. -/
  isGap : IsGap beforeExample
  /-- They stand behind a type. -/
  gap_eq_nil : type = none → beforeExample = []
  /-- The example, if there is one, is any text. -/
  isPart : ∀ e ∈ «example», e.Holds IsPart

/-- **What a keyword declares**, by what stands behind it. The keyword is
remembered as it was written. -/
inductive Keyword.Declares (written : Text) : Keyword → Text → Line → Prop where
  /-- An invocation name is any text. -/
  | invocation {name : Spaced} (hname : name.Holds IsPart) :
      Declares written .invocation name.full (.invocation written name)
  /-- A language is a language code. -/
  | language {code : Spaced} (hcode : code.Holds Line.IsLanguageCode) :
      Declares written .language code.full (.language written code)
  /-- An intent has an identifier. -/
  | intent {name : Spaced} (hname : name.Holds IsIdentifier) :
      Declares written .intent name.full (.opening .intent written name)
  /-- An entity has an identifier. -/
  | entity {name : Spaced} (hname : name.Holds IsIdentifier) :
      Declares written .entity name.full (.opening .entity written name)
  /-- A slot has an identifier, and it may have a type and an example. -/
  | slot {name : Spaced} {beforeType : Text} {type : Option Spaced} {beforeExample : Text}
      {«example» : Option Spaced} (hname : name.Holds IsIdentifier) (hgap : IsGap beforeType)
      (htail : Slot.IsTail type beforeExample «example») :
      Declares written .slot (name.full ++ beforeType ++ Slot.tail type beforeExample «example»)
        (.slot written name beforeType type beforeExample «example»)

theorem Keyword.Declares.keyword? {written rest : Text} {k : Keyword} {l : Line}
    (h : k.Declares written rest l) : l.keyword? = some k := by
  cases h <;> rfl

theorem Keyword.Declares.exists_opened? {written rest : Text} {kind : Kind} {l : Line}
    (h : kind.keyword.Declares written rest l) : ∃ name, l.opened? = some (kind, name) := by
  cases kind <;> cases h <;> exact ⟨_, rfl⟩

namespace Line

variable {written rest : Text} {l : Line}

/-- **An example is read** as it is declared. -/
theorem parseExample_eq_ok_iff {name : Spaced} {beforeType : Text} {type : Option Spaced}
    {beforeExample : Text} {otherwise : Expected} :
    parseExample written name beforeType type beforeExample otherwise rest = .ok l ↔
      ∃ «example» : Option Spaced, (∀ e ∈ «example», e.Holds IsPart) ∧
        rest = (example.map fun e => '~' :: e.full).getD [] ∧
        l = .slot written name beforeType type beforeExample «example» := by
  constructor
  · intro h
    unfold parseExample at h
    split at h
    case h_1 => exact ⟨none, by simp, rfl, (Except.ok.inj h).symm⟩
    case h_2 r =>
      split at h
      · cases h
      · rename_i gap text hne hspaces
        obtain ⟨rfl, hgap, hhead⟩ := spaces_eq_iff.1 hspaces
        have hpart : Spaced.Holds IsPart ⟨gap, text⟩ := ⟨hgap, hne, hhead⟩
        exact ⟨some ⟨gap, text⟩, by simpa using hpart, rfl, (Except.ok.inj h).symm⟩
    case h_3 => cases h
  · rintro ⟨«example», hexample, rfl, rfl⟩
    cases «example» with
    | none => rfl
    | some e =>
      obtain ⟨gap, text⟩ := e
      obtain ⟨hgap, hne, hhead⟩ := hexample _ rfl
      have hspaces : spaces (gap ++ text) = (gap, text) := spaces_eq_iff.2 ⟨rfl, hgap, hhead⟩
      obtain ⟨c, text, rfl⟩ := List.exists_cons_of_ne_nil hne
      simp only [Option.map_some, Option.getD_some, Spaced.full, parseExample, hspaces]

/-- What stands behind the name of a slot begins with a sign. -/
theorem any_head?_tail {type : Option Spaced} {beforeExample : Text} {«example» : Option Spaced}
    (h : Slot.IsTail type beforeExample «example») {p : Char → Bool} (hcolon : p ':' = false)
    (htilde : p '~' = false) : (Slot.tail type beforeExample «example»).head?.any p = false := by
  cases type with
  | some type => simpa [Slot.tail] using hcolon
  | none =>
    obtain rfl := h.gap_eq_nil rfl
    cases «example» with
    | none => rfl
    | some e => simpa [Slot.tail] using htilde

/-- **The rest of a slot is read** as it is declared. -/
theorem parseSlot_eq_ok_iff {name : Spaced} {beforeType : Text} :
    parseSlot written name beforeType rest = .ok l ↔
      ∃ type beforeExample «example», Slot.IsTail type beforeExample «example» ∧
        rest = Slot.tail type beforeExample «example» ∧
        l = .slot written name beforeType type beforeExample «example» := by
  constructor
  · intro h
    unfold parseSlot at h
    split at h
    case h_1 r =>
      split at h
      rename_i gap r hspaces
      obtain ⟨rfl, hgap, -⟩ := spaces_eq_iff.1 hspaces
      split at h
      · cases h
      · rename_i hne
        split at h
        rename_i beforeExample rest hrest
        obtain ⟨hsplit, hbefore, -⟩ := spaces_eq_iff.1 hrest
        obtain ⟨«example», hexample, rfl, rfl⟩ := parseExample_eq_ok_iff.1 h
        have htype : Spaced.Holds IsTypeName ⟨gap, r.takeWhile isTypeChar⟩ :=
          ⟨hgap, hne, fun c hc => List.mem_takeWhile_imp hc⟩
        refine ⟨some ⟨gap, r.takeWhile isTypeChar⟩, beforeExample, «example»,
          ⟨by simpa using htype, hbefore, by simp, hexample⟩, ?_, rfl⟩
        have hr : r = r.takeWhile isTypeChar ++ r.dropWhile isTypeChar :=
          List.takeWhile_append_dropWhile.symm
        rw [hsplit] at hr
        simpa [Slot.tail, Spaced.full] using hr
    case h_2 =>
      obtain ⟨«example», hexample, rfl, rfl⟩ := parseExample_eq_ok_iff.1 h
      exact ⟨none, [], «example», ⟨by simp, by simp [IsGap], by simp, hexample⟩, rfl, rfl⟩
  · rintro ⟨type, beforeExample, «example», htail, rfl, rfl⟩
    have hexample : ∀ otherwise type beforeExample, parseExample written name beforeType type
        beforeExample otherwise ((example.map fun e => '~' :: e.full).getD []) =
          .ok (.slot written name beforeType type beforeExample «example») := fun _ _ _ =>
      parseExample_eq_ok_iff.2 ⟨«example», htail.isPart, rfl, rfl⟩
    cases type with
    | none =>
      obtain rfl := htail.gap_eq_nil rfl
      cases «example» with
      | none => rfl
      | some e => exact hexample ⟨[.endOfLine, .slotType, .slotExample]⟩ none []
    | some type =>
      have htype := htail.isTypeName type rfl
      let after := (example.map fun e => '~' :: e.full).getD []
      have hafter : ∀ c ∈ after.head?, c = '~' := by
        cases «example» <;> simp [after]
      have hends : (beforeExample ++ after).head?.any isTypeChar = false := by
        refine any_head?_gap_append htail.isGap (by decide)
          ((Option.any_eq_false ..).2 fun c hc => ?_)
        rw [hafter c hc]
        decide
      obtain ⟨htake, hdrop⟩ := takeWhile_dropWhile_append htype.text.2 hends
      have hspace : spaces (beforeExample ++ after) = (beforeExample, after) :=
        spaces_eq_iff.2 ⟨rfl, htail.isGap, fun hhead => absurd (hafter _ hhead) (by decide)⟩
      have htext : Slot.tail (some type) beforeExample «example» =
          ':' :: (type.full ++ (beforeExample ++ after)) := by
        simp [Slot.tail, after]
      rw [htext]
      simp only [parseSlot, spaces_full_append htype htype.text.isPart, htake, hdrop, hspace]
      split
      · rename_i hnil
        exact absurd hnil htype.text.1
      · exact hexample ..

/-- The name of a collection is read as it is declared. -/
theorem parseOpening_eq_ok_iff {kind : Kind} {gap r : Text} :
    parseDeclaration.parseOpening written kind gap r = .ok l ↔
      IsIdentifier r ∧ l = .opening kind written ⟨gap, r⟩ := by
  constructor
  · intro h
    unfold parseDeclaration.parseOpening at h
    split at h
    · cases h
    · rename_i hname
      obtain ⟨rfl, hname, -⟩ := identifier?_eq_some.1 hname
      rw [List.append_nil]
      exact ⟨hname, (Except.ok.inj h).symm⟩
    · cases h
  · rintro ⟨hname, rfl⟩
    have hread : identifier? r = some (r, []) := identifier?_eq_self_iff.2 hname
    simp only [parseDeclaration.parseOpening, hread]

/-- A declaration that is read has the form of its keyword. -/
theorem declares_of_parseDeclaration {k : Keyword}
    (h : parseDeclaration written k rest = .ok l) : k.Declares written rest l := by
  rcases hspaces : spaces rest with ⟨gap, r⟩
  obtain ⟨rfl, hgap, hhead⟩ := spaces_eq_iff.1 hspaces
  simp only [parseDeclaration, hspaces] at h
  cases k with
  | invocation =>
    dsimp only at h
    split at h
    · cases h
    · rename_i hne
      obtain rfl := Except.ok.inj h
      have hname : Spaced.Holds IsPart ⟨gap, r⟩ := ⟨hgap, by simpa using hne, hhead⟩
      exact .invocation hname
  | language =>
    dsimp only at h
    split at h
    · cases h
    · rename_i code hcode
      obtain rfl := Except.ok.inj h
      obtain rfl : r = code := by simpa using eq_of_languageCode? hcode
      have hcode : Spaced.Holds IsLanguageCode ⟨gap, r⟩ :=
        ⟨hgap, languageCode?_eq_some_iff.1 hcode⟩
      exact .language hcode
    · cases h
  | intent =>
    obtain ⟨hname, rfl⟩ := parseOpening_eq_ok_iff.1 h
    have hname : Spaced.Holds IsIdentifier ⟨gap, r⟩ := ⟨hgap, hname⟩
    exact .intent hname
  | entity =>
    obtain ⟨hname, rfl⟩ := parseOpening_eq_ok_iff.1 h
    have hname : Spaced.Holds IsIdentifier ⟨gap, r⟩ := ⟨hgap, hname⟩
    exact .entity hname
  | slot =>
    dsimp only at h
    split at h
    · cases h
    · rename_i name r hread
      obtain ⟨rfl, hname, -⟩ := identifier?_eq_some.1 hread
      rcases hbetween : spaces r with ⟨beforeType, rest⟩
      obtain ⟨rfl, hbefore, -⟩ := spaces_eq_iff.1 hbetween
      rw [hbetween] at h
      obtain ⟨type, beforeExample, «example», htail, rfl, rfl⟩ := parseSlot_eq_ok_iff.1 h
      have hname : Spaced.Holds IsIdentifier ⟨gap, name⟩ := ⟨hgap, hname⟩
      have hslot : Keyword.slot.Declares written _ _ := .slot hname hbefore htail
      simpa [Spaced.full] using hslot

/-- What has the form of its keyword is read. -/
theorem parseDeclaration_of_declares {k : Keyword} (h : k.Declares written rest l) :
    parseDeclaration written k rest = .ok l := by
  have hspaces {part : Spaced} {form : Text → Prop} (hpart : part.Holds form)
      (hform : IsPart part.text) : spaces part.full = (part.gap, part.text) := by
    simpa using spaces_full_append hpart hform []
  cases h with
  | invocation hname =>
    have hne := hname.text.1
    simp [parseDeclaration, hspaces hname hname.text, hne]
  | language hcode =>
    simp only [parseDeclaration, hspaces hcode hcode.text.isPart,
      languageCode?_eq_some_iff.2 hcode.text]
  | intent hname =>
    simp only [parseDeclaration, hspaces hname hname.text.isPart]
    exact parseOpening_eq_ok_iff.2 ⟨hname.text, rfl⟩
  | entity hname =>
    simp only [parseDeclaration, hspaces hname hname.text.isPart]
    exact parseOpening_eq_ok_iff.2 ⟨hname.text, rfl⟩
  | @slot name beforeType type beforeExample «example» hname hgap htail =>
    let after := Slot.tail type beforeExample «example»
    have hends : continuesIdentifier (beforeType ++ after) = false :=
      any_head?_gap_append hgap (by decide) (any_head?_tail htail (by decide) (by decide))
    have hread : identifier? (name.text ++ (beforeType ++ after)) =
        some (name.text, beforeType ++ after) :=
      identifier?_eq_some.2 ⟨rfl, hname.text, hends⟩
    have hbetween : spaces (beforeType ++ after) = (beforeType, after) := by
      refine spaces_eq_iff.2 ⟨rfl, hgap, fun hhead => ?_⟩
      have hspace : after.head?.any (· == ' ') = false :=
        any_head?_tail htail (by decide) (by decide)
      rw [hhead] at hspace
      cases hspace
    rw [List.append_assoc]
    simp only [parseDeclaration, spaces_full_append hname hname.text.isPart, hread, hbetween,
      after]
    exact parseSlot_eq_ok_iff.2 ⟨type, beforeExample, «example», htail, rfl, rfl⟩

/-- **A declaration is read** exactly when it has the form of its keyword. -/
theorem parseDeclaration_eq_ok_iff {k : Keyword} :
    parseDeclaration written k rest = .ok l ↔ k.Declares written rest l :=
  ⟨declares_of_parseDeclaration, parseDeclaration_of_declares⟩

/-! ## Lines -/

/-- What the form of a definition defines: the name, and the text without the
spaces in front of it. -/
inductive Defines : Text → Line → Prop where
  /-- Around the equals sign there may be spaces. -/
  | intro {name beforeSign : Text} (text : Spaced) (hne : name ≠ [])
      (hname : ∀ c ∈ name, isIdentChar c = true) (hbefore : IsGap beforeSign)
      (hgap : IsGap text.gap) (htext : text.text.head? ≠ some ' ') :
      Defines (name ++ beforeSign ++ '=' :: text.full) (.definition name beforeSign text)

/-- **What a line without a keyword says**: what it defines, or itself. -/
inductive Means (t : Text) : Line → Prop where
  /-- A definition. -/
  | definition {l : Line} (h : Defines t l) : Means t l
  /-- Any other line is a sentence. -/
  | sentence (h : ¬ IsDefinition t) : Means t (.sentence t)

variable {t : Text}

/-- What has the form of a definition defines something. -/
theorem exists_defines (h : IsDefinition t) : ∃ l, Defines t l := by
  obtain ⟨name, beforeSign, rest, hne, hname, hbefore, rfl⟩ := h
  rcases hspaces : spaces rest with ⟨gap, r⟩
  obtain ⟨rfl, hgap, hhead⟩ := spaces_eq_iff.1 hspaces
  exact ⟨_, .intro ⟨gap, r⟩ hne hname hbefore hgap hhead⟩

theorem Means.of_sentence {text : Text} (h : Means t (.sentence text)) :
    text = t ∧ ¬ IsDefinition t := by
  rcases h with ⟨⟨⟩⟩ | h
  exact ⟨rfl, h⟩

theorem Means.keyword? (h : Means t l) : l.keyword? = none := by
  rcases h with ⟨⟨⟩⟩ | _ <;> rfl

/-- **A line with a keyword** is read exactly when the keyword declares what
stands behind it, and then as that. -/
theorem parse_eq_ok_iff_declares {k : Keyword} (h : Keyword.leading? t = some k) :
    parse t = .ok l ↔ k.Declares (t.take k.word.length) (t.drop k.word.length) l := by
  rw [parse, h]
  exact parseDeclaration_eq_ok_iff

/-- What has the form of a definition is read as one. -/
theorem parse_of_defines (h : Defines t l) : parse t = .ok l := by
  obtain ⟨text, hne, hname, hbefore, hgap, htext⟩ := h
  have hspaces : spaces text.full = (text.gap, text.text) := spaces_eq_iff.2 ⟨rfl, hgap, htext⟩
  rw [List.append_assoc, parse_definition hne hname hbefore, hspaces]

/-- A line with a keyword has not the form of a definition. -/
theorem not_isDefinition_of_leading? {k : Keyword} (h : Keyword.leading? t = some k) :
    ¬ IsDefinition t := by
  intro hdefinition
  obtain ⟨l, hl⟩ := exists_defines hdefinition
  have hnone : l.keyword? = none := (Means.definition hl).keyword?
  rw [((parse_eq_ok_iff_declares h).1 (parse_of_defines hl)).keyword?] at hnone
  cases hnone

/-- **A line without a keyword** is always read: as a definition if it has the
form of one, and otherwise as a sentence. -/
theorem exists_means (t : Text) : ∃ l, Means t l := by
  by_cases h : IsDefinition t
  · obtain ⟨l, hl⟩ := exists_defines h
    exact ⟨l, .definition hl⟩
  · exact ⟨.sentence t, .sentence h⟩

theorem parse_of_means (hne : t ≠ []) (h : Keyword.leading? t = none) (hl : Means t l) :
    parse t = .ok l := by
  cases hl with
  | definition hl => exact parse_of_defines hl
  | sentence hnot =>
    have hempty : t.isEmpty = false := by simpa using hne
    rw [parse, h, definition?_eq_none_iff.2 hnot, hempty]
    rfl

theorem parse_eq_ok_iff_means (hne : t ≠ []) (h : Keyword.leading? t = none) :
    parse t = .ok l ↔ Means t l := by
  refine ⟨fun hparse => ?_, parse_of_means hne h⟩
  obtain ⟨meant, hmeant⟩ := exists_means t
  rw [parse_of_means hne h hmeant] at hparse
  exact Except.ok.inj hparse ▸ hmeant

/-- **A line that is read** has a keyword, which declares it, or it has none and
is what it means. -/
theorem declares_or_means_of_parse (h : parse t = .ok l) :
    (∃ k, Keyword.leading? t = some k ∧
      k.Declares (t.take k.word.length) (t.drop k.word.length) l) ∨
    t ≠ [] ∧ Keyword.leading? t = none ∧ Means t l := by
  cases hleading : Keyword.leading? t with
  | some k => exact .inl ⟨k, rfl, (parse_eq_ok_iff_declares hleading).1 h⟩
  | none =>
    have hne : t ≠ [] := by
      rintro rfl
      rw [parse_nil] at h
      cases h
    exact .inr ⟨hne, rfl, (parse_eq_ok_iff_means hne hleading).1 h⟩

/-- A line is read with the keyword it begins with, or without any. -/
theorem keyword?_of_parse (h : parse t = .ok l) : l.keyword? = Keyword.leading? t := by
  rcases declares_or_means_of_parse h with ⟨k, hleading, hdeclares⟩ | ⟨-, hleading, hmeans⟩
  · rw [hleading, hdeclares.keyword?]
  · rw [hleading, hmeans.keyword?]

/-- Only a line with a keyword is not read. -/
theorem exists_leading?_of_parse_error {expected : Expected} (hne : t ≠ [])
    (h : parse t = .error expected) : ∃ k, Keyword.leading? t = some k := by
  cases hleading : Keyword.leading? t with
  | some k => exact ⟨k, rfl⟩
  | none =>
    obtain ⟨l, hl⟩ := exists_means t
    rw [parse_of_means hne hleading hl] at h
    cases h

end Line

/-! ## Loads -/

namespace Line

variable {current : Option (Kind × Text)} {t : Text}

/-- What is wrong with a line that is read. -/
theorem cleanedFault?_of_ok {l : Line} (h : parse t = .ok l) :
    cleanedFault? current t = l.fault? current := by
  cases t with
  | nil =>
    rw [parse_nil] at h
    cases h
  | cons c t => simp [cleanedFault?, h]

/-- What is wrong with a line that is not read is that it has not the form of its
keyword. -/
theorem cleanedFault?_of_error (current : Option (Kind × Text)) {expected : Expected}
    (hne : t ≠ []) (h : parse t = .error expected) :
    ∃ k, Keyword.leading? t = some k ∧ cleanedFault? current t = some (.malformed k expected) := by
  obtain ⟨k, hk⟩ := exists_leading?_of_parse_error hne h
  exact ⟨k, hk, by simp [cleanedFault?, hne, h, Reading.parseFault, hk]⟩

/-- **No line is unrecognized**: one that is not read has a keyword. -/
theorem cleanedFault?_ne_unrecognized (expected : Expected) :
    cleanedFault? current t ≠ some (.unrecognized expected) := by
  by_cases hne : t = []
  · simp [cleanedFault?, hne]
  cases hparse : parse t with
  | error expected =>
    obtain ⟨k, -, hfault⟩ := cleanedFault?_of_error current hne hparse
    simp [hfault]
  | ok l =>
    rw [cleanedFault?_of_ok hparse]
    cases l with
    | slot keyword name beforeType type beforeExample «example» =>
      rcases current with _ | ⟨_ | _, _⟩ <;> simp [fault?]
    | sentence text => cases current <;> simp [fault?]
    | _ => simp [fault?]

end Line

theorem Source.fault_ne_unrecognized (s : Source) {current : Option (Kind × Text)}
    {lines : List SourceLine} {error : LineError} (h : error ∈ s.errorsFrom current lines)
    (expected : Expected) : error.fault ≠ .unrecognized expected := by
  induction lines generalizing current with
  | nil => simp [errorsFrom] at h
  | cons line rest ih =>
    rw [errorsFrom] at h
    rcases List.mem_append.1 h with h | h
    · obtain ⟨fault, hfault, rfl⟩ := by simpa using h
      rintro rfl
      exact Line.cleanedFault?_ne_unrecognized _ hfault
    · exact ih h

/-- **A load fails** for the size of its source or for lines of it that are
malformed or stand in the wrong place. -/
theorem Model.error_of_load {limit : Nat} {m : Model} {text : Text} {source : Option Text}
    {e : Error} (h : (m.load limit text source).value = .error e) :
    (∃ size, e = .limit size) ∨ ∃ errors : List LineError, e = .ofList (errors.map .line) ∧
      ∀ error ∈ errors, ∀ expected, error.fault ≠ .unrecognized expected := by
  rw [load_value, Source.verdict] at h
  split at h
  · exact .inl ⟨_, (Except.error.inj h).symm⟩
  · split at h
    · cases h
    · exact .inr ⟨_, (Except.error.inj h).symm, fun error herror =>
        Source.fault_ne_unrecognized _ herror⟩

end Utterance
