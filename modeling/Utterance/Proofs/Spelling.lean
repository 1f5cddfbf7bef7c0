import Utterance.Proofs.Readings

/-!
# Spelling — how declarations are written

A declaration is written as its keyword and its parts with a space in front
of each, a variable as its name and its definition around an equals sign.
Cleaning leaves such a line as it is, but for the space at the end of an
empty definition, and the grammar reads back what was written
(`Line.ReadsAs`). The parts do not run into each other: a keyword ends in a
colon that no name has, a name, a type or a language code ends where a space
follows, and what stands at the end of a line may hold any sign.
-/

namespace Utterance

/-- A keyword with what stands behind it. -/
def Keyword.declare (k : Keyword) (rest : Text) : Text :=
  k.word ++ ' ' :: rest

/-- A part with one space in front. -/
def Spaced.after (text : Text) : Spaced :=
  ⟨[' '], text⟩

theorem Spaced.holds_after {form : Text → Prop} {text : Text} (h : form text) :
    (Spaced.after text).Holds form :=
  ⟨by simp [IsGap, Spaced.after], h⟩

namespace Line

/-! ## Lines that are read as they were meant -/

/-- **A raw line is read as a line.** -/
def ReadsAs (raw : Text) (l : Line) : Prop :=
  '\n' ∉ raw ∧ parse (clean raw) = .ok l

/-- A clean text is read as what it parses to. -/
theorem ReadsAs.of_clean {t : Text} {l : Line} (hclean : clean t = t) (h : parse t = .ok l) :
    ReadsAs t l :=
  ⟨newline_not_mem_of_clean hclean, by rw [hclean, h]⟩

theorem readsAs_sentence {t : Text} (h : IsSentence t) : ReadsAs t (.sentence t) := by
  obtain ⟨hclean, hne, hkeyword, hdefinition⟩ := isSentence_iff.1 h
  exact .of_clean hclean
    (parse_of_means hne hkeyword (.sentence (definition?_eq_none_iff.1 hdefinition)))

/-- A clean text that is not empty is a part of a line. -/
theorem isPart_of_clean {s : Text} (hclean : clean s = s) (hne : s ≠ []) : IsPart s := by
  refine ⟨hne, fun hhead => ?_⟩
  obtain ⟨rest, rfl⟩ := List.head?_eq_some_iff.1 hhead
  exact absurd (not_blank_of_clean hclean) (by decide)

/-- **A declaration is read as its keyword's form** when what stands behind
the keyword is clean. -/
theorem readsAs_declare {k : Keyword} {rest : Text} {l : Line} (hclean : clean rest = rest)
    (hne : rest ≠ []) (h : k.Declares k.word (' ' :: rest) l) : ReadsAs (k.declare rest) l :=
  .of_clean (clean_word_append_of_clean (isWord_word k) hclean hne)
    ((parse_keyword k (' ' :: rest)).trans (parseDeclaration_of_declares h))

theorem readsAs_invocation {name : Text} (hclean : clean name = name) (hne : name ≠ []) :
    ReadsAs (Keyword.invocation.declare name)
      (.invocation Keyword.invocation.word (.after name)) :=
  readsAs_declare hclean hne
    (.invocation (Spaced.holds_after (isPart_of_clean hclean hne)))

theorem readsAs_language {code : Text} (h : IsLanguageCode code) :
    ReadsAs (Keyword.language.declare code) (.language Keyword.language.word (.after code)) :=
  readsAs_declare (clean_word (isWord_of_isLanguageCode h)) h.isPart.1
    (.language (Spaced.holds_after h))

theorem readsAs_opening (kind : Kind) {name : Text} (h : IsIdentifier name) :
    ReadsAs (kind.keyword.declare name) (.opening kind kind.keyword.word (.after name)) := by
  refine readsAs_declare (clean_word (isWord_of_isIdentifier h)) h.isPart.1 ?_
  cases kind with
  | intent => exact .intent (Spaced.holds_after h)
  | entity => exact .entity (Spaced.holds_after h)

end Line

/-! ## Slots -/

/-- How a slot is declared: its name, its type after a colon and its example
after a tilde. -/
def Slot.written (slot : Slot) : Text :=
  Keyword.slot.declare (slot.name ++ ((slot.type.map fun type => ' ' :: ':' :: type).getD [] ++
    (slot.example.map fun text => ' ' :: '~' :: ' ' :: text).getD []))

/-- The line that the declaration of a slot is read as. -/
def Slot.line (slot : Slot) : Line :=
  .slot Keyword.slot.word (.after slot.name)
    (if slot.type.isSome || slot.example.isSome then [' '] else [])
    (slot.type.map fun type => ⟨[], type⟩)
    (if slot.type.isSome && slot.example.isSome then [' '] else [])
    (slot.example.map Spaced.after)

/-- What a slot must satisfy to be written. -/
structure Slot.Writable (slot : Slot) : Prop where
  /-- The name is an identifier. -/
  name : IsIdentifier slot.name
  /-- The type, if there is one, is the name of a type. -/
  type : ∀ type ∈ slot.type, Line.IsTypeName type
  /-- The example, if there is one, is clean and not empty. -/
  «example» : ∀ text ∈ slot.example, Line.clean text = text ∧ text ≠ []

instance : DecidablePred Slot.Writable := fun slot =>
  decidable_of_iff (identifier? slot.name = some (slot.name, []) ∧
      (∀ type ∈ slot.type, Line.IsTypeName type) ∧
      ∀ text ∈ slot.example, Line.clean text = text ∧ text ≠ [])
    ⟨fun ⟨hname, htype, hexample⟩ => ⟨identifier?_eq_self_iff.1 hname, htype, hexample⟩,
      fun h => ⟨identifier?_eq_self_iff.2 h.name, h.type, h.example⟩⟩

namespace Line

/-- Nothing, or a space and a clean text behind it. -/
def IsTrailer (s : Text) : Prop :=
  s = [] ∨ ∃ r, s = ' ' :: r ∧ clean r = r ∧ r ≠ []

/-- What is written behind a word leaves it clean. -/
theorem clean_word_append_trailer {w s : Text} (hw : IsWord w) (hs : IsTrailer s) :
    clean (w ++ s) = w ++ s := by
  rcases hs with rfl | ⟨r, rfl, hr, hne⟩
  · rw [List.append_nil, clean_word hw]
  · exact clean_word_append_of_clean hw hr hne

/-- The name, the type and the example of a slot are clean as they are written. -/
theorem clean_written_slot {slot : Slot} (h : slot.Writable) :
    let rest := slot.name ++ ((slot.type.map fun type => ' ' :: ':' :: type).getD [] ++
      (slot.example.map fun text => ' ' :: '~' :: ' ' :: text).getD [])
    clean rest = rest := by
  have hexample :
      IsTrailer ((slot.example.map fun text => ' ' :: '~' :: ' ' :: text).getD []) := by
    cases hslot : slot.example with
    | none => exact .inl rfl
    | some text =>
      obtain ⟨hclean, hne⟩ := h.example text hslot
      have htilde : clean (['~'] ++ ' ' :: text) = ['~'] ++ ' ' :: text :=
        clean_word_append_of_clean (by decide) hclean hne
      exact .inr ⟨_, rfl, htilde, by simp⟩
  refine clean_word_append_trailer (isWord_of_isIdentifier h.name) ?_
  cases hslot : slot.type with
  | none => exact hexample
  | some type =>
    have htype : IsTypeName type := h.type type hslot
    have hword : IsWord (':' :: type) := by
      refine ⟨by simp, fun c hc => ?_⟩
      rcases List.mem_cons.1 hc with rfl | hc
      · decide
      · exact (isWord_of_isTypeChar htype.1 htype.2).2 c hc
    exact .inr ⟨_, rfl, clean_word_append_trailer hword hexample, by simp⟩

/-- **A slot is read as it was written**, with or without type and example. -/
theorem readsAs_slot {slot : Slot} (h : slot.Writable) : ReadsAs slot.written slot.line := by
  refine readsAs_declare (clean_written_slot h) (by simp [h.name.isPart.1]) ?_
  have htail : Slot.IsTail (slot.type.map fun type => ⟨[], type⟩)
      (if slot.type.isSome && slot.example.isSome then [' '] else [])
      (slot.example.map Spaced.after) := by
    refine ⟨fun part hpart => ?type, ?gap, fun hnone => ?untyped, fun part hpart => ?text⟩
    case type =>
      obtain ⟨type, htype, rfl⟩ := Option.map_eq_some_iff.1 hpart
      exact ⟨by simp [IsGap], h.type type htype⟩
    case gap => split <;> simp [IsGap]
    case untyped => simp [Option.map_eq_none_iff.1 hnone]
    case text =>
      obtain ⟨text, htext, rfl⟩ := Option.map_eq_some_iff.1 hpart
      obtain ⟨hclean, hne⟩ := h.example text htext
      exact Spaced.holds_after (isPart_of_clean hclean hne)
  have hgap : IsGap (if slot.type.isSome || slot.example.isSome then [' '] else []) := by
    split <;> simp [IsGap]
  have hslot : Keyword.slot.Declares Keyword.slot.word _ slot.line :=
    .slot (Spaced.holds_after h.name) hgap htail
  convert hslot using 1
  obtain ⟨name, type, «example»⟩ := slot
  cases type <;> cases «example» <;> simp [Slot.tail, Spaced.full, Spaced.after]

/-! ## Variables -/

/-- How a variable is defined. -/
def writtenDefinition (name text : Text) : Text :=
  name ++ ' ' :: '=' :: ' ' :: text

/-- The line that a definition is read as. The space in front of an empty
definition stands at the end of the line and is lost. -/
def definitionLine (name text : Text) : Line :=
  .definition name [' '] ⟨if text = [] then [] else [' '], text⟩

/-- **A definition is read as it was written**, also an empty one. -/
theorem readsAs_definition {name text : Text} (hname : IsVariableName name)
    (htext : clean text = text) :
    ReadsAs (writtenDefinition name text) (definitionLine name text) := by
  have hident := isIdentChar_of_isVariableName hname
  have hword : IsWord name :=
    isWord_of_isTypeChar hname.1 fun c hc => isTypeChar_of_isIdentChar (hident c hc)
  let defined : Spaced := ⟨if text = [] then [] else [' '], text⟩
  have hclean : clean (writtenDefinition name text) = name ++ [' '] ++ '=' :: defined.full := by
    have hsign : clean ('=' :: ' ' :: text) = '=' :: defined.full := by
      have happend := clean_word_append (w := ['=']) (by decide) text
      by_cases hempty : text = []
      · simpa [defined, Spaced.full, hempty] using happend
      · simpa [defined, Spaced.full, hempty, htext] using happend
    rw [writtenDefinition, clean_word_append hword, hsign, if_neg (by simp)]
    simp
  have hdefines : Defines (name ++ [' '] ++ '=' :: defined.full) (definitionLine name text) := by
    refine .intro defined hname.1 hident (by simp [IsGap]) ?gap ?behind
    case gap => by_cases hempty : text = [] <;> simp [defined, IsGap, hempty]
    case behind =>
      by_cases hempty : text = []
      · simp [defined, hempty]
      · exact (isPart_of_clean htext hempty).2
  have hnewline : '\n' ∉ writtenDefinition name text := by
    have hname : '\n' ∉ name := newline_not_mem_of_clean (clean_word hword)
    simp [writtenDefinition, hname, newline_not_mem_of_clean htext]
  exact ⟨hnewline, hclean ▸ parse_of_defines hdefines⟩

end Line

end Utterance
