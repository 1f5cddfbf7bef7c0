import Utterance.Proofs.Positions
import Utterance.Proofs.Readings
import Mathlib.Data.List.Forall2

/-!
# Bad lines — each of them is reported, once and in order

A cleaned line is bad when it begins with a keyword and has not the keyword's
form, or when it says something that needs an intent or an entity to be open
(`Line.Bad`). What is open is told by the last line in front that opens
something in the form it should have: a malformed one changes nothing
(`Line.told_openAt`). So the fault of a line is read off the text
(`Text.faultAt_eq_some_iff`), and the errors of a source are those of its lines,
one behind the other (`Source.errors_eq`). Loading reports just these
(`Model.load_reports_bad_lines`).
-/

namespace Utterance

namespace Line

/-! ## What is bad -/

/-- A cleaned line begins with a keyword and has its form. -/
def IsDeclaration (k : Keyword) (t : Text) (l : Line) : Prop :=
  Keyword.leading? t = some k ∧ k.Declares (t.take k.word.length) (t.drop k.word.length) l

/-- A cleaned line opens an intent or an entity in the form it should have. -/
def Opens (kind : Kind) (t : Text) : Prop :=
  ∃ l, IsDeclaration kind.keyword t l

/-- Of some cleaned lines, the last one that opens something opens a collection
of a kind. -/
def LastOpens (kind : Kind) (before : List Text) : Prop :=
  ∃ a t b, before = a ++ t :: b ∧ Opens kind t ∧ ∀ u ∈ b, ∀ other, ¬ Opens other u

/-- None of some cleaned lines opens anything. -/
def NoneOpens (before : List Text) : Prop :=
  ∀ t ∈ before, ∀ kind, ¬ Opens kind t

/-- **A bad line**, behind some other ones, with its fault. -/
inductive Bad (before : List Text) (t : Text) : Fault → Prop where
  /-- It begins with a keyword and has not its form. -/
  | malformed {k : Keyword} {expected : Expected} (hkeyword : Keyword.leading? t = some k)
      (hform : ∀ l, ¬ IsDeclaration k t l) (hexpected : parse t = .error expected) :
      Bad before t (.malformed k expected)
  /-- It declares a slot where an entity is open, or nothing. -/
  | slot {written beforeType beforeExample : Text} {name : Spaced}
      {type «example» : Option Spaced}
      (hslot : IsDeclaration .slot t
        (.slot written name beforeType type beforeExample «example»))
      (hplace : LastOpens .entity before ∨ NoneOpens before) :
      Bad before t (.slotOutsideIntent name.text)
  /-- It is a sentence where nothing is open. -/
  | sentence (hne : t ≠ []) (hkeyword : Keyword.leading? t = none)
      (hdefinition : ¬ IsDefinition t) (hplace : NoneOpens before) :
      Bad before t .sentenceOutside

/-! ## What is open -/

variable {before : List Text} {t : Text} {kind : Kind} {l : Line}

theorem isDeclaration_iff {k : Keyword} :
    IsDeclaration k t l ↔ Keyword.leading? t = some k ∧ parse t = .ok l :=
  and_congr_right fun h => (parse_eq_ok_iff_declares h).symm

/-- A line opens what it is read to open. -/
theorem opens_iff : Opens kind t ↔ ∃ l name, parse t = .ok l ∧ l.opened? = some (kind, name) := by
  constructor
  · rintro ⟨l, hl⟩
    obtain ⟨name, hname⟩ := hl.2.exists_opened?
    exact ⟨l, name, (isDeclaration_iff.1 hl).2, hname⟩
  · rintro ⟨l, name, hparse, hopened⟩
    cases l with
    | opening other written opened =>
      obtain ⟨rfl, -⟩ := Prod.mk.inj (Option.some.inj hopened)
      exact ⟨_, isDeclaration_iff.2 ⟨(keyword?_of_parse hparse).symm, hparse⟩⟩
    | _ => cases hopened

theorem Opens.kind_unique {other : Kind} (h : Opens kind t) (h' : Opens other t) :
    kind = other := by
  obtain ⟨l, name, hparse, hopened⟩ := opens_iff.1 h
  obtain ⟨l', name', hparse', hopened'⟩ := opens_iff.1 h'
  obtain rfl := Except.ok.inj (hparse.symm.trans hparse')
  exact (Prod.mk.inj (Option.some.inj (hopened.symm.trans hopened'))).1

theorem lastOpens_concat :
    LastOpens kind (before ++ [t]) ↔
      Opens kind t ∨ (∀ other, ¬ Opens other t) ∧ LastOpens kind before := by
  constructor
  · rintro ⟨a, u, b, hsplit, hu, hb⟩
    rcases List.eq_nil_or_concat' b with rfl | ⟨b, last, rfl⟩
    · obtain ⟨-, hlast⟩ := List.append_inj' hsplit rfl
      exact .inl ((List.cons.inj hlast).1 ▸ hu)
    · rw [← List.cons_append, ← List.append_assoc] at hsplit
      obtain ⟨rfl, hlast⟩ := List.append_inj' hsplit rfl
      obtain rfl := (List.cons.inj hlast).1
      exact .inr ⟨hb t (by simp), a, u, b, rfl, hu, fun v hv => hb v (by simp [hv])⟩
  · rintro (h | ⟨hnot, a, u, b, rfl, hu, hb⟩)
    · exact ⟨before, t, [], rfl, h, by simp⟩
    · refine ⟨a, u, b ++ [t], by simp, hu, fun v hv => ?_⟩
      rcases List.mem_append.1 hv with hv | hv
      · exact hb v hv
      · rwa [List.mem_singleton.1 hv]

/-- One collection was opened last, or none. -/
theorem LastOpens.kind_unique {other : Kind} (h : LastOpens kind before)
    (h' : LastOpens other before) : kind = other := by
  induction before using List.reverseRecOn with
  | nil =>
    obtain ⟨a, t, b, hsplit, -, -⟩ := h
    simp at hsplit
  | append_singleton before t ih =>
    rcases lastOpens_concat.1 h with h | ⟨hnot, h⟩
    · rcases lastOpens_concat.1 h' with h' | ⟨hnot', -⟩
      · exact h.kind_unique h'
      · exact absurd h (hnot' kind)
    · rcases lastOpens_concat.1 h' with h' | ⟨-, h'⟩
      · exact absurd h' (hnot other)
      · exact ih h h'

theorem LastOpens.not_noneOpens (h : LastOpens kind before) : ¬ NoneOpens before := by
  obtain ⟨a, t, b, rfl, ht, -⟩ := h
  exact fun hnone => hnone t (by simp) kind ht

/-- The collection that is open behind some cleaned lines. -/
def openAt (before : List Text) : Option (Kind × Text) :=
  ((parsed before).filterMap opened?).getLast?

theorem openAt_concat (before : List Text) (t : Text) :
    openAt (before ++ [t]) = ((parse t).toOption.bind opened?).or (openAt before) := by
  have hlast : ([t].filterMap fun t => (parse t).toOption).filterMap opened? =
      ((parse t).toOption.bind opened?).toList := by
    cases hparse : (parse t).toOption with
    | none => simp [hparse]
    | some l => cases hopened : l.opened? <;> simp [hparse, hopened]
  rw [openAt, parsed, List.filterMap_append, List.filterMap_append, hlast, List.getLast?_append]
  cases (parse t).toOption.bind opened? <;> rfl

/-- What some cleaned lines tell about the collection that is open behind them. -/
def Told (before : List Text) : Option (Kind × Text) → Prop
  | none => NoneOpens before
  | some (kind, _) => LastOpens kind before

/-- **What is open is told by the last line that opens something.** A line that
is not read, or that opens nothing, changes nothing. -/
theorem told_openAt (before : List Text) : Told before (openAt before) := by
  induction before using List.reverseRecOn with
  | nil => exact fun t ht => absurd ht (by simp)
  | append_singleton before t ih =>
    rw [openAt_concat]
    cases hopened : (parse t).toOption.bind opened? with
    | some opened =>
      obtain ⟨l, hread, hl⟩ := Option.bind_eq_some_iff.1 hopened
      have hparse : parse t = .ok l := by
        cases hparse : parse t <;> simp_all [Except.toOption]
      exact lastOpens_concat.2 (.inl (opens_iff.2 ⟨l, opened.2, hparse, hl⟩))
    | none =>
      have hnot (kind : Kind) : ¬ Opens kind t := by
        intro hopens
        obtain ⟨l, name, hparse, hl⟩ := opens_iff.1 hopens
        simp [hparse, Except.toOption, hl] at hopened
      rw [Option.none_or]
      cases hopen : openAt before with
      | none =>
        rw [hopen] at ih
        intro u hu
        rcases List.mem_append.1 hu with hu | hu
        · exact ih u hu
        · rwa [List.mem_singleton.1 hu]
      | some opened =>
        rw [hopen] at ih
        exact lastOpens_concat.2 (.inr ⟨hnot, ih⟩)

/-! ## Faults -/

theorem ne_nil_of_leading? {k : Keyword} (h : Keyword.leading? t = some k) : t ≠ [] := by
  rintro rfl
  revert h
  cases k <;> decide

theorem Bad.ne_nil {fault : Fault} (h : Bad before t fault) : t ≠ [] := by
  rcases h with ⟨hkeyword, -, -⟩ | ⟨hslot, -⟩ | ⟨hne, -, -, -⟩
  · exact ne_nil_of_leading? hkeyword
  · exact ne_nil_of_leading? hslot.1
  · exact hne

variable {current : Option (Kind × Text)} {fault : Fault}

/-- A line with a fault is bad. -/
theorem bad_of_cleanedFault? (htold : Told before current)
    (h : cleanedFault? current t = some fault) : Bad before t fault := by
  have hne : t ≠ [] := by
    rintro rfl
    cases h
  cases hparse : parse t with
  | error expected =>
    obtain ⟨k, hk, hfault⟩ := cleanedFault?_of_error current hne hparse
    obtain rfl := Option.some.inj (hfault.symm.trans h)
    refine .malformed hk (fun l hl => ?_) hparse
    rw [(isDeclaration_iff.1 hl).2] at hparse
    cases hparse
  | ok l =>
    rw [cleanedFault?_of_ok hparse] at h
    have hkeyword := (keyword?_of_parse hparse).symm
    cases l with
    | slot written name beforeType type beforeExample «example» =>
      have hslot := isDeclaration_iff.2 ⟨hkeyword, hparse⟩
      rcases current with _ | ⟨_ | _, _⟩
      · obtain rfl := Option.some.inj h
        exact .slot hslot (.inr htold)
      · cases h
      · obtain rfl := Option.some.inj h
        exact .slot hslot (.inl htold)
    | sentence text =>
      have hmeans := (parse_eq_ok_iff_means hne hkeyword).1 hparse
      cases current with
      | none =>
        obtain rfl := Option.some.inj h
        exact .sentence hne hkeyword hmeans.of_sentence.2 htold
      | some opened => cases h
    | _ => cases h

/-- A bad line has its fault. -/
theorem Bad.cleanedFault?_eq (htold : Told before current) (h : Bad before t fault) :
    cleanedFault? current t = some fault := by
  have hne := h.ne_nil
  rcases h with ⟨hk, -, hexpected⟩ | ⟨hslot, hplace⟩ | ⟨-, hkeyword, hdefinition, hplace⟩
  · obtain ⟨k, hk', hfault⟩ := cleanedFault?_of_error current hne hexpected
    obtain rfl := Option.some.inj (hk.symm.trans hk')
    exact hfault
  · rw [cleanedFault?_of_ok (isDeclaration_iff.1 hslot).2]
    rcases current with _ | ⟨_ | _, name⟩
    · rfl
    · -- an intent is open, and then neither an entity nor nothing is
      have hintent : LastOpens .intent before := htold
      rcases hplace with hentity | hnone
      · cases hintent.kind_unique hentity
      · exact absurd hnone hintent.not_noneOpens
    · rfl
  · rw [cleanedFault?_of_ok (parse_of_means hne hkeyword (.sentence hdefinition))]
    cases current with
    | none => rfl
    | some opened =>
      have hopen : LastOpens opened.1 before := htold
      exact absurd hplace hopen.not_noneOpens

/-- **The fault of a line** is that of a bad line. -/
theorem cleanedFault?_eq_some_iff (htold : Told before current) :
    cleanedFault? current t = some fault ↔ Bad before t fault :=
  ⟨bad_of_cleanedFault? htold, Bad.cleanedFault?_eq htold⟩

end Line

namespace Text

variable {text : Text} {i : Nat} {fault : Fault}

/-- **A bad line of a text**, by its number from zero. -/
def BadLine (text : Text) (i : Nat) (fault : Fault) : Prop :=
  ∃ t, text.cleanedLines[i]? = some t ∧ Line.Bad (text.cleanedLines.take i) t fault

/-- The fault of a line of a text, if there is one. -/
def faultAt (text : Text) (i : Nat) : Option Fault :=
  text.cleanedLines[i]?.bind
    (Line.cleanedFault? (Line.openAt (text.cleanedLines.take i)))

theorem faultAt_eq_some_iff : text.faultAt i = some fault ↔ text.BadLine i fault := by
  rw [faultAt, Option.bind_eq_some_iff]
  exact exists_congr fun t =>
    and_congr_right fun _ => Line.cleanedFault?_eq_some_iff (Line.told_openAt _)

instance : Decidable (∃ fault, text.BadLine i fault) :=
  decidable_of_iff ((text.faultAt i).isSome = true)
    (by simp only [Option.isSome_iff_exists, faultAt_eq_some_iff])

/-- **The bad lines of a text**, in order. -/
def badLines (text : Text) : List Nat :=
  (List.range text.cleanedLines.length).filter fun i => ∃ fault, text.BadLine i fault

end Text

/-! ## The errors of a source -/

namespace Source

variable (s : Source)

/-- The error of a line. -/
def errorOf (line : SourceLine) (fault : Fault) : LineError :=
  { fault, span := line.span, source := s.name, sourceText := s.text.unixLineEnds }

theorem errorsFrom_append (current : Option (Kind × Text)) (lines more : List SourceLine) :
    s.errorsFrom current (lines ++ more) =
      s.errorsFrom current lines ++
        s.errorsFrom (openAfter current (lines.filterMap SourceLine.declaration?)) more := by
  induction lines generalizing current with
  | nil => simp [errorsFrom]
  | cons line lines ih =>
    have hsplit : (line :: lines).filterMap SourceLine.declaration? =
        line.declaration?.toList ++ lines.filterMap SourceLine.declaration? := by
      rw [List.filterMap_cons]
      cases line.declaration? <;> rfl
    rw [List.cons_append, errorsFrom_cons, ih, hsplit, openAfter_append,
      s.errorsFrom_cons current line lines, List.append_assoc]

/-- What is open behind some lines is told by their texts. -/
theorem openAfter_filterMap (lines : List SourceLine) :
    openAfter none (lines.filterMap SourceLine.declaration?) =
      Line.openAt (lines.map SourceLine.cleaned) := by
  rw [openAfter, Option.or_none, Line.openAt, ← map_line_filterMap, List.filterMap_map]
  rfl

/-- **The errors of some lines**, line by line. -/
theorem errorsFrom_eq (lines : List SourceLine) :
    s.errorsFrom none lines = (List.range lines.length).filterMap fun i =>
      lines[i]?.bind fun line =>
        (Line.cleanedFault? (Line.openAt ((lines.take i).map SourceLine.cleaned))
          line.cleaned).map (s.errorOf line) := by
  induction lines using List.reverseRecOn with
  | nil => rfl
  | append_singleton lines line ih =>
    rw [errorsFrom_append, openAfter_filterMap, ih, List.length_append, List.length_singleton,
      List.range_succ, List.filterMap_append]
    congr 1
    · refine List.filterMap_congr fun i hi => ?_
      have hlt : i < lines.length := List.mem_range.1 hi
      rw [List.getElem?_append_left hlt, List.take_append_of_le_length (Nat.le_of_lt hlt)]
    · have hlast : (lines ++ [line])[lines.length]? = some line := List.getElem?_concat_length
      have hbefore : (lines ++ [line]).take lines.length = lines := List.take_left
      rw [List.filterMap_cons, hlast, hbefore, Option.bind_some, errorsFrom]
      cases Line.cleanedFault? (Line.openAt (lines.map SourceLine.cleaned)) line.cleaned <;> rfl

/-- **The errors of a source** are those of its bad lines. -/
theorem errors_eq :
    s.errors = (List.range s.text.cleanedLines.length).filterMap fun i =>
      s.lines[i]?.bind fun line => (s.text.faultAt i).map (s.errorOf line) := by
  have hlength : s.text.cleanedLines.length = s.lines.length := by
    rw [← map_cleaned_lines, List.length_map]
  rw [errors, errorsFrom_eq, hlength]
  refine List.filterMap_congr fun i _ => ?_
  cases hline : s.lines[i]? with
  | none => rfl
  | some line =>
    have hfault : s.text.faultAt i = Line.cleanedFault?
        (Line.openAt ((s.lines.take i).map SourceLine.cleaned)) line.cleaned := by
      rw [Text.faultAt, ← map_cleaned_lines, List.getElem?_map, hline, List.map_take]
      rfl
    rw [Option.bind_some, Option.bind_some, hfault]

end Source

/-- What the members of a list give stands beside those that give something. -/
theorem forall₂_filter_filterMap {α β : Type} (f : α → Option β) (l : List α) :
    List.Forall₂ (fun a b => f a = some b) (l.filter fun a => (f a).isSome) (l.filterMap f) := by
  induction l with
  | nil => exact .nil
  | cons a l ih =>
    cases h : f a with
    | none => simpa [h] using ih
    | some b => simpa [h] using ih

/-- **An error reports a bad line**: it has its fault, the name of the source,
the text of it with line feeds for line ends, and the span of the line in it,
without the blanks at the ends of the line. -/
structure LineError.Reports (text : Text) (source : Text) (i : Nat) (error : LineError) : Prop where
  /-- The line is bad for the fault. -/
  bad : text.BadLine i error.fault
  /-- The name of the source. -/
  source_eq : error.source = source
  /-- The text of the source. -/
  sourceText_eq : error.sourceText = text.unixLineEnds
  /-- The number of the line, from one. -/
  line_eq : error.span.line = i + 1
  /-- The place of the line. -/
  locates : ∃ raw, text.unixLineEnds.lines[i]? = some raw ∧
    error.span.Locates text.unixLineEnds raw.trim

namespace Source

variable (s : Source)

/-- **The errors of a source report its bad lines**, one each and in order. -/
theorem forall₂_errors :
    List.Forall₂ (LineError.Reports s.text s.name) s.text.badLines s.errors := by
  have hbad : s.text.badLines = (List.range s.text.cleanedLines.length).filter fun i =>
      (s.lines[i]?.bind fun line => (s.text.faultAt i).map (s.errorOf line)).isSome := by
    refine List.filter_congr fun i hi => ?_
    have hlt : i < s.lines.length := by
      rw [← List.length_map, map_cleaned_lines]
      exact List.mem_range.1 hi
    rw [List.getElem?_eq_getElem hlt, Option.bind_some, Option.isSome_map, Bool.eq_iff_iff,
      decide_eq_true_iff, Option.isSome_iff_exists]
    simp only [Text.faultAt_eq_some_iff]
  rw [hbad, errors_eq]
  refine (forall₂_filter_filterMap _ _).imp fun i error h => ?_
  obtain ⟨line, hline, herror⟩ := Option.bind_eq_some_iff.1 h
  obtain ⟨fault, hfault, rfl⟩ := Option.map_eq_some_iff.1 herror
  have hreport : s.text.BadLine i fault := Text.faultAt_eq_some_iff.1 hfault
  obtain ⟨hraw, hnumber⟩ := SourceLine.getElem?_number hline
  refine ⟨hreport, rfl, rfl, hnumber.trans (Nat.add_comm 1 i), line.raw, hraw, ?_⟩
  refine SourceLine.locates (List.mem_of_getElem? hline) fun hblank => ?_
  obtain ⟨t, ht, hbad⟩ := hreport
  have hcleaned : t = line.cleaned := by
    rw [← map_cleaned_lines, List.getElem?_map, hline] at ht
    exact (Option.some.inj ht).symm
  refine hbad.ne_nil ?_
  rw [hcleaned, SourceLine.cleaned, ← Line.clean_trim, hblank, Line.clean_nil]

end Source

/-- **Every bad line is reported, once and in order.** Let a text that is not too
large be loaded into any model. There is one error for each of its bad lines, in
their order, with the fault of the line, its span, the name of the source and the
text with line feeds for line ends. The load succeeds exactly when no line is
bad; it fails with the error itself if there is one, and if there are more, with
all of them side by side. -/
theorem Model.load_reports_bad_lines (limit : Nat) (m : Model) (text : Text)
    (source : Option Text) (hsize : text.byteSize ≤ limit) :
    ∃ errors : List LineError,
      List.Forall₂ (LineError.Reports text (source.getD unnamedSource)) text.badLines errors ∧
      ((∃ m', (m.load limit text source).value = .ok m') ↔ text.badLines = []) ∧
      (∀ i, text.badLines = [i] → ∃ error, errors = [error] ∧
        (m.load limit text source).value = .error (.line error)) ∧
      (2 ≤ text.badLines.length →
        (m.load limit text source).value = .error (.several (errors.map .line))) := by
  let s : Source := ⟨text, source.getD unnamedSource⟩
  have hreports : List.Forall₂ (LineError.Reports text s.name) text.badLines s.errors :=
    s.forall₂_errors
  have hlength := hreports.length_eq
  have hrefused : s.errors ≠ [] →
      (m.load limit text source).value = .error (.ofList (s.errors.map .line)) :=
    m.load_of_errors_ne_nil source hsize
  refine ⟨s.errors, hreports, ?loaded, fun i hi => ?single, fun htwo => ?several⟩
  case loaded =>
    rw [← List.length_eq_zero_iff, hlength, List.length_eq_zero_iff]
    constructor
    · rintro ⟨m', hm'⟩
      by_contra hne
      rw [hrefused hne] at hm'
      cases hm'
    · intro hnone
      exact ⟨_, m.load_of_errors_eq_nil source hsize hnone⟩
  case single =>
    rw [hi] at hreports
    obtain ⟨error, rest, -, hnil, herrors⟩ := List.forall₂_cons_left_iff.1 hreports
    obtain rfl := List.forall₂_nil_left_iff.1 hnil
    have hvalue := hrefused (herrors ▸ List.cons_ne_nil error [])
    rw [herrors] at hvalue
    exact ⟨error, herrors, hvalue⟩
  case several =>
    rw [hlength] at htwo
    have hne : s.errors ≠ [] := List.ne_nil_of_length_pos (by omega)
    rw [hrefused hne, Error.ofList_of_two_le (by rwa [List.length_map])]

/-- A sentence in front of everything, malformed lines that open nothing, and a
slot behind an entity; then the first of these lines alone. -/
theorem Model.load_reports_bad_lines_mixed :
    let text : Text := ("tea\r\nINTENT: 1\r\nINTENT: Tea\r\nmilk\r\nENTITY: Milk\r\n" ++
      "intent: 2 # no\r\n\u2003slot: size\r\nLANG: d-\r\n").toList
    let one : Text := " tea\n".toList
    text.badLines = [0, 1, 5, 6, 7] ∧ one.badLines = [0] ∧
    (∃ errors : List LineError,
      List.Forall₂ (LineError.Reports text unnamedSource) [0, 1, 5, 6, 7] errors ∧
      (({} : Model).load 1000 text none).value = .error (.several (errors.map .line))) ∧
    ∃ error : LineError, error.Reports one unnamedSource 0 ∧
      (({} : Model).load 1000 one none).value = .error (.line error) := by
  intro text one
  have hbad : text.badLines = [0, 1, 5, 6, 7] := by decide +kernel
  have hone : one.badLines = [0] := by decide +kernel
  obtain ⟨errors, hreports, -, -, hseveral⟩ :=
    load_reports_bad_lines 1000 {} text none (by decide +kernel)
  obtain ⟨alone, hreport, -, hsingle, -⟩ :=
    load_reports_bad_lines 1000 {} one none (by decide +kernel)
  refine ⟨hbad, hone, ⟨errors, hbad ▸ hreports, hseveral (by rw [hbad]; decide)⟩, ?_⟩
  obtain ⟨error, rfl, hvalue⟩ := hsingle 0 hone
  rw [hone] at hreport
  exact ⟨error, (List.forall₂_cons.1 hreport).1, hvalue⟩

end Utterance
