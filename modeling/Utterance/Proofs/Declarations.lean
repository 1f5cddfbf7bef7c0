import Utterance.Workspace

/-!
# Declarations — what a source says by itself

What a line does, or what is wrong with it, depends on the collection that
is open and on nothing else that was read before (`Reading.apply_eq`). A
source can therefore be read without the model it is loaded into: its
errors come from one pass over its lines that remembers the open collection
(`Source.errors`), and its declarations are the lines that parse
(`Source.declarations`). Loading a source is settled by its verdict, and
what an accepted source does to a model is what its declarations do, one
after another (`Model.load_value`).
-/

namespace Utterance

/-! ## One line -/

/-- A template with the place it was written at. -/
def Template.placed (source : Text) (span : Span) (text : Text) : Template :=
  { text, source := some source, span := some span }

namespace Line

/-- The collection that a line opens. -/
def opened? : Line → Option (Kind × Text)
  | opening kind _ name => some (kind, name.text)
  | _ => none

/-- What is wrong with a line that parses, given the open collection. -/
def fault? (current : Option (Kind × Text)) : Line → Option Fault
  | slot _ name _ _ _ _ =>
    match current with
    | some (.intent, _) => none
    | _ => some (.slotOutsideIntent name.text)
  | sentence _ => if current.isSome then none else some .sentenceOutside
  | _ => none

/-- What a line does to a model, given the open collection and the template
that a sentence becomes. A line with a fault does nothing. -/
def effect (template : Text → Template) (current : Option (Kind × Text)) : Line → Model → Model
  | invocation _ name, m => { m with invocationName := some name.text }
  | language _ code, m => { m with language := code.text }
  | opening kind _ name, m => m.openCollection kind name.text
  | slot _ name _ type _ «example», m =>
    match current with
    | some (.intent, intent) =>
      m.modifyCollection .intent intent (·.declareSlot (Reading.declaredSlot name type «example»))
    | _ => m
  | definition name _ text, m => m.defineVariable name text.text
  | sentence text, m =>
    match current with
    | some (kind, name) => m.modifyCollection kind name (·.addTemplate (template text))
    | none => m

/-- A line with a fault opens nothing. -/
theorem opened?_eq_none_of_fault {current : Option (Kind × Text)} {l : Line} {fault : Fault}
    (h : l.fault? current = some fault) : l.opened? = none := by
  cases l with
  | opening kind keyword name => simp [fault?] at h
  | _ => rfl

/-- A line with a fault does nothing. -/
theorem effect_of_fault {current : Option (Kind × Text)} {l : Line} {fault : Fault}
    (h : l.fault? current = some fault) (template : Text → Template) (m : Model) :
    l.effect template current m = m := by
  cases l with
  | slot keyword name beforeType type beforeExample «example» =>
    rcases current with _ | ⟨_ | _, _⟩
    · rfl
    · simp [fault?] at h
    · rfl
  | sentence text =>
    rcases current with _ | ⟨kind, name⟩
    · rfl
    · simp [fault?] at h
  | _ => simp [fault?] at h

end Line

/-- **What a line does is settled by the open collection**: it has its
fault, or else its effect, and what it opens is the open collection from
there on. -/
theorem Reading.apply_eq (source : Text) (span : Span) (r : Reading) (l : Line) :
    r.apply source span l =
      match l.fault? r.current with
      | some fault => .error fault
      | none => .ok ⟨l.effect (Template.placed source span) r.current r.model,
          l.opened?.or r.current⟩ := by
  obtain ⟨m, current⟩ := r
  cases l with
  | slot keyword name beforeType type beforeExample «example» =>
    rcases current with _ | ⟨_ | _, _⟩ <;> rfl
  | sentence text => rcases current with _ | ⟨kind, name⟩ <;> rfl
  | _ => rfl

/-! ## The lines of a source -/

/-- A line that parses, with its place. -/
structure Declaration where
  /-- The line. -/
  line : Line
  /-- Where it stands. -/
  span : Span
  deriving Repr, DecidableEq

/-- What is wrong with a cleaned line, given the open collection. -/
def Line.cleanedFault? (current : Option (Kind × Text)) (cleaned : Text) : Option Fault :=
  if cleaned.isEmpty then none
  else
    match Line.parse cleaned with
    | .error expected => some (Reading.parseFault cleaned expected)
    | .ok l => l.fault? current

namespace SourceLine

/-- The line after cleaning. -/
def cleaned (line : SourceLine) : Text :=
  Line.clean line.raw

/-- The declaration of a line, if it parses. An empty line does not. -/
def declaration? (line : SourceLine) : Option Declaration :=
  (Line.parse line.cleaned).toOption.map fun l => ⟨l, line.span⟩

end SourceLine

theorem SourceLine.declaration?_eq_some {line : SourceLine} {d : Declaration} :
    line.declaration? = some d ↔ Line.parse line.cleaned = .ok d.line ∧ line.span = d.span := by
  obtain ⟨l, span⟩ := d
  unfold declaration?
  cases Line.parse line.cleaned <;> simp [Except.toOption]

/-- An empty line does not parse. -/
theorem Line.parse_nil : Line.parse [] = .error ⟨[.line]⟩ := by
  have hkeyword : Keyword.leading? [] = none := by decide
  rw [Line.parse, hkeyword]
  rfl

/-- The collection that is open after some declarations, given the one that
is open in front of them. -/
def openAfter (current : Option (Kind × Text)) (ds : List Declaration) : Option (Kind × Text) :=
  (ds.filterMap fun d => d.line.opened?).getLast?.or current

@[simp] theorem openAfter_nil (current : Option (Kind × Text)) :
    openAfter current [] = current := by
  simp [openAfter]

theorem openAfter_cons (current : Option (Kind × Text)) (d : Declaration) (ds : List Declaration) :
    openAfter current (d :: ds) = openAfter (d.line.opened?.or current) ds := by
  simp only [openAfter, List.filterMap_cons]
  cases d.line.opened? with
  | none => rfl
  | some opened => cases h : (ds.filterMap fun d => d.line.opened?).getLast? <;>
      simp [List.getLast?_cons, h]

theorem openAfter_append (current : Option (Kind × Text)) (ds es : List Declaration) :
    openAfter current (ds ++ es) = openAfter (openAfter current ds) es := by
  induction ds generalizing current with
  | nil => simp
  | cons d ds ih => rw [List.cons_append, openAfter_cons, openAfter_cons, ih]

/-- A source, with its name. -/
structure Source where
  /-- The text. -/
  text : Text
  /-- The name. -/
  name : Text
  deriving Repr, DecidableEq

namespace Source

/-- The lines of a source. -/
def lines (s : Source) : List SourceLine :=
  SourceLine.ofText s.text.unixLineEnds

/-- **The declarations of a source**, in order. -/
def declarations (s : Source) : List Declaration :=
  s.lines.filterMap SourceLine.declaration?

/-- The errors of some lines of a source, given the collection that is open
in front of them. -/
def errorsFrom (s : Source) : Option (Kind × Text) → List SourceLine → List LineError
  | _, [] => []
  | current, line :: rest =>
    let error (fault : Fault) : LineError :=
      { fault, span := line.span, source := s.name, sourceText := s.text.unixLineEnds }
    ((Line.cleanedFault? current line.cleaned).map error).toList ++
      s.errorsFrom (openAfter current line.declaration?.toList) rest

theorem errorsFrom_cons (s : Source) (current : Option (Kind × Text)) (line : SourceLine)
    (rest : List SourceLine) :
    s.errorsFrom current (line :: rest) =
      s.errorsFrom current [line] ++
        s.errorsFrom (openAfter current line.declaration?.toList) rest := by
  simp [errorsFrom]

/-- **The errors of a source**, in order. -/
def errors (s : Source) : List LineError :=
  s.errorsFrom none s.lines

/-- **Whether a source is accepted**, and if not, why. -/
def verdict (limit : Nat) (s : Source) : Except Error Unit :=
  if limit < s.text.byteSize then .error (.limit (.sourceSize limit s.text.byteSize))
  else
    match s.errors with
    | [] => .ok ()
    | errors => .error (.ofList (errors.map .line))

end Source

/-- What some declarations of a named source do to a model, given the
collection that is open in front of them. -/
def Model.extendFrom (source : Text) : Option (Kind × Text) → List Declaration → Model → Model
  | _, [], m => m
  | current, d :: ds, m =>
    extendFrom source (d.line.opened?.or current) ds
      (d.line.effect (Template.placed source d.span) current m)

/-- **What a source does to a model**, if it is accepted. -/
def Model.extend (m : Model) (s : Source) : Model :=
  Model.extendFrom s.name none s.declarations m

theorem Model.extendFrom_append (source : Text) (current : Option (Kind × Text))
    (ds es : List Declaration) (m : Model) :
    extendFrom source current (ds ++ es) m =
      extendFrom source (openAfter current ds) es (extendFrom source current ds m) := by
  induction ds generalizing current m with
  | nil => simp [extendFrom]
  | cons d ds ih => rw [List.cons_append, extendFrom, extendFrom, openAfter_cons, ih]

/-! ## Loading -/

/-- **Reading one line**: the open collection tells its error, and what it
does is what its declaration does, if it is one. -/
theorem Progress.next_eq (s : Source) (p : Progress) (line : SourceLine) :
    (p.next s.name s.text.unixLineEnds line).errors =
        (s.errorsFrom p.reading.current [line]).reverse ++ p.errors ∧
      (p.next s.name s.text.unixLineEnds line).reading =
        ⟨Model.extendFrom s.name p.reading.current line.declaration?.toList p.reading.model,
          openAfter p.reading.current line.declaration?.toList⟩ := by
  obtain ⟨⟨m, current⟩, errors, events⟩ := p
  have hread : (Reading.mk m current).readLine s.name line =
      if line.cleaned.isEmpty then ⟨.ok ⟨m, current⟩, []⟩
      else
        match Line.parse line.cleaned with
        | .error expected => ⟨.error (Reading.parseFault line.cleaned expected), []⟩
        | .ok l => ⟨(Reading.mk m current).apply s.name line.span l,
            (Reading.mk m current).events l⟩ := rfl
  unfold next
  simp only [hread, Source.errorsFrom, Line.cleanedFault?, SourceLine.declaration?,
    List.append_nil]
  by_cases hempty : line.cleaned = []
  · simp [hempty, Line.parse_nil, Except.toOption, Model.extendFrom]
  have hne : line.cleaned.isEmpty = false := by simpa using hempty
  cases hparse : Line.parse line.cleaned with
  | error expected => simp [hne, Except.toOption, Model.extendFrom]
  | ok l =>
    cases hfault : l.fault? current with
    | some fault =>
      simp [hne, Except.toOption, Reading.apply_eq, hfault, Model.extendFrom, openAfter,
        Line.opened?_eq_none_of_fault hfault, Line.effect_of_fault hfault]
    | none =>
      simp [hne, Except.toOption, Reading.apply_eq, hfault, Model.extendFrom, openAfter_cons]

/-- **Reading some lines.** -/
theorem Progress.foldl_next (s : Source) (lines : List SourceLine) (p : Progress) :
    (lines.foldl (Progress.next s.name s.text.unixLineEnds) p).errors =
        (s.errorsFrom p.reading.current lines).reverse ++ p.errors ∧
      (lines.foldl (Progress.next s.name s.text.unixLineEnds) p).reading =
        ⟨Model.extendFrom s.name p.reading.current (lines.filterMap SourceLine.declaration?)
            p.reading.model,
          openAfter p.reading.current (lines.filterMap SourceLine.declaration?)⟩ := by
  induction lines generalizing p with
  | nil => simp [Source.errorsFrom, Model.extendFrom]
  | cons line rest ih =>
    obtain ⟨herrors, hreading⟩ := next_eq s p line
    obtain ⟨ihErrors, ihReading⟩ := ih (p.next s.name s.text.unixLineEnds line)
    have hsplit : (line :: rest).filterMap SourceLine.declaration? =
        line.declaration?.toList ++ rest.filterMap SourceLine.declaration? := by
      rw [List.filterMap_cons]
      cases line.declaration? <;> rfl
    rw [List.foldl_cons, ihErrors, ihReading, herrors, hreading, hsplit,
      Model.extendFrom_append, openAfter_append, Source.errorsFrom_cons s _ line rest]
    simp

/-- **What a load comes to**: the verdict on the source, and for an accepted
source what its declarations make of the model. -/
theorem Model.load_value (limit : Nat) (m : Model) (text : Text) (source : Option Text) :
    (m.load limit text source).value =
      (Source.verdict limit ⟨text, source.getD unnamedSource⟩).map fun _ =>
        m.extend ⟨text, source.getD unnamedSource⟩ := by
  have hread := Progress.foldl_next ⟨text, source.getD unnamedSource⟩
    (SourceLine.ofText text.unixLineEnds) { reading := { model := m } }
  simp only [List.append_nil] at hread
  unfold load Source.verdict
  simp only [hread]
  split
  · rfl
  · rw [List.reverse_reverse]
    change (match Source.errors _ with | [] => _ | _ => _) = _
    cases Source.errors ⟨text, source.getD unnamedSource⟩ with
    | nil => rfl
    | cons e rest => rfl

/-! ## Sources without errors -/

/-- Lines of which none has a fault, given the collection that is open in
front of them. -/
def Line.Faultless : Option (Kind × Text) → List Line → Prop
  | _, [] => True
  | current, l :: rest => l.fault? current = none ∧ Faultless (l.opened?.or current) rest

/-- The lines of a text after cleaning. -/
def Text.cleanedLines (text : Text) : List Text :=
  text.unixLineEnds.lines.map Line.clean

/-- The lines that some cleaned lines parse to. -/
def Line.parsed (cleaned : List Text) : List Line :=
  cleaned.filterMap fun t => (Line.parse t).toOption

/-- Whether every cleaned line is empty or parses, and no line has a fault
where it stands. -/
def Line.Acceptable (cleaned : List Text) : Prop :=
  (∀ t ∈ cleaned, t = [] ∨ ∃ l, Line.parse t = .ok l) ∧ Faultless none (parsed cleaned)

theorem SourceLine.map_raw_number (start line : Nat) (raws : List Text) :
    (number start line raws).map SourceLine.raw = raws := by
  induction raws generalizing start line with
  | nil => rfl
  | cons raw rest ih => rw [number_cons, List.map_cons, ih]

namespace Source

theorem map_cleaned_lines (s : Source) :
    s.lines.map SourceLine.cleaned = s.text.cleanedLines := by
  have hraws : s.lines.map SourceLine.raw = s.text.unixLineEnds.lines :=
    SourceLine.map_raw_number ..
  rw [Text.cleanedLines, ← hraws, List.map_map]
  rfl

theorem map_line_filterMap (lines : List SourceLine) :
    (lines.filterMap SourceLine.declaration?).map Declaration.line =
      Line.parsed (lines.map SourceLine.cleaned) := by
  have hline (line : SourceLine) :
      line.declaration?.map Declaration.line = (Line.parse line.cleaned).toOption := by
    simp [SourceLine.declaration?, Function.comp_def]
  rw [Line.parsed, List.map_filterMap, List.filterMap_map]
  simp only [hline]
  rfl

/-- What a source declares is told by its cleaned lines. -/
theorem map_line_declarations (s : Source) :
    s.declarations.map Declaration.line = Line.parsed s.text.cleanedLines := by
  rw [declarations, map_line_filterMap, map_cleaned_lines]

theorem errorsFrom_eq_nil_iff (s : Source) (current : Option (Kind × Text))
    (lines : List SourceLine) :
    s.errorsFrom current lines = [] ↔
      (∀ t ∈ lines.map SourceLine.cleaned, t = [] ∨ ∃ l, Line.parse t = .ok l) ∧
        Line.Faultless current (Line.parsed (lines.map SourceLine.cleaned)) := by
  induction lines generalizing current with
  | nil => simp [errorsFrom, Line.parsed, Line.Faultless]
  | cons line rest ih =>
    rw [errorsFrom_cons, List.append_eq_nil_iff, ih]
    by_cases hempty : line.cleaned = []
    · simp [errorsFrom, Line.cleanedFault?, SourceLine.declaration?, Line.parsed, hempty,
        Line.parse_nil, Except.toOption]
    cases hparse : Line.parse line.cleaned with
    | error expected =>
      simp [errorsFrom, Line.cleanedFault?, hempty, hparse]
    | ok l =>
      simp [errorsFrom, Line.cleanedFault?, SourceLine.declaration?, Line.parsed, hempty,
        hparse, Except.toOption, Line.Faultless, openAfter_cons, and_left_comm]

/-- **A source without errors** is one whose cleaned lines are acceptable. -/
theorem errors_eq_nil_iff (s : Source) : s.errors = [] ↔ Line.Acceptable s.text.cleanedLines := by
  rw [errors, errorsFrom_eq_nil_iff, map_cleaned_lines, Line.Acceptable]

end Source

/-- **A load succeeds** exactly when the source is not too large and has
acceptable lines. -/
theorem Model.load_eq_ok_iff {limit : Nat} {m m' : Model} {text : Text} {source : Option Text} :
    (m.load limit text source).value = .ok m' ↔
      text.byteSize ≤ limit ∧ Line.Acceptable text.cleanedLines ∧
        m' = m.extend ⟨text, source.getD unnamedSource⟩ := by
  have hacceptable := Source.errors_eq_nil_iff ⟨text, source.getD unnamedSource⟩
  rw [load_value, Source.verdict]
  by_cases hsize : limit < text.byteSize
  · have hnot : ¬ text.byteSize ≤ limit := by omega
    simp [hsize, hnot, Except.map]
  · have hle : text.byteSize ≤ limit := by omega
    rw [← hacceptable]
    cases Source.errors ⟨text, source.getD unnamedSource⟩ with
    | nil => simp [hsize, hle, Except.map, eq_comm]
    | cons e rest => simp [hsize, Except.map]

/-- A source that is not too large and has no errors loads. -/
theorem Model.load_of_errors_eq_nil {limit : Nat} (m : Model) {text : Text} (source : Option Text)
    (hsize : text.byteSize ≤ limit)
    (h : Source.errors ⟨text, source.getD unnamedSource⟩ = []) :
    (m.load limit text source).value = .ok (m.extend ⟨text, source.getD unnamedSource⟩) :=
  load_eq_ok_iff.2 ⟨hsize, (Source.errors_eq_nil_iff _).1 h, rfl⟩

/-- A source that is not too large and has errors is refused for them. -/
theorem Model.load_of_errors_ne_nil (m : Model) {limit : Nat} {text : Text} (source : Option Text)
    (hsize : text.byteSize ≤ limit)
    (h : Source.errors ⟨text, source.getD unnamedSource⟩ ≠ []) :
    (m.load limit text source).value =
      .error (.ofList ((Source.errors ⟨text, source.getD unnamedSource⟩).map .line)) := by
  rw [load_value, Source.verdict, if_neg (Nat.not_lt.2 hsize)]
  cases herrors : Source.errors ⟨text, source.getD unnamedSource⟩ with
  | nil => exact absurd herrors h
  | cons error rest => simp [Except.map]

end Utterance
