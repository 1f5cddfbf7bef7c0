import Utterance.Proofs.Compiling
import Utterance.Proofs.Joining
import Utterance.Proofs.Positions
import Utterance.Proofs.WellFormed
import Mathlib.Data.List.Perm.Basic

/-!
# Locations — what is reported stands where it is said to stand

A template remembers the span of its line, an error the span of the bad line
and the text it is a line of, and a diagnostic what its template remembers. The
spans are those of the lines, which are right (`SourceLine.locates`). What is to
be said here is that nothing is mixed up on the way: the templates that an
accepted source adds to all the collections are its sentences, each once
(`Model.added_perm`), the errors of a refused one are faults of the lines they
name (`Source.refuses_of_mem_errors`), and the diagnostics of a collection are
about its templates (`Collection.ExpandsTo.exists_template`). All of it is put
together in `Workspace.locations_point_at_text`.
-/

namespace Utterance

/-! ## Sentences and the collections they are attached to -/

/-- In a list without repetitions, what only one of the members gives is given
once. -/
theorem flatMap_ite_of_nodup {α β : Type} [DecidableEq α] {l : List α} (hl : l.Nodup) {a : α}
    (ha : a ∈ l) (given : List β) : (l.flatMap fun b => if a = b then given else []) = given := by
  induction l with
  | nil => cases ha
  | cons b l ih =>
    obtain ⟨hnew, hrest⟩ := List.nodup_cons.1 hl
    rw [List.flatMap_cons]
    rcases List.mem_cons.1 ha with rfl | hmem
    · have hothers : (l.flatMap fun b => if a = b then given else []) = [] := by
        refine List.flatMap_eq_nil_iff.2 fun b hb => if_neg ?_
        rintro rfl
        exact hnew hb
      rw [if_pos rfl, hothers, List.append_nil]
    · have hne : a ≠ b := by
        rintro rfl
        exact hnew hmem
      rw [if_neg hne, List.nil_append, ih hrest hmem]

/-- **What some declarations say stands once among the collections** they are
attached to, if each of them that says something is attached to one. -/
theorem flatMap_attachedTo_perm {α : Type} {keys : List (Kind × Text)} (hkeys : keys.Nodup)
    (say : Declaration → Option α) {ds : List Declaration}
    (hopen : ∀ before d after, ds = before ++ d :: after → (say d).isSome →
      ∃ key ∈ keys, openAfter none before = some key) :
    (keys.flatMap fun key => (attachedTo key.1 key.2 ds).filterMap say).Perm
      (ds.filterMap say) := by
  induction ds using List.reverseRecOn with
  | nil =>
    have hnil (key : Kind × Text) : (attachedTo key.1 key.2 []).filterMap say = [] := rfl
    simp [hnil]
  | append_singleton ds d ih =>
    have hbefore := ih fun before e after hsplit hsay =>
      hopen before e (after ++ [d]) (by simp [hsplit]) hsay
    -- the last declaration goes to the collection that is open in front of it
    have hlast : (keys.flatMap fun key =>
        (if openAfter none ds = some (key.1, key.2) then [d] else []).filterMap say) =
          [d].filterMap say := by
      cases hsay : say d with
      | none =>
        refine (List.flatMap_eq_nil_iff.2 fun key _ => ?_).trans (by simp [hsay])
        split <;> simp [hsay]
      | some a =>
        obtain ⟨key, hkey, hcurrent⟩ := hopen ds d [] rfl (by simp [hsay])
        rw [hcurrent]
        refine Eq.trans ?_ (flatMap_ite_of_nodup hkeys hkey ([d].filterMap say))
        refine List.flatMap_congr fun other _ => ?_
        by_cases hother : key = other
        · simp [hother]
        · simp [hother]
    have hsplit : (keys.flatMap fun key => (attachedTo key.1 key.2 (ds ++ [d])).filterMap say) =
        keys.flatMap fun key => (attachedTo key.1 key.2 ds).filterMap say ++
          (if openAfter none ds = some (key.1, key.2) then [d] else []).filterMap say :=
      List.flatMap_congr fun key _ => by rw [attachedTo_concat, List.filterMap_append]
    rw [hsplit, List.filterMap_append, ← hlast]
    exact (List.flatMap_append_perm ..).symm.trans (hbefore.append_right _)

/-! ## Templates -/

/-- A template stands before another one in their source. -/
def Template.Before (t u : Template) : Prop :=
  ∃ a b, t.span = some a ∧ u.span = some b ∧ a.Before b

/-- The templates that a model has more than another one, collection by
collection. -/
def Model.added (m m' : Model) : List Template :=
  [Kind.intent, Kind.entity].flatMap fun kind =>
    (m'.collections kind).flatMap fun c =>
      c.templates.drop (m.collectionOrNew kind c.name).templates.length

namespace Source

variable (s : Source)

/-- The templates of a source, line by line. -/
def templates : List Template :=
  s.declarations.filterMap fun d => d.line.template? (Template.placed s.name d.span)

/-- Each line has a template at most, and they come in the order of the lines. -/
theorem pairwise_templates : s.templates.Pairwise Template.Before := by
  have hlines : s.lines.Pairwise fun a b => a.span.Before b.span :=
    SourceLine.pairwise_number ..
  have hdeclarations : s.declarations.Pairwise fun d e => d.span.Before e.span := by
    refine List.Pairwise.filterMap _ (fun a b hab d hd e he => ?_) hlines
    rw [← (SourceLine.declaration?_eq_some.1 hd).2, ← (SourceLine.declaration?_eq_some.1 he).2]
    exact hab
  refine List.Pairwise.filterMap _ (fun d e hde t ht u hu => ?_) hdeclarations
  have hspan {d : Declaration} {t : Template}
      (ht : d.line.template? (Template.placed s.name d.span) = some t) : t.span = some d.span := by
    cases hline : d.line <;> simp [hline, Line.template?] at ht
    rw [← ht]
    rfl
  exact ⟨d.span, e.span, hspan ht, hspan hu, hde⟩

/-- **A template of a source** is its line without blanks and comment, and
remembers where the line stands. -/
theorem locates_of_mem_templates {t : Template} (h : t ∈ s.templates) :
    t.source = some s.name ∧ ∃ span part, t.span = some span ∧
      span.Locates s.text.unixLineEnds part ∧ Line.clean part = t.text := by
  obtain ⟨d, hd, ht⟩ := List.mem_filterMap.1 h
  obtain ⟨line, hline, hdeclares⟩ := List.mem_filterMap.1 hd
  obtain ⟨hparse, hspan⟩ := SourceLine.declaration?_eq_some.1 hdeclares
  cases hsentence : d.line with
  | sentence text =>
    rw [hsentence] at hparse ht
    obtain rfl : Template.placed s.name d.span text = t := Option.some.inj ht
    have htext : text = line.cleaned := Line.text_of_parse hparse
    have hclean : Line.clean line.raw.trim = text := by rw [Line.clean_trim, htext]; rfl
    have hne : line.raw.trim ≠ [] := by
      intro hnil
      rw [hnil, Line.clean_nil] at hclean
      exact (Line.isSentence_of_parse hparse).ne_nil hclean.symm
    exact ⟨rfl, d.span, line.raw.trim, rfl, hspan ▸ SourceLine.locates hline hne, hclean⟩
  | _ => simp [hsentence, Line.template?] at ht

/-- In a source without errors, what a sentence is attached to was opened. -/
theorem exists_open_of_template (h : s.errors = []) {before after : List Declaration}
    {d : Declaration} (hsplit : s.declarations = before ++ d :: after)
    (htemplate : (d.line.template? (Template.placed s.name d.span)).isSome) :
    ∃ opened, openAfter none before = some opened := by
  have hfaultless : Line.Faultless none (s.declarations.map Declaration.line) := by
    rw [map_line_declarations]
    exact (s.errors_eq_nil_iff.1 h).2
  rw [hsplit, List.map_append, Line.faultless_append, List.map_cons] at hfaultless
  have hfault : d.line.fault? (openAfter none before) = none := hfaultless.2.1
  cases hsentence : d.line with
  | sentence text =>
    rw [hsentence] at hfault
    cases hopen : openAfter none before with
    | none => simp [hopen, Line.fault?] at hfault
    | some opened => exact ⟨opened, rfl⟩
  | _ => simp [hsentence, Line.template?] at htemplate

end Source

variable {m m' : Model} {s : Source}

/-- **What a source without errors adds** to all the collections are its
templates, each once. -/
theorem Model.added_perm (hm : m.NamesDistinct) (h : s.errors = []) :
    (m.added (m.extend s)).Perm s.templates := by
  have hupdated := updatedBy_extend hm s
  let say (d : Declaration) := d.line.template? (Template.placed s.name d.span)
  let keys : List (Kind × Text) := [Kind.intent, Kind.entity].flatMap fun kind =>
    ((m.extend s).collections kind).map fun c => (kind, c.name)
  have hadded : m.added (m.extend s) =
      keys.flatMap fun key => (attachedTo key.1 key.2 s.declarations).filterMap say := by
    rw [List.flatMap_assoc]
    refine List.flatMap_congr fun kind _ => ?_
    rw [List.flatMap_map]
    refine List.flatMap_congr fun c hc => ?_
    rw [hupdated.templates kind c hc, List.drop_left]
  have hkeys : keys.Nodup := by
    refine List.nodup_flatMap.2 ⟨fun kind _ => ?_, by simp [List.disjoint_left]⟩
    have hnames := namesDistinct_extend hm s kind
    refine List.Nodup.of_map Prod.snd ?_
    rwa [List.map_map]
  rw [hadded]
  refine flatMap_attachedTo_perm hkeys say fun before d after hsplit hsay => ?_
  obtain ⟨⟨kind, name⟩, hopen⟩ := s.exists_open_of_template h hsplit hsay
  obtain ⟨e, he, hopened⟩ := exists_opened_of_openAfter hopen
  have hknown : name ∈ ((m.extend s).collections kind).map Collection.name := by
    rw [hupdated.names]
    exact mem_append_newNames (hsplit ▸ List.mem_append_left _ he) hopened
  obtain ⟨c, hc, rfl⟩ := List.mem_map.1 hknown
  refine ⟨(kind, c.name), List.mem_flatMap.2 ⟨kind, ?_, List.mem_map.2 ⟨c, hc, rfl⟩⟩, hopen⟩
  cases kind <;> simp

/-! ## Errors -/

namespace Source

/-- An error is about a line that cannot be read where it stands. -/
def Refuses (s : Source) (m : Model) (lines : List SourceLine) (error : LineError) : Prop :=
  ∃ before line after, lines = before ++ line :: after ∧
    ((s.reading m before).readLine s.name line).value = .error error.fault ∧
    error = ⟨error.fault, line.span, s.name, s.text.unixLineEnds⟩

theorem Refuses.append {s : Source} {m : Model} {lines : List SourceLine} {error : LineError}
    (h : s.Refuses m lines error) (more : List SourceLine) : s.Refuses m (lines ++ more) error := by
  obtain ⟨before, line, after, rfl, h⟩ := h
  exact ⟨before, line, after ++ more, by simp, h⟩

/-- **An error of a source** is about a line of it. -/
theorem refuses_of_mem_errors (s : Source) (m : Model) {lines : List SourceLine}
    {error : LineError}
    (h : error ∈ (lines.foldl (Progress.next s.name s.text.unixLineEnds)
      { reading := { model := m } }).errors) : s.Refuses m lines error := by
  induction lines using List.reverseRecOn with
  | nil => cases h
  | append_singleton lines line ih =>
    rw [List.foldl_append, List.foldl_cons, List.foldl_nil, Progress.next] at h
    split at h
    · exact (ih h).append [line]
    · rename_i fault hfault
      rcases List.mem_cons.1 h with rfl | h
      · exact ⟨lines, line, [], rfl, hfault, rfl⟩
      · exact (ih h).append [line]

/-- A line that cannot be read is not blank. -/
theorem trim_ne_nil_of_readLine {source : Text} {r : Reading} {line : SourceLine} {fault : Fault}
    (h : (r.readLine source line).value = .error fault) : line.raw.trim ≠ [] := by
  intro hnil
  have hempty : Line.clean line.raw = [] := by rw [← Line.clean_trim, hnil, Line.clean_nil]
  simp [Reading.readLine, hempty] at h

end Source

/-- **A source is refused** for its size or for some of its lines. -/
theorem Model.exists_errors_of_load {limit : Nat} {m : Model} {text : Text} {source : Option Text}
    {e : Error} (hsize : text.byteSize ≤ limit) (h : (m.load limit text source).value = .error e) :
    ∃ errors : List LineError, errors ≠ [] ∧ e = .ofList (errors.map .line) ∧
      ∀ error ∈ errors, Source.Refuses ⟨text, source.getD unnamedSource⟩ m
        (Source.lines ⟨text, source.getD unnamedSource⟩) error := by
  simp only [load, Nat.not_lt.2 hsize, if_false] at h
  split at h
  · cases h
  · rename_i hne
    obtain rfl := Except.error.inj h
    refine ⟨_, hne, rfl, fun error herror => ?_⟩
    exact Source.refuses_of_mem_errors ⟨text, source.getD unnamedSource⟩ m
      (List.mem_reverse.1 herror)

/-! ## Diagnostics -/

/-- **A diagnostic of a collection** is about one of its templates. -/
theorem Collection.ExpandsTo.exists_template {c : Collection} {vars : Variables} {order : Order}
    {e : Expanded} (h : c.ExpandsTo vars order e) {d : Diagnostic} (hd : d ∈ e.diagnostics) :
    ∃ t ∈ c.templates, d = Diagnostic.of t (some c.name) d.finding := by
  obtain ⟨runs, hruns, rfl⟩ := Collection.expandsTo_iff.1 h
  obtain ⟨run, hrun, hd⟩ := List.mem_flatMap.1 hd
  obtain ⟨t, ht, hexpands⟩ := exists_left_of_forall₂ hruns hrun
  obtain ⟨-, visits, -, rfl⟩ := Utterance.expandsTo_iff.1 hexpands
  rw [Run.diagnostics_eq] at hd
  obtain ⟨finding, -, rfl⟩ := List.mem_map.1 hd
  exact ⟨t, ht, rfl⟩

/-- The diagnostics of a compiled model are about the templates of the
collections that they name. -/
theorem Model.CompilesTo.exists_template {m : Model} {order : Order} {compiled : Compiled}
    (h : m.CompilesTo order compiled) {kind : Kind} {e : Expanded} (he : e ∈ compiled.ofKind kind)
    {d : Diagnostic} (hd : d ∈ e.diagnostics) :
    ∃ c ∈ m.collections kind, c.name = e.name ∧
      ∃ t ∈ c.templates, d = Diagnostic.of t (some c.name) d.finding := by
  obtain ⟨es, hall, rfl⟩ := compilesTo_iff.1 h
  rw [ofKind_gather] at he
  have hmem : e ∈ es kind := (order.arrange_perm Expanded.name _).mem_iff.1 he
  obtain ⟨c, hc, hexpands⟩ := exists_left_of_forall₂ (hall kind) hmem
  obtain ⟨runs, -, rfl⟩ := Collection.expandsTo_iff.1 hexpands
  exact ⟨c, hc, rfl, hexpands.exists_template hd⟩

/-! ## Locations -/

/-- **Locations point at the right text.** Let a source be loaded after any
others, and let N be its text with line feeds for line ends.

If it is accepted, the templates that it adds, behind those that each collection
had, can be put into the order of their lines: their spans follow one another,
and each one locates a part of N that is the template's text once it is cleaned.
If it is refused, other than for its size, each of the errors has N as its source
text and the fault of the line that it names, where that line stands, and its
span locates the whole of that line without the blanks at its ends. And every
diagnostic of a compiled model is about a template of the collection that it
names, and has its text, source and span. -/
theorem Workspace.locations_point_at_text (limit : Nat) (previous : List Source) (text : Text)
    (source : Option Text) :
    let m := (({ limit } : Workspace).addAll previous).2.model
    let s : Source := ⟨text, source.getD unnamedSource⟩
    let n := text.unixLineEnds
    (∀ m', (m.load limit text source).value = .ok m' →
      (∀ kind, ∀ c ∈ m'.collections kind,
        (m.collectionOrNew kind c.name).templates <+: c.templates) ∧
      ∃ ts, (m.added m').Perm ts ∧ ts.Pairwise Template.Before ∧
        ∀ t ∈ ts, t.source = some s.name ∧ ∃ span part, t.span = some span ∧
          span.Locates n part ∧ Line.clean part = t.text) ∧
    (∀ e, text.byteSize ≤ limit → (m.load limit text source).value = .error e →
      ∃ errors : List LineError, errors ≠ [] ∧ e = .ofList (errors.map .line) ∧
        ∀ error ∈ errors, error.source = s.name ∧ error.sourceText = n ∧
          ∃ before line after, s.lines = before ++ line :: after ∧
            ((s.reading m before).readLine s.name line).value = .error error.fault ∧
            n.lines[error.span.line - 1]? = some line.raw ∧
            error.span.Locates n line.raw.trim) ∧
    ∀ order compiled, m.CompilesTo order compiled → ∀ kind, ∀ e ∈ compiled.ofKind kind,
      ∀ d ∈ e.diagnostics, d.collection = some e.name ∧
        ∃ c ∈ m.collections kind, c.name = e.name ∧
          ∃ t ∈ c.templates, d.template = t.text ∧ d.source = t.source ∧ d.span = t.span := by
  intro m s n
  have hm : m.NamesDistinct :=
    namesDistinct_addAll (w := { limit }) Model.namesDistinct_empty previous
  refine ⟨fun m' hload => ?accepted, fun e hsize hload => ?refused,
    fun order compiled hcompiled kind e he d hd => ?diagnosed⟩
  case accepted =>
    obtain ⟨-, hacceptable, rfl⟩ := Model.load_eq_ok_iff.1 hload
    have herrors : s.errors = [] := s.errors_eq_nil_iff.2 hacceptable
    refine ⟨fun kind c hc => ?_, s.templates, Model.added_perm hm herrors, s.pairwise_templates,
      fun t => s.locates_of_mem_templates⟩
    rw [(Model.updatedBy_extend hm s).templates kind c hc]
    exact List.prefix_append ..
  case refused =>
    obtain ⟨errors, hne, he, hrefuses⟩ := Model.exists_errors_of_load hsize hload
    refine ⟨errors, hne, he, fun error herror => ?_⟩
    obtain ⟨before, line, after, hlines, hfault, hplace⟩ := hrefuses error herror
    have hline : line ∈ SourceLine.ofText n := by
      change line ∈ s.lines
      rw [hlines]
      simp
    have hspan : error.span = line.span := congrArg LineError.span hplace
    refine ⟨congrArg LineError.source hplace, congrArg LineError.sourceText hplace, before, line,
      after, hlines, hfault, ?_⟩
    rw [hspan]
    exact ⟨SourceLine.getElem?_lines_of_mem hline,
      SourceLine.locates hline (Source.trim_ne_nil_of_readLine hfault)⟩
  case diagnosed =>
    obtain ⟨c, hc, hname, t, ht, hd⟩ := hcompiled.exists_template he hd
    rw [hd]
    exact ⟨congrArg some hname, c, hc, hname, t, ht, rfl, rfl, rfl⟩

/-- A source with other line ends, letters and blanks of several bytes, a
comment, a blank line and no line feed at its end, which is accepted, and one
with three bad lines, which is refused, after a source whose template has a
diagnostic. -/
theorem Workspace.locations_point_at_text_wide :
    let previous : List Source := [⟨"INTENT: Tea\nmilk $x".toList, "first".toList⟩]
    let m := (({ limit := 1000 } : Workspace).addAll previous).2.model
    let good : Text :=
      "\r\n\u2003Intent: Tea # é\r\n é  <size>\u00a0tea\t# heiß\r\n\n\ttee\rß\u3000".toList
    let bad : Text := "é\r\n\u3000SLOT: ü # no\r\n\nINTENT: 1".toList
    (∃ m', (m.load 1000 good none).value = .ok m' ∧
      (m.added m').map (fun t => (t.text, t.span)) =
        [("é <size> tea".toList, some ⟨22, 45, 3, 2⟩), ("tee ß".toList, some ⟨48, 54, 5, 2⟩)] ∧
      ∀ t ∈ m.added m', ∃ span part, t.span = some span ∧
        span.Locates good.unixLineEnds part ∧ Line.clean part = t.text) ∧
    (∃ errors : List LineError,
      (m.load 1000 bad none).value = .error (.ofList (errors.map .line)) ∧
      ∀ error ∈ errors, error.sourceText = bad.unixLineEnds ∧ ∃ raw ∈ bad.unixLineEnds.lines,
        error.span.Locates bad.unixLineEnds raw.trim) ∧
    ∃ compiled, m.CompilesTo .found compiled ∧
      compiled.diagnostics.map (fun d => (d.template, d.span)) =
        [("milk $x".toList, some ⟨12, 19, 2, 1⟩)] ∧
      ∀ e ∈ compiled.intents, ∀ d ∈ e.diagnostics, ∃ c ∈ m.intents, c.name = e.name ∧
        ∃ t ∈ c.templates, d.template = t.text ∧ d.source = t.source ∧ d.span = t.span := by
  intro previous m good bad
  obtain ⟨haccepted, -, hdiagnosed⟩ := locations_point_at_text 1000 previous good none
  obtain ⟨-, hrefused, -⟩ := locations_point_at_text 1000 previous bad none
  refine ⟨?_, ?_, ?_⟩
  · have hsize : good.byteSize ≤ 1000 := by decide +kernel
    have herrors : Source.errors ⟨good, unnamedSource⟩ = [] := by decide +kernel
    have hload := m.load_of_errors_eq_nil none hsize herrors
    obtain ⟨-, ts, hperm, -, hts⟩ := haccepted _ hload
    exact ⟨_, hload, by decide +kernel, fun t ht => (hts t (hperm.mem_iff.1 ht)).2⟩
  · have hsize : bad.byteSize ≤ 1000 := by decide +kernel
    have hbad : Source.errors ⟨bad, unnamedSource⟩ ≠ [] := by decide +kernel
    cases hvalue : (m.load 1000 bad none).value with
    | ok m' =>
      obtain ⟨-, hacceptable, -⟩ := Model.load_eq_ok_iff.1 hvalue
      exact absurd ((Source.errors_eq_nil_iff _).2 hacceptable) hbad
    | error e =>
      obtain ⟨errors, -, rfl, herrors⟩ := hrefused e hsize hvalue
      refine ⟨errors, rfl, fun error herror => ?_⟩
      obtain ⟨-, htext, _, line, _, -, -, hraw, hlocates⟩ := herrors error herror
      exact ⟨htext, line.raw, List.mem_of_getElem? hraw, hlocates⟩
  · obtain ⟨logged, hcompile, hdiagnostics⟩ : ∃ logged, m.compile 20 .found = some logged ∧
        logged.value.diagnostics.map (fun d => (d.template, d.span)) =
          [("milk $x".toList, some ⟨12, 19, 2, 1⟩)] := by
      have hsome : (m.compile 20 .found).map (fun logged =>
          logged.value.diagnostics.map fun d => (d.template, d.span)) =
            some [("milk $x".toList, some ⟨12, 19, 2, 1⟩)] := by
        -- a set of what was found does not evaluate, and a list does
        delta Model.compile Collection.expand Collection.gather Run.diagnostics
        simp only [distinct_eq]
        decide +kernel
      exact Option.map_eq_some_iff.1 hsome
    have hcompiles : m.CompilesTo .found logged.value := ⟨20, logged, hcompile, rfl⟩
    exact ⟨logged.value, hcompiles, hdiagnostics, fun e he d hd =>
      (hdiagnosed .found _ hcompiles .intent e he d hd).2⟩

end Utterance
