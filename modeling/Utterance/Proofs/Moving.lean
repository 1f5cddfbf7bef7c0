import Utterance.Proofs.Positions
import Utterance.Proofs.Relative
import Utterance.Proofs.RoundTrip
import Mathlib.Algebra.GroupWithZero.Nat

/-!
# Moving — a definition binds wherever it stands

Templates are expanded when everything is loaded, under the table of variables
as it is then. The line of a definition changes that table and nothing else
(`Model.extendFrom_withoutDefinitions`); it opens no collection and needs none
that is open (`Line.faultless_filter`). So two sources say the same if they have
the same lines that define no variable, in the same order, and if each variable
is given the same definitions in turn (`Model.saysAs_extendFrom`). Both is the
case where the line of a definition is moved over lines that do not define the
same variable (`Text.Moves`). Such a source is accepted as before, and compiles
to the same (`Model.load_moved`).
-/

namespace Utterance

/-! ## Lines that define no variable -/

namespace Line

/-- Whether a line defines a variable. -/
def isDefinition : Line → Bool
  | definition .. => true
  | _ => false

/-- A definition has no fault and opens nothing. -/
theorem fault?_and_opened?_of_isDefinition {l : Line} (hl : l.isDefinition = true)
    (current : Option (Kind × Text)) : l.fault? current = none ∧ l.opened? = none := by
  cases l with
  | definition name beforeSign text => exact ⟨rfl, rfl⟩
  | _ => cases hl

theorem faultless_filter {current : Option (Kind × Text)} {ls : List Line} :
    Faultless current (ls.filter fun l => !l.isDefinition) ↔ Faultless current ls := by
  induction ls generalizing current with
  | nil => rfl
  | cons l ls ih =>
    cases hl : l.isDefinition with
    | true =>
      obtain ⟨hfault, hopened⟩ := fault?_and_opened?_of_isDefinition hl current
      simp [hl, Faultless, hfault, hopened, ih]
    | false => simp [hl, Faultless, ih]

end Line

/-- The model with another table of variables. -/
def Model.withVars (m : Model) (vars : Variables) : Model :=
  { m with vars }

/-- A line that defines no variable neither reads the variables nor changes
them. -/
theorem Line.effect_withVars {l : Line} (hl : l.isDefinition = false) (template : Text → Template)
    (current : Option (Kind × Text)) (m : Model) (vars : Variables) :
    l.effect template current (m.withVars vars) = (l.effect template current m).withVars vars := by
  have hmodify (kind : Kind) (name : Text) (change : Collection → Collection) :
      (m.withVars vars).modifyCollection kind name change =
        (m.modifyCollection kind name change).withVars vars := by
    cases kind <;> rfl
  cases l with
  | invocation keyword name => rfl
  | language keyword code => rfl
  | opening kind keyword name =>
    have hfound : (m.withVars vars).collection? kind name.text = m.collection? kind name.text := by
      cases kind <;> rfl
    rw [effect, effect, Model.openCollection, Model.openCollection, hfound]
    split
    · rfl
    · cases kind <;> rfl
  | slot keyword name beforeType type beforeExample «example» =>
    rcases current with _ | ⟨_ | _, intent⟩
    · rfl
    · exact hmodify ..
    · rfl
  | definition name beforeSign text => cases hl
  | sentence text =>
    rcases current with _ | ⟨kind, name⟩
    · rfl
    · exact hmodify ..

/-- The declarations that define no variable. -/
def withoutDefinitions (ds : List Declaration) : List Declaration :=
  ds.filter fun d => !d.line.isDefinition

namespace Model

variable {source : Text} {current : Option (Kind × Text)} {ds es : List Declaration}

theorem extendFrom_withVars (h : ∀ d ∈ ds, d.line.isDefinition = false) (m : Model)
    (vars : Variables) :
    extendFrom source current ds (m.withVars vars) =
      (extendFrom source current ds m).withVars vars := by
  induction ds generalizing current m with
  | nil => rfl
  | cons d ds ih =>
    rw [extendFrom, extendFrom, Line.effect_withVars (h d (by simp)),
      ih fun e he => h e (by simp [he])]

/-- **Definitions change the variables and nothing else**: without them, some
declarations do the same but for the variables. -/
theorem extendFrom_withoutDefinitions (ds : List Declaration) (m : Model) :
    extendFrom source current ds m =
    (extendFrom source current (withoutDefinitions ds) m).withVars
      (extendFrom source current ds m).vars := by
  induction ds generalizing current m with
  | nil => rfl
  | cons d ds ih =>
    obtain ⟨l, span⟩ := d
    cases l with
    | definition name beforeSign text =>
      have hplain : ∀ d ∈ withoutDefinitions ds, d.line.isDefinition = false := by
        simp [withoutDefinitions]
      change extendFrom source current ds (m.withVars (m.vars.define name text.text)) =
        (extendFrom source current (withoutDefinitions ds) m).withVars
          (extendFrom source current ds (m.withVars (m.vars.define name text.text))).vars
      conv_lhs => rw [ih, extendFrom_withVars hplain]
      rfl
    | _ => exact ih _

/-- **Declarations say the same** if they are the same lines where they define
no variable, and give the same definitions to each variable in turn. -/
theorem saysAs_extendFrom
    (hplain : (withoutDefinitions ds).map Declaration.relative =
      (withoutDefinitions es).map Declaration.relative)
    (hdefinitions : ∀ key, (ds.filterMap fun d => d.line.defines? key) =
      es.filterMap fun d => d.line.defines? key) (m : Model) :
    (extendFrom source current ds m).SaysAs (extendFrom source current es m) := by
  have hsame : (extendFrom source current (withoutDefinitions ds) m).mapTemplates
        Template.relative =
      (extendFrom source current (withoutDefinitions es) m).mapTemplates Template.relative := by
    refine mapTemplates_extendFrom ((forall₂_of_map_eq hplain).imp fun d e hde => ?_) rfl
    obtain ⟨hline, hspan⟩ := Declaration.mk.inj hde
    exact ⟨hline, fun text => by simp [Template.placed, Template.relative, hspan]⟩
  have hdefined (key : Text) := extendFrom_last (fun m => m.vars.entries.lookup key) _
    (lookup_effect key) source current
  refine ⟨?_, ?_, fun name => ?_, fun kind => ?_⟩
  · rw [extendFrom_withoutDefinitions ds, extendFrom_withoutDefinitions es]
    exact (congrArg Model.invocationName hsame :)
  · rw [extendFrom_withoutDefinitions ds, extendFrom_withoutDefinitions es]
    exact (congrArg Model.language hsame :)
  · exact (hdefined name.lower ds m).trans
      ((hdefinitions name.lower ▸ hdefined name.lower es m).symm)
  · have hcollections := congrArg (Model.collections · kind) hsame
    simp only [collections_mapTemplates] at hcollections
    rw [extendFrom_withoutDefinitions ds, extendFrom_withoutDefinitions es]
    cases kind <;> exact hcollections

end Model

/-! ## Rows -/

namespace Text

/-- A line without the carriage return that may end it. -/
def withoutReturn (raw : Text) : Text :=
  if raw.getLast? = some '\r' then raw.dropLast else raw

/-- **The rows of a text**: its lines without their line ends. -/
def rows (text : Text) : List Text :=
  text.lines.map withoutReturn

theorem lines_ne_nil (text : Text) : text.lines ≠ [] :=
  List.splitOn_ne_nil '\n' text

/-- What makes nothing of a carriage return at the end of a line reads the rows
of a text. -/
theorem map_lines_unixLineEnds {β : Type} {f : Text → β} (hf : ∀ s, f (s ++ ['\r']) = f s)
    (text : Text) : text.unixLineEnds.lines.map f = text.rows.map f := by
  have hreturn (raw : Text) : f raw.withoutReturn = f raw := by
    unfold withoutReturn
    split
    · rename_i hlast
      rw [← hf, List.dropLast_append_getLast? _ hlast]
    · rfl
  have hlines := map_lines_intercalate hf text.lines_ne_nil
    fun raw hraw => newline_not_mem_of_mem_lines hraw
  rw [intercalate_lines] at hlines
  rw [hlines, rows, List.map_map]
  exact List.map_congr_left fun raw _ => (hreturn raw).symm

theorem cleanedLines_eq (text : Text) : text.cleanedLines = text.rows.map Line.clean :=
  map_lines_unixLineEnds (Line.clean_append_blank (by decide)) text

end Text

namespace Line

/-- The declaration that a line makes, without its number and offset. -/
def declares? (raw : Text) : Option Declaration :=
  (parse (clean raw)).toOption.map fun l => ⟨l, (Span.ofLine 0 raw 0).relative⟩

theorem declares?_append_return (s : Text) : declares? (s ++ ['\r']) = declares? s := by
  have hreturn : isBlank '\r' = true := by decide
  rw [declares?, declares?, clean_append_blank hreturn]
  by_cases hs : ∀ c ∈ s, isBlank c = true
  · -- a blank line makes no declaration
    have hclean : clean s = [] := by
      rw [← clean_trim, Text.trim_eq_nil_iff.2 (Text.trimEnd_eq_nil_iff.2 hs), clean_nil]
    rw [hclean, parse_nil]
    rfl
  · have hindent : Text.indent (s ++ ['\r']) = Text.indent s := by
      have hbegin : s.takeWhile isBlank <+: s := List.takeWhile_prefix _
      rw [Text.indent, Text.indent, List.takeWhile_append, if_neg fun hlength =>
        hs (List.takeWhile_eq_self_iff.1 (hbegin.eq_of_length hlength))]
    rw [Span.relative_ofLine, Span.relative_ofLine, Text.trim_append_blank hreturn, hindent]

end Line

/-- **What a source declares**, but for lines and offsets, is what its rows
declare. -/
theorem Source.map_relative_declarations (s : Source) :
    s.declarations.map Declaration.relative = s.text.rows.filterMap Line.declares? := by
  have hline (start number : Nat) (raw : Text) :
      (SourceLine.declaration? ⟨raw, .ofLine start raw number⟩).map Declaration.relative =
        Line.declares? raw := by
    simp [SourceLine.declaration?, SourceLine.cleaned, Line.declares?, Declaration.relative,
      Span.relative_ofLine, Function.comp_def]
  have hnumber (start number : Nat) (raws : List Text) :
      (SourceLine.number start number raws).filterMap
          (fun line => line.declaration?.map Declaration.relative) =
        raws.filterMap Line.declares? := by
    induction raws generalizing start number with
    | nil => rfl
    | cons raw raws ih =>
      rw [SourceLine.number_cons, List.filterMap_cons, List.filterMap_cons, hline, ih]
  have hrows := Text.map_lines_unixLineEnds Line.declares?_append_return s.text
  calc s.declarations.map Declaration.relative
      = s.text.unixLineEnds.lines.filterMap Line.declares? := by
        rw [declarations, List.map_filterMap]
        exact hnumber ..
    _ = (s.text.unixLineEnds.lines.map Line.declares?).filterMap id := by
        rw [List.filterMap_map, Function.id_comp]
    _ = s.text.rows.filterMap Line.declares? := by
        rw [hrows, List.filterMap_map, Function.id_comp]

/-! ## Moving a definition -/

/-- **A line is moved over some others**, forward or backward. The text is made
of the same lines then, and so of as many bytes. -/
structure Text.Moves (line : Text) (passed : List Text) (text moved : Text) : Prop where
  /-- The line stands in front of the others in one text, behind them in the
  other. -/
  rows : ∃ before after,
    text.rows = before ++ line :: passed ++ after ∧ moved.rows = before ++ passed ++ line :: after ∨
    text.rows = before ++ passed ++ line :: after ∧ moved.rows = before ++ line :: passed ++ after
  /-- The line ends take up as much as before. -/
  size : moved.byteSize = text.byteSize

/-- The bytes of some lines that are joined, and one for each line feed. -/
theorem Text.byteSize_intercalate {raws : List Text} (hne : raws ≠ []) :
    byteSize (['\n'].intercalate raws) + 1 = (raws.map fun raw => raw.byteSize + 1).sum := by
  have hfeed : '\n'.utf8Size = 1 := by decide
  induction raws with
  | nil => exact absurd rfl hne
  | cons raw raws ih =>
    cases raws with
    | nil => simp
    | cons next raws =>
      rw [List.intercalate_cons_cons, List.map_cons, List.sum_cons, ← ih (by simp)]
      simp only [byteSize_append, byteSize_cons, byteSize_nil, hfeed]
      omega

namespace Text.Moves

variable {line text moved : Text} {passed : List Text}

theorem symm (h : Moves line passed text moved) : Moves line passed moved text :=
  ⟨h.rows.imp fun _ => Exists.imp fun _ rows => rows.symm.imp And.symm And.symm, h.size.symm⟩

/-- **To take a line out and put it in further down** is to move it. -/
theorem of_lines {before after : List Text}
    (htext : text.lines = before ++ line :: passed ++ after)
    (hmoved : moved.lines = before ++ passed ++ line :: after) :
    Moves line.withoutReturn (passed.map withoutReturn) text moved := by
  have hsize (s : Text) : s.byteSize + 1 = (s.lines.map fun raw => raw.byteSize + 1).sum := by
    rw [← byteSize_intercalate s.lines_ne_nil, intercalate_lines]
  have hperm : moved.lines.Perm text.lines := by
    rw [htext, hmoved]
    have hmiddle : (passed ++ line :: after).Perm (line :: (passed ++ after)) := List.perm_middle
    simpa using hmiddle.append_left before
  refine ⟨⟨before.map withoutReturn, after.map withoutReturn, .inl ⟨?_, ?_⟩⟩, ?_⟩
  · simp [Text.rows, htext]
  · simp [Text.rows, hmoved]
  · have hsum := (hperm.map fun raw => raw.byteSize + 1).sum_eq
    rw [← hsize, ← hsize] at hsum
    omega

/-- What skips the line, or all lines that it passes, reads the same. -/
theorem filterMap_rows {α : Type} {f : Text → Option α} (h : Moves line passed text moved)
    (hf : f line = none ∨ ∀ raw ∈ passed, f raw = none) :
    moved.rows.filterMap f = text.rows.filterMap f := by
  have hsame (before after : List Text) :
      (before ++ line :: passed ++ after).filterMap f =
        (before ++ passed ++ line :: after).filterMap f := by
    rcases hf with hline | hpassed
    · simp [hline]
    · cases hline : f line <;> simp [hline, List.filterMap_eq_nil_iff.2 hpassed]
  obtain ⟨before, after, ⟨htext, hmoved⟩ | ⟨htext, hmoved⟩⟩ := h.rows
  · rw [htext, hmoved, hsame]
  · rw [htext, hmoved, hsame]

theorem mem_rows (h : Moves line passed text moved) {raw : Text} :
    raw ∈ moved.rows ↔ raw ∈ text.rows := by
  obtain ⟨before, after, ⟨htext, hmoved⟩ | ⟨htext, hmoved⟩⟩ := h.rows
  · simp [htext, hmoved, or_left_comm]
  · simp [htext, hmoved, or_left_comm]

/-- Where the line is a definition, the lines that are none stay as they are. -/
theorem filter_parsed (h : Moves line passed text moved) {name gap : Text} {definition : Spaced}
    (hline : Line.parse (Line.clean line) = .ok (.definition name gap definition)) :
    (Line.parsed moved.cleanedLines).filter (fun l => !l.isDefinition) =
      (Line.parsed text.cleanedLines).filter (fun l => !l.isDefinition) := by
  rw [Line.parsed, Line.parsed, List.filter_filterMap, List.filter_filterMap, cleanedLines_eq,
    cleanedLines_eq, List.filterMap_map, List.filterMap_map]
  refine h.filterMap_rows (.inl ?_)
  rw [Function.comp_apply, hline]
  rfl

/-- **The sources declare the same**: where the line is a definition, the lines
that are none stay as they are, and if it passes no definition of the same name,
each variable is given the same definitions in turn. -/
theorem saysAs_extend (h : Moves line passed text moved) {name gap : Text} {definition : Spaced}
    (hline : Line.parse (Line.clean line) = .ok (.definition name gap definition))
    (hpassed : ∀ raw ∈ passed, ∀ l, Line.parse (Line.clean raw) = .ok l →
      l.defines? name.lower = none)
    (source : Text) (m : Model) : (m.extend ⟨text, source⟩).SaysAs (m.extend ⟨moved, source⟩) := by
  have hdeclares : Line.declares? line =
      some ⟨.definition name gap definition, (Span.ofLine 0 line 0).relative⟩ := by
    rw [Line.declares?, hline]
    rfl
  -- nothing but the lines of the declarations is asked for
  have hread {α : Type} {f : Line → Option α} (s : Source) :
      (s.declarations.filterMap fun d => f d.line) =
        s.text.rows.filterMap fun raw => (Line.declares? raw).bind fun d => f d.line := by
    rw [← List.filterMap_filterMap, ← s.map_relative_declarations, List.filterMap_map]
    rfl
  refine Model.saysAs_extendFrom ?_ (fun key => ?_) m
  · have hplain (s : Source) :
        (withoutDefinitions s.declarations).map Declaration.relative =
          s.text.rows.filterMap fun raw =>
            (Line.declares? raw).filter fun d => !d.line.isDefinition := by
      rw [← List.filter_filterMap, ← s.map_relative_declarations, List.filter_map]
      rfl
    rw [hplain, hplain]
    exact (h.filterMap_rows (.inl (by rw [hdeclares]; rfl))).symm
  · rw [hread, hread]
    refine (h.filterMap_rows ?_).symm
    by_cases hkey : name.lower = key
    · subst hkey
      refine .inr fun raw hraw => ?_
      unfold Line.declares?
      cases hparse : Line.parse (Line.clean raw) with
      | error expected => rfl
      | ok l => exact hpassed raw hraw l hparse
    · exact .inl (by simp [hdeclares, Line.defines?, hkey])

end Text.Moves

/-- **Definitions bind wherever they stand.** Take an accepted source, and move
the line of a definition over some other lines, forward or backward, none of
which defines the same variable. The source is still accepted, and what is
loaded compiles to the same, but for the lines and offsets in the
diagnostics. -/
theorem Model.load_moved {limit : Nat} {m loaded : Model} {text moved line : Text}
    {passed : List Text} {source : Option Text} {name gap : Text} {definition : Spaced}
    (hload : (m.load limit text source).value = .ok loaded)
    (hline : Line.parse (Line.clean line) = .ok (.definition name gap definition))
    (hmoves : Text.Moves line passed text moved)
    (hpassed : ∀ raw ∈ passed, ∀ l, Line.parse (Line.clean raw) = .ok l →
      l.defines? name.lower = none) :
    ∃ loaded', (m.load limit moved source).value = .ok loaded' ∧
      ∀ fuel order, (loaded.compile fuel order).map (fun c => c.value.relative) =
        (loaded'.compile fuel order).map (fun c => c.value.relative) := by
  obtain ⟨hsize, ⟨hparse, hfaultless⟩, rfl⟩ := load_eq_ok_iff.1 hload
  refine ⟨_, load_eq_ok_iff.2 ⟨hmoves.size ▸ hsize, ⟨?_, ?_⟩, rfl⟩,
    (hmoves.saysAs_extend hline hpassed _ m).map_compile⟩
  · intro t ht
    rw [Text.cleanedLines_eq, List.mem_map] at ht
    obtain ⟨raw, hraw, rfl⟩ := ht
    refine hparse _ ?_
    rw [Text.cleanedLines_eq]
    exact List.mem_map_of_mem (hmoves.mem_rows.1 hraw)
  · rw [← Line.faultless_filter, hmoves.filter_parsed hline, Line.faultless_filter]
    exact hfaultless

/-- The definition of a variable that is defined once more in front, moved from
behind its last use to the middle of the intent, in a source whose lines end in
carriage returns, but for the last one. -/
theorem Model.load_moved_up :
    let join (lines : List String) : Text := ['\n'].intercalate (lines.map String.toList)
    let before := ["SIZE = small\r", "INTENT: Order\r"]
    let passed := ["SLOT: n :Int\r", "  a $size <m> $gap tea # tea\r", "milk = oat\r"]
    let after := ["ENTITY: Drink\r", "$milk"]
    let text := join (before ++ passed ++ "size = (big|$Milk)\r" :: after)
    let moved := join (before ++ "size = (big|$Milk)\r" :: passed ++ after)
    ∃ loaded loaded', (({} : Model).load 200 text none).value = .ok loaded ∧
      (({} : Model).load 200 moved none).value = .ok loaded' ∧
      (∀ fuel order, (loaded.compile fuel order).map (fun c => c.value.relative) =
        (loaded'.compile fuel order).map (fun c => c.value.relative)) ∧
      (loaded'.compile 30 .found).map (fun c => c.value.relative.intents.map fun e =>
          (e.sentences, e.diagnostics.map fun d => (d.finding, d.span))) =
        some [(["a oat <m>  tea".toList, "a big <m>  tea".toList],
          [(.undefinedVariable "gap".toList, some ⟨0, 26, 0, 3⟩),
            (.undefinedSlot "m".toList "a oat <m>  tea".toList, some ⟨0, 26, 0, 3⟩),
            (.undefinedSlot "m".toList "a big <m>  tea".toList, some ⟨0, 26, 0, 3⟩)])] := by
  intro join before passed after text moved
  have hsize : text.byteSize ≤ 200 := by decide +kernel
  have herrors : Source.errors ⟨text, unnamedSource⟩ = [] := by decide +kernel
  have hload := ({} : Model).load_of_errors_eq_nil none hsize herrors
  have htext : text.lines = before.map String.toList ++ passed.map String.toList ++
      "size = (big|$Milk)\r".toList :: after.map String.toList := by decide +kernel
  have hmoved : moved.lines = before.map String.toList ++
      "size = (big|$Milk)\r".toList :: passed.map String.toList ++ after.map String.toList := by
    decide +kernel
  have hline : Line.parse (Line.clean (Text.withoutReturn "size = (big|$Milk)\r".toList)) =
      .ok (.definition "size".toList [' '] ⟨[' '], "(big|$Milk)".toList⟩) := by decide +kernel
  have hpassed : ∀ raw ∈ (passed.map String.toList).map Text.withoutReturn,
      ∀ l, Line.parse (Line.clean raw) = .ok l → l.defines? "size".toList = none := by
    have hnone : ∀ raw ∈ (passed.map String.toList).map Text.withoutReturn,
        (Line.parse (Line.clean raw)).toOption.bind (Line.defines? "size".toList) = none := by
      decide +kernel
    intro raw hraw l hparse
    simpa [hparse, Except.toOption] using hnone raw hraw
  obtain ⟨loaded', hload', hsame⟩ :=
    load_moved hload hline (Text.Moves.of_lines hmoved htext).symm hpassed
  refine ⟨_, loaded', hload, hload', hsame, ?_⟩
  let reports (c : Compiled) := c.intents.map fun e =>
    (e.sentences, e.diagnostics.map fun d => (d.finding, d.span))
  change (loaded'.compile 30 .found).map (reports ∘ fun c => c.value.relative) = _
  rw [← Option.map_map, ← hsame]
  -- a set of what was found does not evaluate, and a list does
  delta Model.compile Collection.expand Collection.gather Run.diagnostics
  simp only [distinct_eq]
  decide +kernel

end Utterance
