import Utterance.Command.Run
import Utterance.Proofs.Actions
import Utterance.Proofs.Compiling
import Utterance.Proofs.Emission
import Utterance.Proofs.Logs
import Utterance.Proofs.Positions
import Utterance.Proofs.RoundTrip
import Utterance.Proofs.Usage

/-!
# Ad hoc expansions — a template on the command line

A template that is given on the command line, with definitions and slots, is
expanded without a source. The same can be written down: the definitions, the
opening of an intent, the slots and the template, a line for each
(`Command.spelledOut`). The two are read in different ways. An argument is
divided at its first equals sign and trimmed, a line is parsed, and they define
the same (`Line.IsDefinition.readAssignment`); the slots of a command are taken
as they come, those of an intent are declared once, and a placeholder is found
among the ones exactly if it is found among the others
(`Slot.undeclared_newSlots`); a command logs its diagnostics while it expands,
and those of an intent are kept (`Run.diagnostics_events`). So the command prints
the sentences of the intent (`Command.expand_agrees_with_source`).
-/

namespace Utterance

/-! ## Definitions -/

namespace Line

/-- In a clean line, the blanks at the head of what follows a sign are the
spaces there, and there are none at its end. -/
theorem trim_of_clean {before rest : Text} {sign : Char} (hclean : clean (before ++ sign :: rest) =
    before ++ sign :: rest) : Text.trim rest = (spaces rest).2 := by
  have hspaces : ∀ c ∈ (spaces rest).1, isBlank c = true := by
    intro c hc
    have hspace : (c == ' ') = true := List.mem_takeWhile_imp (p := fun c => c == ' ') hc
    rw [eq_of_beq hspace]
    decide
  have hhead : (spaces rest).2.head?.any isBlank = false := by
    cases htext : (spaces rest).2 with
    | nil => rfl
    | cons c text =>
      have hc : (c == ' ') = false := by
        have hstop := List.head?_dropWhile_not (· == ' ') rest
        rw [show rest.dropWhile (· == ' ') = c :: text from htext] at hstop
        simpa using hstop
      have hmem : c ∈ clean (before ++ sign :: rest) := by
        rw [hclean, ← spaces_append rest, htext]
        simp
      -- the only blanks of a clean line are spaces
      cases hblank : isBlank c with
      | false => simp [hblank]
      | true => simp [(of_mem_clean hmem).2 hblank] at hc
  have hstart : Text.trimStart rest = (spaces rest).2 := by
    conv_lhs => rw [← spaces_append rest]
    exact (takeWhile_dropWhile_append hspaces hhead).2
  have hend : Text.trimEnd (spaces rest).2 = (spaces rest).2 := by
    rcases List.eq_nil_or_concat' (spaces rest).2 with hnil | ⟨text, c, hlast⟩
    · rw [hnil]
      rfl
    · have hc : isBlank c = false := by
        refine (trimmed_clean (before ++ sign :: rest)).last c ?_
        rw [hclean, ← spaces_append rest, hlast]
        simp [List.getLast?_cons]
      rw [hlast, Text.trimEnd_concat hc]
  rw [Text.trim, hstart, hend]

/-- **A definition on the command line** is read as the line that it is, if it
is clean. -/
theorem IsDefinition.readAssignment {d : Text} (h : IsDefinition d) (hclean : clean d = d) :
    ∃ l assignment, ReadsAs d l ∧ l.assignment? = some assignment ∧
      Variables.readAssignment d = .ok assignment := by
  obtain ⟨name, gap, rest, hne, hname, hgap, rfl⟩ := h
  rw [List.append_assoc] at hclean ⊢
  refine ⟨_, _, .of_clean hclean (parse_definition hne hname hgap rest), rfl, ?_⟩
  have hword : IsWord name :=
    isWord_of_isTypeChar hne fun c hc => isTypeChar_of_isIdentChar (hname c hc)
  have hfront : ∀ c ∈ name ++ gap, decide (c ≠ '=') = true := by
    intro c hc
    refine decide_eq_true ?_
    rintro rfl
    rcases List.mem_append.1 hc with hc | hc
    · exact absurd (hname '=' hc) (by decide)
    · exact absurd (hgap '=' hc) (by decide)
  have htrim : Text.trim (name ++ gap) = name :=
    Text.trim_word_append hword.not_blank fun c hc => hgap c hc ▸ by decide
  have htext : Text.trim rest = (spaces rest).2 := by
    rw [← List.append_assoc] at hclean
    exact trim_of_clean hclean
  have hempty : name.isEmpty = false := by simpa using hne
  rw [← List.append_assoc, Variables.readAssignment, List.dropWhile_append_of_pos hfront,
    List.takeWhile_append_of_pos hfront]
  simp [htrim, htext, hempty]

end Line

/-- The arguments that define variables are read as the lines that they are. -/
theorem Line.exists_assignments {definitions : List Text}
    (h : ∀ d ∈ definitions, Line.clean d = d ∧ Line.IsDefinition d) :
    ∃ ls assignments, List.Forall₂ Line.ReadsAs definitions ls ∧ Line.Faultless none ls ∧
      ls.map Line.assignment? = assignments.map some ∧
      definitions.mapM Variables.readAssignment = .ok assignments := by
  induction definitions with
  | nil => exact ⟨[], [], .nil, trivial, rfl, rfl⟩
  | cons d definitions ih =>
    obtain ⟨hclean, hdefinition⟩ := h d (by simp)
    obtain ⟨l, assignment, hread, hl, hargument⟩ := hdefinition.readAssignment hclean
    obtain ⟨ls, assignments, hreads, hfaultless, hls, harguments⟩ :=
      ih fun e he => h e (by simp [he])
    have hfault : l.fault? none = none := by
      cases l with
      | definition name gap text => rfl
      | _ => simp [Line.assignment?] at hl
    exact ⟨l :: ls, assignment :: assignments, .cons hread hreads,
      ⟨hfault, hfaultless.of_none _⟩, by simp [hl, hls], by simp [hargument, harguments]; rfl⟩

/-! ## Slots -/

/-- A name that is declared twice is not missed more or less often. -/
theorem Slot.undeclared_newSlots (slots : List Slot) (s : Text) :
    undeclared (newSlots [] slots) s = undeclared slots s := by
  have hsame (name : Text) :
      (find? (newSlots [] slots) name).isNone = (find? slots name).isNone := by
    have hsome := isSome_find?_newSlots [] slots name
    rw [List.nil_append, List.nil_append] at hsome
    rw [← Option.not_isSome, ← Option.not_isSome, hsome]
  simp only [undeclared, hsame]

/-- So a visit finds the same. -/
theorem Visit.findings_newSlots (vars : Variables) (slots : List Slot) :
    findings vars (some (newSlots [] slots)) = findings vars (some slots) := by
  funext visit
  simp only [findings, Slot.undeclared_newSlots]

/-! ## What is printed -/

/-- A sentence is one line. -/
theorem Run.newline_notMem {fuel : Nat} {vars : Variables} {slots : Option (List Slot)}
    {collection : Option Text} {template : Template} {run : Run}
    (h : Run.of fuel vars slots collection template = some run) {s : Text}
    (hs : s ∈ run.sentences) : '\n' ∉ s := by
  rw [Run.eq_upTo h] at hs
  exact (Run.concrete_of_mem_sentences hs).no_meta '\n' (by simp)

theorem Summary.toList_sentences (items : List Text) :
    (Summary.sentences items).toList = Text.closed items := by
  have hfold (out : String) : (items.foldl (fun out s => out ++ s.str ++ "\n") out).toList =
      out.toList ++ Text.closed items := by
    induction items generalizing out with
    | nil => simp
    | cons s items ih =>
      rw [List.foldl_cons, ih]
      simp [Text.str]
  exact hfold ""

namespace Command

open Utterance.Action

variable {definitions slots : List Text} {intent template : Text} {order : Order} {fuel : Nat}

/-- The slots that the placeholders of an ad hoc expansion are checked against,
which are none if none are named. -/
def slotTable? (slots : List Text) : Option (List Slot) :=
  if slots.isEmpty then none else some (slots.map fun name => { name })

/-- Slots that are named are checked as an intent that declares them checks
them. -/
theorem findings_slotTable? (h : slots ≠ []) (vars : Variables) :
    Visit.findings vars (slotTable? slots) =
      Visit.findings vars (some (newSlots [] (slots.map fun name => { name }))) := by
  have hempty : slots.isEmpty = false := by simpa using h
  rw [Visit.findings_newSlots, slotTable?, hempty]
  rfl

/-- **An ad hoc expansion returns** what its run yields, and logs it. -/
theorem returns_runExpand {vars : Variables}
    (hvars : Variables.ofAssignments definitions = .ok vars)
    {start stop : List Event × FileTree} {output : String} :
    (runExpand fuel template definitions slots order : Action (StateM FileTree) String).Returns
        start output stop ↔
      ∃ run, Run.of fuel vars (slotTable? slots) none { text := template } = some run ∧
        output = Summary.sentences (order.arrange id run.sentences) ∧
        stop = (run.events.reverse ++ start.1, start.2) := by
  unfold runExpand
  rw [hvars]
  change Returns (ended (Run.of fuel vars (slotTable? slots) none { text := template }) >>=
    fun run => _) start output stop ↔ _
  cases Run.of fuel vars (slotTable? slots) none { text := template } with
  | none => simp [ended, returns_throw]
  | some run =>
    simp only [ended, returns_bind, returns_pure, returns_modify]
    constructor
    · rintro ⟨_, _, ⟨rfl, rfl⟩, -, _, rfl, rfl, rfl⟩
      exact ⟨_, rfl, rfl, rfl⟩
    · rintro ⟨_, hrun, rfl, rfl⟩
      obtain rfl := Option.some.inj hrun
      exact ⟨_, start, ⟨rfl, rfl⟩, (), _, rfl, rfl, rfl⟩

/-! ## The source -/

/-- **The lines of a source** that says what the arguments of an expansion
say. -/
def spelledOut (definitions slots : List Text) (intent template : Text) : List Text :=
  definitions ++ Keyword.intent.declare intent :: (slots.map Keyword.slot.declare ++ [template])

/-- The line that the declaration of a slot by its name is read as. -/
def slotLine (name : Text) : Line :=
  Slot.line { name }

/-- The line that opens an intent. -/
def openingLine (intent : Text) : Line :=
  .opening .intent Keyword.intent.word (.after intent)

theorem readsAs_slot {name : Text} (h : IsIdentifier name) :
    Line.ReadsAs (Keyword.slot.declare name) (slotLine name) := by
  have hwritable : Slot.Writable { name } := ⟨h, by simp, by simp⟩
  have hread := Line.readsAs_slot hwritable
  simpa [Slot.written, slotLine] using hread

/-- The lines are read as what they say. -/
theorem forall₂_readsAs_spelledOut {ls : List Line}
    (hdefinitions : List.Forall₂ Line.ReadsAs definitions ls)
    (hslots : ∀ slot ∈ slots, IsIdentifier slot) (hintent : IsIdentifier intent)
    (htemplate : Line.IsSentence template) :
    List.Forall₂ Line.ReadsAs (spelledOut definitions slots intent template)
      (ls ++ openingLine intent :: (slots.map slotLine ++ [.sentence template])) := by
  have hslotLines : List.Forall₂ Line.ReadsAs (slots.map Keyword.slot.declare)
      (slots.map slotLine) := Line.readsAs_map fun slot hslot => readsAs_slot (hslots slot hslot)
  exact List.rel_append hdefinitions (.cons (Line.readsAs_opening .intent hintent)
    (List.rel_append hslotLines (.cons (Line.readsAs_sentence htemplate) .nil)))

/-- They are clean. -/
theorem clean_of_mem_spelledOut
    (hdefinitions : ∀ d ∈ definitions, Line.clean d = d ∧ Line.IsDefinition d)
    (hslots : ∀ slot ∈ slots, IsIdentifier slot) (hintent : IsIdentifier intent)
    (htemplate : Line.IsSentence template) {raw : Text}
    (h : raw ∈ spelledOut definitions slots intent template) : Line.clean raw = raw := by
  have hdeclare (k : Keyword) {name : Text} (hname : IsIdentifier name) :
      Line.clean (k.declare name) = k.declare name := by
    have hword := Line.isWord_of_isIdentifier hname
    exact Line.clean_word_append_of_clean (Line.isWord_word k) (Line.clean_word hword) hword.1
  simp only [spelledOut, List.mem_append, List.mem_cons, List.mem_map, List.not_mem_nil,
    or_false] at h
  rcases h with hd | rfl | ⟨slot, hslot, rfl⟩ | rfl
  · exact (hdefinitions raw hd).1
  · exact hdeclare .intent hintent
  · exact hdeclare .slot (hslots slot hslot)
  · exact htemplate.clean

/-- No line has a fault where it stands. -/
theorem faultless_spelledOut {ls : List Line} (h : Line.Faultless none ls) :
    Line.Faultless none
      (ls ++ openingLine intent :: (slots.map slotLine ++ [.sentence template])) := by
  have hcontent : Line.Faultless (some (.intent, intent))
      (slots.map slotLine ++ [.sentence template]) := by
    refine Line.faultless_content fun l hl => ?_
    rcases List.mem_append.1 hl with hl | hl
    · obtain ⟨slot, -, rfl⟩ := List.mem_map.1 hl
      exact ⟨rfl, rfl⟩
    · obtain rfl := List.mem_singleton.1 hl
      exact ⟨rfl, rfl⟩
  exact h.append ⟨rfl, hcontent⟩

/-- What the intent receives: each slot once, and the template. -/
theorem receive_spelledOut {source : Text} {content : List Declaration}
    (h : content.map Declaration.line = slots.map slotLine ++ [.sentence template]) :
    ((Collection.empty .intent intent).receive source .intent content).slots =
        newSlots [] (slots.map fun name => { name }) ∧
      ∃ span, ((Collection.empty .intent intent).receive source .intent content).templates =
        [Template.placed source span template] := by
  obtain ⟨declared, last, rfl, hdeclared, hlast⟩ := List.map_eq_append_iff.1 h
  obtain ⟨d, rest, rfl, hd, hrest⟩ := List.map_eq_cons_iff.1 hlast
  obtain rfl : rest = [] := List.map_eq_nil_iff.1 hrest
  have hline : ∀ e ∈ declared, ∃ slot, e.line = slotLine slot := by
    intro e he
    obtain ⟨slot, -, hslot⟩ := List.mem_map.1 (hdeclared ▸ List.mem_map_of_mem he)
    exact ⟨slot, hslot.symm⟩
  have hslots : (declared.filterMap fun e => e.line.slot?) = slots.map fun name => { name } := by
    have hmap : (declared.map Declaration.line).filterMap Line.slot? =
        slots.map fun name => { name } := by
      have hslot (name : Text) : (slotLine name).slot? = some { name } := Slot.slot?_line { name }
      rw [hdeclared, List.filterMap_map, ← List.filterMap_eq_map']
      exact List.filterMap_congr fun name _ => hslot name
    rwa [List.filterMap_map] at hmap
  have hnone : (declared.filterMap fun e => e.line.template? (Template.placed source e.span)) =
      [] := by
    refine List.filterMap_eq_nil_iff.2 fun e he => ?_
    obtain ⟨slot, hslot⟩ := hline e he
    rw [hslot]
    rfl
  constructor
  · rw [Collection.slots_receive_intent, List.filterMap_append, hslots]
    simp [hd, Line.slot?, Collection.empty]
  · rw [Collection.templates_receive, List.filterMap_append, hnone]
    exact ⟨d.span, by simp [hd, Line.template?, Collection.empty, Collection.templates]⟩

/-- **What the source makes of an empty model**: its definitions, and one intent
with its template, in which each slot is declared once. -/
theorem extend_spelledOut {s : Source} {ls : List Line} {assignments : List (Text × Text)}
    (hls : ls.map Line.assignment? = assignments.map some)
    (hlines : s.declarations.map Declaration.line =
      ls ++ openingLine intent :: (slots.map slotLine ++ [.sentence template])) :
    ∃ c t, ({} : Model).extend s = { vars := .ofList assignments, intents := [c] } ∧
      c.name = intent ∧ c.kind = .intent ∧ c.slots = newSlots [] (slots.map fun name => { name }) ∧
      c.templates = [t] ∧ t.text = template := by
  obtain ⟨ds, rest, hsplit, hds, hrest⟩ := List.map_eq_append_iff.1 hlines
  obtain ⟨d, content, rfl, hd, hcontent⟩ := List.map_eq_cons_iff.1 hrest
  have hassignments : ds.map (fun d => d.line.assignment?) = assignments.map some := by
    rw [← hls, ← hds, List.map_map]
    rfl
  obtain ⟨hextend, hopen⟩ := Model.extendFrom_assignments hassignments {} s.name none
  have hisContent : ∀ e ∈ content, e.line.isContent = true := by
    intro e he
    have hmem : e.line ∈ slots.map slotLine ++ [.sentence template] :=
      hcontent ▸ List.mem_map_of_mem he
    rcases List.mem_append.1 hmem with hslot | hsentence
    · obtain ⟨slot, -, hslot⟩ := List.mem_map.1 hslot
      rw [← hslot]
      rfl
    · rw [List.mem_singleton.1 hsentence]
      rfl
  let c : Collection := .empty .intent intent
  let m : Model := { vars := .ofList assignments }
  have hreceived : Model.extendFrom s.name (some (.intent, c.name)) content
      (m.withCollections .intent ([] ++ [c])) =
        m.withCollections .intent ([] ++ [c.receive s.name .intent content]) :=
    Model.extendFrom_content List.not_mem_nil hisContent s.name
  obtain ⟨hslots, span, htemplates⟩ := receive_spelledOut hcontent
  refine ⟨c.receive s.name .intent content, _, ?_, Collection.name_receive ..,
    Collection.kind_receive, hslots, htemplates, rfl⟩
  rw [Model.extend, hsplit, Model.extendFrom_append, hopen, hextend, Model.extendFrom, hd]
  exact hreceived

/-- **The source is accepted**, whatever blanks, comments and empty lines it has
besides. -/
theorem exists_of_load_spelledOut
    (hdefinitions : ∀ d ∈ definitions, Line.clean d = d ∧ Line.IsDefinition d)
    (hslots : ∀ slot ∈ slots, IsIdentifier slot) (hintent : IsIdentifier intent)
    (htemplate : Line.IsSentence template) {text : Text} {limit : Nat}
    (hlines : text.cleanedLines.filter (fun t => t ≠ []) =
      spelledOut definitions slots intent template)
    (hsize : text.byteSize ≤ limit) (source : Option Text) :
    ∃ vars c t, Variables.ofAssignments definitions = .ok vars ∧
      (({} : Model).load limit text source).value = .ok { vars, intents := [c] } ∧
      c.name = intent ∧ c.kind = .intent ∧ c.slots = newSlots [] (slots.map fun name => { name }) ∧
      c.templates = [t] ∧ t.text = template := by
  obtain ⟨ls, assignments, hreads, hfaultless, hls, harguments⟩ :=
    Line.exists_assignments hdefinitions
  have hclean : (spelledOut definitions slots intent template).map Line.clean =
      spelledOut definitions slots intent template :=
    (List.map_congr_left fun raw hraw =>
      clean_of_mem_spelledOut hdefinitions hslots hintent htemplate hraw).trans (List.map_id _)
  obtain ⟨hparses, hparsed⟩ := Line.parsed_of_readsAs
    (forall₂_readsAs_spelledOut hreads hslots hintent htemplate)
  rw [hclean] at hparses hparsed
  have hsame : Line.parsed text.cleanedLines =
      Line.parsed (spelledOut definitions slots intent template) := by
    rw [← hlines, Line.parsed, Line.parsed, List.filterMap_filter]
    refine List.filterMap_congr fun t _ => ?_
    by_cases hempty : t = []
    · simp [hempty, Line.parse_nil, Except.toOption]
    · simp [hempty]
  have hacceptable : Line.Acceptable text.cleanedLines := by
    refine ⟨fun t ht => ?_, ?_⟩
    · by_cases hempty : t = []
      · exact .inl hempty
      · exact hparses t (hlines ▸ List.mem_filter.2 ⟨ht, by simpa using hempty⟩)
    · rw [hsame, hparsed]
      exact faultless_spelledOut hfaultless
  let s : Source := ⟨text, source.getD unnamedSource⟩
  have hdeclared : s.declarations.map Declaration.line =
      ls ++ openingLine intent :: (slots.map slotLine ++ [.sentence template]) := by
    rw [s.map_line_declarations, hsame, hparsed]
  obtain ⟨c, t, hextend, hc⟩ := extend_spelledOut hls hdeclared
  refine ⟨.ofList assignments, c, t, ?_, ?_, hc⟩
  · rw [Variables.ofAssignments, harguments]
    rfl
  · exact Model.load_eq_ok_iff.2 ⟨hsize, hacceptable, hextend.symm⟩

/-! ## The agreement -/

/-- A model with one intent of one template compiles to one expanded intent. -/
theorem compile_of_single {c : Collection} {t : Template} (ht : c.templates = [t])
    (vars : Variables) (fuel : Nat) (order : Order) :
    (({ vars, intents := [c] } : Model).compile fuel order).map Logged.value =
      (Run.of fuel vars c.slotTable? (some c.name) t).map fun run =>
        { invocationName := none, language := "en-US".toList,
          intents := [c.gather order [run]], entities := [] } := by
  have hone (e : Expanded) : order.arrange Expanded.name [e] = [e] :=
    List.perm_singleton.1 (order.arrange_perm ..)
  have hnone : order.arrange Expanded.name [] = [] := List.perm_nil.1 (order.arrange_perm ..)
  cases hrun : Run.of fuel vars c.slotTable? (some c.name) t with
  | none => simp [Model.compile, Collection.expand, Collection.runs, ht, hrun]
  | some run => simp [Model.compile, Collection.expand, Collection.runs, ht, hrun, hone, hnone]

/-- **An action prints the expansion of the one intent of a model**, and logs
what is found in it if slots are checked. -/
structure PrintsIntent (action : Action (StateM FileTree) String) (m : Model) (fuel : Nat)
    (order : Order) (intent : Text) (checked : Prop) : Prop where
  /-- It returns exactly if the expansion ends. -/
  returns_iff : ∀ start,
    (∃ output stop, action.Returns start output stop) ↔ (m.compile fuel order).isSome = true
  /-- The lines that it prints are the sentences of the intent, in order, and
  the diagnostics that it logs are those of the intent, but for where they
  arose. -/
  prints : ∀ start logged, m.compile fuel order = some logged →
    ∃ (e : Expanded) (output : String) (told : List Event),
      logged.value.intents = [e] ∧ logged.value.entities = [] ∧ e.name = intent ∧
      action.Returns start output (told.reverse ++ start.1, start.2) ∧
      Text.lines output.toList = e.sentences ++ [[]] ∧
      (checked → (told.filterMap Event.diagnostic?).map Diagnostic.finding =
        e.diagnostics.map Diagnostic.finding)

/-- The command and a model with its definitions and one intent, which has its
template and declares each of its slots once. -/
theorem printsIntent_of_single {vars : Variables}
    (hvars : Variables.ofAssignments definitions = .ok vars) {c : Collection}
    (hkind : c.kind = .intent) (hslots : c.slots = newSlots [] (slots.map fun name => { name }))
    {t : Template} (ht : c.templates = [t]) (fuel : Nat) (order : Order) :
    PrintsIntent (runExpand fuel t.text definitions slots order) { vars, intents := [c] } fuel order
      c.name (slots ≠ []) := by
  have hcompile := compile_of_single ht vars fuel order
  generalize ({ vars, intents := [c] } : Model) = m at hcompile ⊢
  -- the runs differ in the table of slots, and not in what is visited
  have hruns : Run.of fuel vars (slotTable? slots) none { text := t.text } =
      (Run.of fuel vars c.slotTable? (some c.name) t).map fun own =>
        ⟨{ text := t.text }, none, vars, slotTable? slots, own.visits⟩ := by
    simp only [Run.of, Option.map_map]
    rfl
  cases hown : Run.of fuel vars c.slotTable? (some c.name) t with
  | none =>
    rw [hown, Option.map_none] at hcompile hruns
    have hnone : m.compile fuel order = none := Option.map_eq_none_iff.1 hcompile
    refine ⟨fun start => ⟨?_, by simp [hnone]⟩, by simp [hnone]⟩
    rintro ⟨output, stop, h⟩
    obtain ⟨run, hsome, -⟩ := (returns_runExpand hvars).1 h
    cases hruns.symm.trans hsome
  | some own =>
    rw [hown, Option.map_some] at hcompile hruns
    obtain ⟨compiled, hcompiled, hvalue⟩ := Option.map_eq_some_iff.1 hcompile
    let run : Run := ⟨{ text := t.text }, none, vars, slotTable? slots, own.visits⟩
    have hreturns (start : List Event × FileTree) :
        Returns (runExpand fuel t.text definitions slots order) start
          (Summary.sentences (order.arrange id run.sentences))
          (run.events.reverse ++ start.1, start.2) :=
      (returns_runExpand hvars).2 ⟨run, hruns, rfl, rfl⟩
    refine ⟨fun start => ⟨fun _ => by simp [hcompiled], fun _ => ⟨_, _, hreturns start⟩⟩,
      fun start logged hlogged => ?_⟩
    obtain rfl := Option.some.inj (hcompiled.symm.trans hlogged)
    rw [hvalue]
    refine ⟨c.gather order [own], _, run.events, rfl, rfl, rfl, hreturns start, ?_, fun hne => ?_⟩
    · have hlines : ∀ s ∈ order.arrange id run.sentences, '\n' ∉ s := fun s hs =>
        Run.newline_notMem hruns ((order.arrange_perm id _).mem_iff.1 hs)
      have hsentences : (c.gather order [own]).sentences = order.arrange id run.sentences := by
        rw [Collection.gather, List.flatMap_singleton]
        rfl
      rw [Summary.toList_sentences, Text.lines_closed hlines, hsentences]
    · have hdiagnostics : (c.gather order [own]).diagnostics = own.diagnostics :=
        List.flatMap_singleton ..
      rw [Run.diagnostics_events, hdiagnostics, Run.map_finding_diagnostics,
        Run.map_finding_diagnostics]
      obtain ⟨visits, -, rfl⟩ := Option.map_eq_some_iff.1 hown
      change (visits.flatMap (Visit.findings vars (slotTable? slots))).eraseDups =
        (visits.flatMap (Visit.findings vars c.slotTable?)).eraseDups
      rw [findings_slotTable? hne, Collection.slotTable?, hkind, hslots]

/-- **An ad hoc expansion agrees with a source.** Let the definitions be clean
lines of their form, the slots and the intent identifiers, and the template a
sentence. A source whose lines, but for blanks and comments, say the same is
accepted, and one that consists of them is such a source. What the command
prints for the arguments is the expansion of its one intent. -/
theorem expand_agrees_with_source
    (hdefinitions : ∀ d ∈ definitions, Line.clean d = d ∧ Line.IsDefinition d)
    (hslots : ∀ slot ∈ slots, IsIdentifier slot) (hintent : IsIdentifier intent)
    (htemplate : Line.IsSentence template) :
    let lines := spelledOut definitions slots intent template
    Text.cleanedLines (['\n'].intercalate lines) = lines ∧
    ∀ (text : Text) (limit : Nat) (source : Option Text),
      text.cleanedLines.filter (fun t => t ≠ []) = lines → text.byteSize ≤ limit →
      ∃ m, (({} : Model).load limit text source).value = .ok m ∧
        ∀ (fuel : Nat) (order : Order),
          PrintsIntent (runExpand fuel template definitions slots order) m fuel order intent
            (slots ≠ []) := by
  intro lines
  have hclean : ∀ raw ∈ lines, Line.clean raw = raw := fun raw hraw =>
    clean_of_mem_spelledOut hdefinitions hslots hintent htemplate hraw
  refine ⟨?_, fun text limit source hlines hsize => ?_⟩
  · have hne : lines ≠ [] := by simp [lines, spelledOut]
    rw [Text.cleanedLines_intercalate hne fun raw hraw =>
      Line.newline_not_mem_of_clean (hclean raw hraw)]
    exact (List.map_congr_left hclean).trans (List.map_id _)
  · obtain ⟨vars, c, t, hvars, hload, rfl, hkind, hdeclared, ht, rfl⟩ :=
      exists_of_load_spelledOut hdefinitions hslots hintent htemplate hlines hsize source
    exact ⟨_, hload, printsIntent_of_single hvars hkind hdeclared ht⟩

/-- A definition with a second equals sign, an empty one and one that is made
again in the other letter case, a slot that is named twice and one that is
missed, and a source with other line ends, a comment and blanks. -/
theorem expand_agrees_with_source_redefined :
    let definitions : List Text := ["x= b=|a".toList, "y =".toList, "X = <s>|<t>|b".toList]
    let slots : List Text := ["s".toList, "s".toList]
    let template : Text := "$x$y|$gone".toList
    let text : Text := ['\n'].intercalate
      ["x= b=|a # first".toList, "\r".toList, "  y  =".toList, "X = <s>|<t>|b\r".toList,
        "INTENT: Tea".toList, "SLOT: s".toList, "SLOT: s".toList, "\t$x$y|$gone".toList, []]
    ∃ m, (({} : Model).load 1000 text none).value = .ok m ∧
      (∀ order, PrintsIntent (runExpand 40 template definitions slots order) m 40 order
        "Tea".toList (slots ≠ [])) ∧
      (m.compile 40 .found).map (fun compiled =>
        compiled.value.intents.map Expanded.sentences) =
          some [["b".toList, "<t>".toList, "<s>".toList]] := by
  intro definitions slots template text
  have hdefinitions : ∀ d ∈ definitions, Line.clean d = d ∧ Line.IsDefinition d := by
    decide +kernel
  have hslot : IsIdentifier "s".toList := isIdentifier_singleton (by decide)
  have hslots : ∀ slot ∈ slots, IsIdentifier slot :=
    List.forall_mem_cons.2 ⟨hslot, List.forall_mem_singleton.2 hslot⟩
  have hintent : IsIdentifier "Tea".toList := identifier?_eq_self_iff.1 (by decide +kernel)
  have htemplate : Line.IsSentence template := by decide +kernel
  obtain ⟨-, hagrees⟩ := expand_agrees_with_source hdefinitions hslots hintent htemplate
  have hlines : text.cleanedLines.filter (fun t => t ≠ []) =
      spelledOut definitions slots "Tea".toList template := by decide +kernel
  have hsize : text.byteSize ≤ 1000 := by decide +kernel
  obtain ⟨m, hload, hprints⟩ := hagrees text 1000 none hlines hsize
  have hsentences : (({} : Model).load 1000 text none).value.toOption.bind (fun m =>
      (m.compile 40 .found).map fun compiled =>
        compiled.value.intents.map Expanded.sentences) =
          some [["b".toList, "<t>".toList, "<s>".toList]] := by decide +kernel
  rw [hload] at hsentences
  exact ⟨m, hload, hprints 40, hsentences⟩

end Command

end Utterance
