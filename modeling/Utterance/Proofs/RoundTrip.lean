import Utterance.Proofs.Spelling
import Utterance.Proofs.Joining
import Utterance.Proofs.Updates

/-!
# Round trip — a written model is read back

A model is written line by line: its variables, its invocation name, its
language and then its collections, each with its opening, its slots and its
templates (`Model.written`). Every written line is read as it was meant
(`Model.readsAs`), and no line has a fault, since each collection is opened
in front of its lines (`Model.faultless_lines`). What the lines do then adds
one part after another to the empty model, up to the model that was written
(`Model.load_written`). All this holds of a model whose names and texts can
stand in a source at all (`Model.Writable`).
-/

namespace Utterance

/-! ## How a model is written -/

namespace Collection

/-- How a collection is written: its opening, its slots and its templates. -/
def written (c : Collection) : List Text :=
  c.kind.keyword.declare c.name :: (c.slots.map Slot.written ++ c.templates.map Template.text)

/-- The lines behind its opening that a written collection is read as. -/
def content (c : Collection) : List Line :=
  c.slots.map Slot.line ++ c.templates.map fun t => .sentence t.text

/-- The lines that a written collection is read as. -/
def lines (c : Collection) : List Line :=
  .opening c.kind c.kind.keyword.word (.after c.name) :: c.content

/-- What a collection of a kind must satisfy to be written. -/
structure Writable (kind : Kind) (c : Collection) : Prop where
  /-- It is of that kind. -/
  kind_eq : c.kind = kind
  /-- Its name is an identifier. -/
  name : IsIdentifier c.name
  /-- Its slots can be written. -/
  slots : ∀ slot ∈ c.slots, slot.Writable
  /-- The names of its slots are distinct. -/
  nodup : (c.slots.map Slot.name).Nodup
  /-- An entity has no slots. -/
  entity : kind = .entity → c.slots = []
  /-- Its templates are read as sentences. -/
  templates : ∀ t ∈ c.templates, Line.IsSentence t.text

instance (kind : Kind) : DecidablePred (Writable kind) := fun c =>
  decidable_of_iff (c.kind = kind ∧ identifier? c.name = some (c.name, []) ∧
      (∀ slot ∈ c.slots, slot.Writable) ∧ (c.slots.map Slot.name).Nodup ∧
      (kind = .entity → c.slots = []) ∧ ∀ t ∈ c.templates, Line.IsSentence t.text)
    ⟨fun ⟨hkind, hname, hslots, hnodup, hentity, htemplates⟩ =>
        ⟨hkind, identifier?_eq_self_iff.1 hname, hslots, hnodup, hentity, htemplates⟩,
      fun h => ⟨h.kind_eq, identifier?_eq_self_iff.2 h.name, h.slots, h.nodup, h.entity,
        h.templates⟩⟩

end Collection

namespace Model

/-- How a model is written, line by line. -/
def writtenLines (m : Model) : List Text :=
  m.vars.entries.map (fun (name, text) => Line.writtenDefinition name text) ++
    (m.invocationName.toList.map Keyword.invocation.declare ++
      (Keyword.language.declare m.language ::
        (m.intents.flatMap Collection.written ++ m.entities.flatMap Collection.written)))

/-- **How a model is written.** -/
def written (m : Model) : Text :=
  ['\n'].intercalate m.writtenLines

/-- The lines that a written model is read as. -/
def lines (m : Model) : List Line :=
  m.vars.entries.map (fun (name, text) => Line.definitionLine name text) ++
    (m.invocationName.toList.map (fun name => .invocation Keyword.invocation.word (.after name)) ++
      (.language Keyword.language.word (.after m.language) ::
        (m.intents.flatMap Collection.lines ++ m.entities.flatMap Collection.lines)))

/-- **What a model must satisfy to be written.** -/
structure Writable (m : Model) : Prop where
  /-- The names of the variables are names in lower case, and the
  definitions are clean. -/
  vars : ∀ entry ∈ m.vars.entries, Line.IsVariableName entry.1 ∧ Line.clean entry.2 = entry.2
  /-- No variable is defined twice. -/
  keys : (m.vars.entries.map Prod.fst).Nodup
  /-- The invocation name, if there is one, is clean and not empty. -/
  invocationName : ∀ name ∈ m.invocationName, Line.clean name = name ∧ name ≠ []
  /-- The language is a language code. -/
  language : Line.IsLanguageCode m.language
  /-- The collections of each kind can be written. -/
  collections : ∀ kind, ∀ c ∈ m.collections kind, c.Writable kind
  /-- The names of the collections of a kind are distinct. -/
  names : ∀ kind, ((m.collections kind).map Collection.name).Nodup

end Model

/-! ## The written lines are read as they were meant -/

namespace Line

theorem readsAs_map {α : Type} {l : List α} {write : α → Text} {line : α → Line}
    (h : ∀ a ∈ l, ReadsAs (write a) (line a)) :
    List.Forall₂ ReadsAs (l.map write) (l.map line) := by
  rw [List.forall₂_map_left_iff, List.forall₂_map_right_iff]
  exact List.forall₂_same.2 h

theorem readsAs_flatMap {α : Type} {l : List α} {write : α → List Text} {lines : α → List Line}
    (h : ∀ a ∈ l, List.Forall₂ ReadsAs (write a) (lines a)) :
    List.Forall₂ ReadsAs (l.flatMap write) (l.flatMap lines) := by
  rw [List.flatMap, List.flatMap]
  refine List.rel_flatten ?_
  rw [List.forall₂_map_left_iff, List.forall₂_map_right_iff]
  exact List.forall₂_same.2 h

/-- What some lines are read as is what they parse to. -/
theorem parsed_of_readsAs {raws : List Text} {ls : List Line} (h : List.Forall₂ ReadsAs raws ls) :
    (∀ t ∈ raws.map clean, t = [] ∨ ∃ l, parse t = .ok l) ∧ parsed (raws.map clean) = ls := by
  induction h with
  | nil => simp [parsed]
  | @cons raw l raws ls hread _ ih =>
    obtain ⟨hparses, hparsed⟩ := ih
    refine ⟨?_, ?_⟩
    · rw [List.map_cons, List.forall_mem_cons]
      exact ⟨.inr ⟨l, hread.2⟩, hparses⟩
    · rw [List.map_cons, parsed, List.filterMap_cons, hread.2, ← hparsed]
      rfl

end Line

namespace Text

/-- A text without line feeds is one line. -/
theorem lines_unixLineEnds_of_not_mem {s : Text} (h : '\n' ∉ s) : s.unixLineEnds.lines = [s] := by
  have hends : s.unixLineEnds = s := by
    induction s with
    | nil => rfl
    | cons c s ih =>
      have hs : '\n' ∉ s := fun hmem => h (List.mem_cons_of_mem c hmem)
      have hhead : s.head? ≠ some '\n' := fun hhead => hs (List.mem_of_mem_head? hhead)
      rw [unixLineEnds_cons, if_neg fun hreturn => hhead hreturn.2, ih hs]
  rw [hends]
  exact List.splitOn_eq_singleton h

/-- **The lines of some lines that are joined.** -/
theorem map_lines_intercalate {β : Type} {f : Text → β} (hf : ∀ s, f (s ++ ['\r']) = f s)
    {raws : List Text} (hne : raws ≠ []) (h : ∀ raw ∈ raws, '\n' ∉ raw) :
    (unixLineEnds (['\n'].intercalate raws)).lines.map f = raws.map f := by
  induction raws with
  | nil => exact absurd rfl hne
  | cons raw raws ih =>
    have hraw := lines_unixLineEnds_of_not_mem (h raw (by simp))
    cases raws with
    | nil => rw [List.intercalate_singleton, hraw]
    | cons next raws =>
      have hrest := ih (by simp) fun r hr => h r (by simp [hr])
      rw [List.intercalate_cons_cons, List.append_assoc, List.singleton_append, map_lines_join hf,
        hraw, hrest]
      rfl

theorem cleanedLines_intercalate {raws : List Text} (hne : raws ≠ [])
    (h : ∀ raw ∈ raws, '\n' ∉ raw) :
    cleanedLines (['\n'].intercalate raws) = raws.map Line.clean :=
  map_lines_intercalate (Line.clean_append_blank (by decide)) hne h

end Text

theorem Collection.readsAs {kind : Kind} {c : Collection} (h : c.Writable kind) :
    List.Forall₂ Line.ReadsAs c.written c.lines :=
  .cons (Line.readsAs_opening c.kind h.name)
    (List.rel_append (Line.readsAs_map fun slot hslot => Line.readsAs_slot (h.slots slot hslot))
      (Line.readsAs_map fun t ht => Line.readsAs_sentence (h.templates t ht)))

/-- **Every written line is read as it was meant.** -/
theorem Model.readsAs {m : Model} (h : m.Writable) :
    List.Forall₂ Line.ReadsAs m.writtenLines m.lines := by
  have hvars := Line.readsAs_map fun entry hentry =>
    Line.readsAs_definition (h.vars entry hentry).1 (h.vars entry hentry).2
  have hname := Line.readsAs_map fun name hname =>
    let hn := h.invocationName name (Option.mem_toList.1 hname)
    Line.readsAs_invocation hn.1 hn.2
  have hcollections (kind : Kind) :=
    Line.readsAs_flatMap fun c hc => Collection.readsAs (h.collections kind c hc)
  exact List.rel_append hvars (List.rel_append hname (.cons (Line.readsAs_language h.language)
    (List.rel_append (hcollections .intent) (hcollections .entity))))

/-! ## No written line has a fault -/

namespace Line

/-- The lines that stand in a collection: its slots and its sentences. -/
def isContent : Line → Bool
  | slot .. => true
  | sentence _ => true
  | _ => false

theorem opened?_of_isContent {l : Line} (h : l.isContent = true) : l.opened? = none := by
  cases l with
  | opening kind keyword name => simp [isContent] at h
  | _ => rfl

/-- Lines without faults stay so with lines behind them that open what they
use. -/
theorem Faultless.append {current : Option (Kind × Text)} {ls more : List Line}
    (h : Faultless current ls) (hmore : Faultless none more) : Faultless current (ls ++ more) := by
  induction ls generalizing current with
  | nil => exact hmore.of_none current
  | cons l ls ih => exact ⟨h.1, ih h.2⟩

theorem Faultless.flatMap {α : Type} {l : List α} {lines : α → List Line}
    (h : ∀ a ∈ l, Faultless none (lines a)) : Faultless none (l.flatMap lines) := by
  induction l with
  | nil => trivial
  | cons a l ih =>
    rw [List.flatMap_cons]
    exact (h a (by simp)).append (ih fun b hb => h b (by simp [hb]))

/-- Lines of one form have no fault if the form has none where nothing is
open. -/
theorem Faultless.map {α : Type} {line : α → Line} (h : ∀ a, (line a).fault? none = none)
    (l : List α) : Faultless none (l.map line) := by
  induction l with
  | nil => trivial
  | cons a l ih => exact ⟨h a, ih.of_none _⟩

/-- The content of a collection has no fault while it is open. -/
theorem faultless_content {current : Kind × Text} {ls : List Line}
    (h : ∀ l ∈ ls, l.isContent = true ∧ l.fault? (some current) = none) :
    Faultless (some current) ls := by
  induction ls with
  | nil => trivial
  | cons l ls ih =>
    obtain ⟨hcontent, hfault⟩ := h l (by simp)
    refine ⟨hfault, ?_⟩
    rw [opened?_of_isContent hcontent, Option.none_or]
    exact ih fun k hk => h k (by simp [hk])

end Line

namespace Collection

theorem mem_content {c : Collection} {l : Line} :
    l ∈ c.content ↔
      (∃ slot ∈ c.slots, slot.line = l) ∨ ∃ t ∈ c.templates, Line.sentence t.text = l := by
  simp [content]

theorem isContent_of_mem_content {c : Collection} {l : Line} (h : l ∈ c.content) :
    l.isContent = true := by
  rcases mem_content.1 h with ⟨slot, -, rfl⟩ | ⟨t, -, rfl⟩
  · rfl
  · rfl

theorem faultless_lines {kind : Kind} {c : Collection} (h : c.Writable kind) :
    Line.Faultless none c.lines := by
  refine ⟨rfl, Line.faultless_content fun l hl => ⟨isContent_of_mem_content hl, ?_⟩⟩
  rcases mem_content.1 hl with ⟨slot, hslot, rfl⟩ | ⟨t, -, rfl⟩
  · -- an entity has no slots, and those of an intent stand behind its opening
    cases hkind : c.kind with
    | intent => rfl
    | entity =>
      rw [h.entity (h.kind_eq ▸ hkind)] at hslot
      cases hslot
  · rfl

end Collection

theorem Model.faultless_lines {m : Model} (h : m.Writable) : Line.Faultless none m.lines := by
  have hcollections (kind : Kind) :=
    Line.Faultless.flatMap fun c hc => Collection.faultless_lines (h.collections kind c hc)
  exact .append (.map (fun _ => rfl) _) (.append (.map (fun _ => rfl) _)
    ⟨rfl, .append (hcollections .intent) (hcollections .entity)⟩)

/-! ## What the written lines do -/

/-- A line as a declaration at some place. Where it stands does not matter
to what it does (`Model.unplaced_extendFrom`). -/
def Line.somewhere (l : Line) : Declaration :=
  ⟨l, .ofLine 0 [] 1⟩

theorem Variables.put_of_not_mem {key : Text} {entries : List (Text × Text)}
    (h : key ∉ entries.map Prod.fst) (text : Text) :
    put key text entries = entries ++ [(key, text)] := by
  induction entries with
  | nil => rfl
  | cons entry entries ih =>
    obtain ⟨k, d⟩ := entry
    have hkey : key ≠ k := fun hkey => h (by simp [hkey])
    have hrest : key ∉ entries.map Prod.fst := fun hmem => h (List.mem_cons_of_mem k hmem)
    rw [put, if_neg hkey, ih hrest, List.cons_append]

/-- A table with some more definitions, made one after another. -/
def Variables.defineAll (vars : Variables) (definitions : List (Text × Text)) : Variables :=
  definitions.foldl (fun vars (name, definition) => vars.define name definition) vars

theorem Variables.defineAll_of_nodup {vars : Variables} {entries : List (Text × Text)}
    (hnames : ∀ entry ∈ entries, Line.IsVariableName entry.1)
    (hkeys : ((vars.entries ++ entries).map Prod.fst).Nodup) :
    vars.defineAll entries = ⟨vars.entries ++ entries⟩ := by
  induction entries generalizing vars with
  | nil => simp [defineAll]
  | cons entry entries ih =>
    obtain ⟨name, text⟩ := entry
    have hname : Line.IsVariableName name := hnames (name, text) (by simp)
    have hnew : name ∉ vars.entries.map Prod.fst := by
      intro hmem
      rw [List.map_append] at hkeys
      exact (List.nodup_append.1 hkeys).2.2 name hmem name (by simp) rfl
    have hdefine : vars.define name text = ⟨vars.entries ++ [(name, text)]⟩ := by
      rw [define, Line.lower_of_isVariableName hname, put_of_not_mem hnew]
    change (vars.define name text).defineAll entries = _
    rw [hdefine, ih (fun e he => hnames e (by simp [he])) (by simpa using hkeys)]
    simp

/-- The name and the text that a definition gives it. -/
def Line.assignment? : Line → Option (Text × Text)
  | definition name _ text => some (name, text.text)
  | _ => none

namespace Model

/-- **Definitions** are made one after the other, and open nothing. -/
theorem extendFrom_assignments {ds : List Declaration} {assignments : List (Text × Text)}
    (h : ds.map (fun d => d.line.assignment?) = assignments.map some) (m : Model) (source : Text)
    (current : Option (Kind × Text)) :
    extendFrom source current ds m = { m with vars := m.vars.defineAll assignments } ∧
      openAfter current ds = current := by
  induction ds generalizing assignments m with
  | nil =>
    obtain rfl : assignments = [] := by simpa using h.symm
    exact ⟨rfl, openAfter_nil _⟩
  | cons d ds ih =>
    obtain ⟨⟨name, text⟩, rest, rfl, hd, hds⟩ := List.map_eq_cons_iff.1 h.symm
    change some (name, text) = d.line.assignment? at hd
    cases hline : d.line with
    | definition defined gap read =>
      rw [hline] at hd
      obtain ⟨rfl, rfl⟩ := Prod.mk.inj (Option.some.inj hd)
      obtain ⟨hextend, hopen⟩ := ih hds.symm (m.defineVariable name read.text)
      rw [extendFrom, openAfter_cons, hline]
      exact ⟨hextend, hopen⟩
    | _ => simp [hline, Line.assignment?] at hd

/-- Definitions of distinct variables are added one after the other. -/
theorem extendFrom_definitions {entries : List (Text × Text)} {m : Model}
    (hnames : ∀ entry ∈ entries, Line.IsVariableName entry.1)
    (hkeys : ((m.vars.entries ++ entries).map Prod.fst).Nodup) (source : Text)
    (current : Option (Kind × Text)) :
    extendFrom source current
        ((entries.map fun (name, text) => Line.definitionLine name text).map Line.somewhere) m =
      { m with vars := ⟨m.vars.entries ++ entries⟩ } := by
  have hassignments : ((entries.map fun (name, text) => Line.definitionLine name text).map
      Line.somewhere).map (fun d => d.line.assignment?) = entries.map some := by
    simp [Line.somewhere, Line.definitionLine, Line.assignment?]
  rw [(extendFrom_assignments hassignments m source current).1,
    Variables.defineAll_of_nodup hnames hkeys]

theorem modify_findIdx_last {cs : List Collection} {c : Collection}
    (hnew : c.name ∉ cs.map Collection.name) (change : Collection → Collection) :
    (cs ++ [c]).modify ((cs ++ [c]).findIdx fun d => d.name == c.name) change =
      cs ++ [change c] := by
  induction cs with
  | nil => simp
  | cons d cs ih =>
    have hd : (d.name == c.name) = false := beq_false_of_ne fun hd => hnew (by simp [hd])
    have hrest : c.name ∉ cs.map Collection.name := fun hmem =>
      hnew (List.mem_cons_of_mem d.name hmem)
    rw [List.cons_append, List.findIdx_cons, hd, List.cons_append, ← ih hrest]
    rfl

/-- A change of the last collection, whose name is new. -/
theorem modifyCollection_last {m : Model} {kind : Kind} {cs : List Collection} {c : Collection}
    (hnew : c.name ∉ cs.map Collection.name) (change : Collection → Collection) :
    (m.withCollections kind (cs ++ [c])).modifyCollection kind c.name change =
      m.withCollections kind (cs ++ [change c]) := by
  rw [modifyCollection, position, collections_withCollections, modify_findIdx_last hnew]
  cases kind <;> rfl

theorem effect_content {m : Model} {kind : Kind} {cs : List Collection} {c : Collection}
    (hnew : c.name ∉ cs.map Collection.name) {l : Line} (hl : l.isContent = true)
    (template : Text → Template) :
    l.effect template (some (kind, c.name)) (m.withCollections kind (cs ++ [c])) =
      m.withCollections kind (cs ++ [l.addTo template kind c]) := by
  cases l with
  | slot keyword name beforeType type beforeExample «example» =>
    cases kind with
    | intent => exact modifyCollection_last hnew _
    | entity => rfl
  | sentence text => exact modifyCollection_last hnew _
  | _ => simp [Line.isContent] at hl

/-- **The content of a collection** goes to the last collection while that is
open. -/
theorem extendFrom_content {m : Model} {kind : Kind} {cs : List Collection} {c : Collection}
    (hnew : c.name ∉ cs.map Collection.name) {ds : List Declaration}
    (hds : ∀ d ∈ ds, d.line.isContent = true) (source : Text) :
    extendFrom source (some (kind, c.name)) ds (m.withCollections kind (cs ++ [c])) =
      m.withCollections kind (cs ++ [c.receive source kind ds]) := by
  induction ds generalizing c with
  | nil => rfl
  | cons d ds ih =>
    let next := d.line.addTo (Template.placed source d.span) kind c
    have hd : d.line.isContent = true := hds d (by simp)
    have hname : next.name = c.name := Line.name_addTo ..
    have hrest := ih (c := next) (hname ▸ hnew) fun e he => hds e (by simp [he])
    rw [extendFrom, Line.opened?_of_isContent hd, Option.none_or, effect_content hnew hd]
    rw [hname] at hrest
    exact hrest

end Model

theorem newSlots_of_nodup {slots : List Slot} (h : (slots.map Slot.name).Nodup) :
    newSlots [] slots = slots := by
  induction slots using List.reverseRecOn with
  | nil => rfl
  | append_singleton slots slot ih =>
    rw [List.map_append] at h
    obtain ⟨hslots, -, hdisjoint⟩ := List.nodup_append.1 h
    have hnone : Slot.find? ([] ++ slots) slot.name = none := by
      refine List.find?_eq_none.2 fun s hs => ?_
      have hne : s.name ≠ slot.name :=
        hdisjoint s.name (List.mem_map_of_mem hs) slot.name (by simp)
      simpa using hne
    rw [newSlots_concat, ih hslots, hnone]
    rfl

theorem Slot.slot?_line (slot : Slot) : slot.line.slot? = some slot := by
  simp [line, Line.slot?, Reading.declaredSlot, Spaced.after, Function.comp_def]

theorem Collection.templates_unplaced (c : Collection) :
    c.unplaced.templates = c.templates.map Template.unplaced := by
  simp [templates, unplaced, mapTemplates]

/-- **A collection that receives its written content** is the collection that
was written. -/
theorem Collection.receive_content {kind : Kind} {c : Collection} (h : c.Writable kind)
    (source : Text) :
    ((empty kind c.name).receive source kind (c.content.map Line.somewhere)).unplaced =
      c.unplaced := by
  have htemplates : (c.content.map Line.somewhere).filterMap (fun d =>
      d.line.template? (Template.placed source d.span)) =
        c.templates.map fun t => Template.placed source (Span.ofLine 0 [] 1) t.text := by
    simp [content, List.filterMap_map, Function.comp_def, Line.somewhere, Line.template?,
      Slot.line]
  have hslots : (c.content.map Line.somewhere).filterMap (fun d => d.line.slot?) = c.slots := by
    have hnone (t : Template) : (Line.sentence t.text).slot? = none := rfl
    simp [content, List.filterMap_map, Function.comp_def, Line.somewhere, Slot.slot?_line, hnone]
  refine eq_of_templates_eq (name_receive ..) ?_ ?_ ?_
  · exact kind_receive.trans h.kind_eq.symm
  · rw [templates_unplaced, templates_unplaced, templates_receive, htemplates]
    simp [empty, templates, Template.unplaced, Template.placed]
  · show (receive _ _ _ _).slots = c.slots
    cases kind with
    | intent =>
      rw [slots_receive_intent, hslots]
      exact newSlots_of_nodup h.nodup
    | entity =>
      rw [slots_receive_entity, h.entity rfl]
      rfl

namespace Model

/-- **A written collection** whose name is new is added to those of its
kind. -/
theorem extendFrom_collection {kind : Kind} {c : Collection} (h : c.Writable kind) {m : Model}
    (hnew : c.name ∉ (m.collections kind).map Collection.name) (source : Text)
    (current : Option (Kind × Text)) :
    ∃ c', c'.unplaced = c.unplaced ∧
      extendFrom source current (c.lines.map Line.somewhere) m =
        m.withCollections kind (m.collections kind ++ [c']) := by
  obtain rfl := h.kind_eq
  refine ⟨_, c.receive_content h source, ?_⟩
  have hopen : m.openCollection c.kind c.name =
      m.withCollections c.kind (m.collections c.kind ++ [Collection.empty c.kind c.name]) := by
    have hnone : m.collection? c.kind c.name = none := by
      simpa [collection?] using hnew
    rw [openCollection, hnone]
    rfl
  rw [Collection.lines, List.map_cons, extendFrom]
  show extendFrom source (some (c.kind, c.name)) _ (m.openCollection c.kind c.name) = _
  rw [hopen]
  refine extendFrom_content (c := .empty c.kind c.name) hnew (fun d hd => ?_) source
  obtain ⟨l, hl, rfl⟩ := List.mem_map.1 hd
  exact Collection.isContent_of_mem_content hl

/-- **Written collections** of one kind are added one after the other. -/
theorem extendFrom_collections {kind : Kind} {cs : List Collection}
    (h : ∀ c ∈ cs, c.Writable kind) {m : Model}
    (hnames : ((m.collections kind ++ cs).map Collection.name).Nodup) (source : Text)
    (current : Option (Kind × Text)) :
    (extendFrom source current ((cs.flatMap Collection.lines).map Line.somewhere) m).unplaced =
      (m.withCollections kind (m.collections kind ++ cs)).unplaced := by
  induction cs generalizing m current with
  | nil => cases kind <;> simp [extendFrom, withCollections, collections]
  | cons c cs ih =>
    have hnew : c.name ∉ (m.collections kind).map Collection.name := by
      intro hmem
      rw [List.map_append] at hnames
      exact (List.nodup_append.1 hnames).2.2 c.name hmem c.name (by simp) rfl
    obtain ⟨c', hsame, hadded⟩ := extendFrom_collection (h c (by simp)) hnew source current
    have hname : c'.unplaced.name = c.unplaced.name := by rw [hsame]
    change c'.name = c.name at hname
    have hrest := ih (fun d hd => h d (by simp [hd]))
      (m := m.withCollections kind (m.collections kind ++ [c']))
      (by simpa [hname] using hnames) (openAfter current (c.lines.map Line.somewhere))
    rw [List.flatMap_cons, List.map_append, extendFrom_append, hadded, hrest]
    simp only [unplaced_withCollections, collections_withCollections, List.map_append,
      List.map_cons, hsame]
    cases kind <;> simp [withCollections, unplaced, mapTemplates]

/-- **The lines in front of the collections** make everything else of the
model. -/
theorem extendFrom_header {m : Model} (h : m.Writable) (source : Text) :
    ∃ current, extendFrom source none (m.lines.map Line.somewhere) {} =
      extendFrom source current
        ((m.intents.flatMap Collection.lines).map Line.somewhere ++
          (m.entities.flatMap Collection.lines).map Line.somewhere)
        { vars := m.vars, invocationName := m.invocationName, language := m.language } := by
  have hnames (entry) (hentry : entry ∈ m.vars.entries) : Line.IsVariableName entry.1 :=
    (h.vars entry hentry).1
  have hkeys : ((({} : Model).vars.entries ++ m.vars.entries).map Prod.fst).Nodup := h.keys
  have hname (current : Option (Kind × Text)) : extendFrom source current
      ((m.invocationName.toList.map fun name =>
        Line.invocation Keyword.invocation.word (.after name)).map Line.somewhere)
      { vars := m.vars } = { vars := m.vars, invocationName := m.invocationName } := by
    cases m.invocationName <;> rfl
  rw [lines, List.map_append, extendFrom_append, extendFrom_definitions hnames hkeys]
  simp only [List.nil_append]
  rw [List.map_append, extendFrom_append, hname, List.map_cons, extendFrom, List.map_append]
  exact ⟨_, rfl⟩

/-- **The lines of a written model** make it of the empty one. -/
theorem unplaced_extendFrom_lines {m : Model} (h : m.Writable) (source : Text) :
    (extendFrom source none (m.lines.map Line.somewhere) {}).unplaced = m.unplaced := by
  let header : Model :=
    { vars := m.vars, invocationName := m.invocationName, language := m.language }
  obtain ⟨current, hheader⟩ := extendFrom_header h source
  let first := extendFrom source current
    ((m.intents.flatMap Collection.lines).map Line.somewhere) header
  have hfirst : first.unplaced = (header.withCollections .intent m.intents).unplaced := by
    have hnames : ((header.collections .intent ++ m.intents).map Collection.name).Nodup :=
      h.names .intent
    exact extendFrom_collections (h.collections .intent) hnames source current
  have hnone : first.entities = [] := by
    have hmap : first.entities.map Collection.unplaced = [] := congrArg Model.entities hfirst
    simpa using hmap
  have hentities (current : Option (Kind × Text)) :
      (extendFrom source current ((m.entities.flatMap Collection.lines).map Line.somewhere)
        first).unplaced =
          (first.withCollections .entity (first.entities ++ m.entities)).unplaced := by
    have hnames : ((first.collections .entity ++ m.entities).map Collection.name).Nodup := by
      rw [collections, hnone]
      exact h.names .entity
    exact extendFrom_collections (h.collections .entity) hnames source current
  rw [hheader, extendFrom_append, hentities, hnone, unplaced_withCollections, hfirst]
  rfl

end Model

/-- **Loading a model that was written** gives the model back, but for the
places of its templates. -/
theorem Model.load_written {limit : Nat} {m : Model} (h : m.Writable)
    (hsize : m.written.byteSize ≤ limit) (source : Option Text) :
    ∃ m', (({} : Model).load limit m.written source).value = .ok m' ∧ m'.unplaced = m.unplaced := by
  have hread := readsAs h
  have hnewlines : ∀ raw ∈ m.writtenLines, '\n' ∉ raw := ((List.forall₂_and_left ..).1 hread).1
  have hcleaned : m.written.cleanedLines = m.writtenLines.map Line.clean :=
    Text.cleanedLines_intercalate (by simp [writtenLines]) hnewlines
  obtain ⟨hparses, hparsed⟩ := Line.parsed_of_readsAs hread
  have hacceptable : Line.Acceptable m.written.cleanedLines := by
    rw [hcleaned]
    exact ⟨hparses, hparsed.symm ▸ faultless_lines h⟩
  let s : Source := ⟨m.written, source.getD unnamedSource⟩
  have hlines : s.declarations.map Declaration.line =
      (m.lines.map Line.somewhere).map Declaration.line := by
    rw [s.map_line_declarations, hcleaned, hparsed, List.map_map]
    exact (List.map_id m.lines).symm
  refine ⟨_, load_eq_ok_iff.2 ⟨hsize, hacceptable, rfl⟩, ?_⟩
  calc (({} : Model).extend s).unplaced
      = (extendFrom s.name none (m.lines.map Line.somewhere) {}).unplaced :=
        unplaced_extendFrom hlines rfl
    _ = m.unplaced := unplaced_extendFrom_lines h s.name

/-- Parts that look like others: an empty definition and one that begins
with a sign and a keyword, an invocation name like a declaration, examples
that begin with a colon and a tilde, an intent and an entity of one name, and
sentences with a keyword, a colon and an equals sign inside. -/
theorem Model.load_written_overlapping :
    let order : Collection :=
      { name := "Order".toList
        kind := .intent
        latestFirst := [{ text := "my size = <n>".toList },
          { text := "~ INTENT: <a> :b".toList, source := some "menu".toList }]
        slots := [{ name := "n".toList },
          { name := "a".toList, type := some "-.Int-2".toList },
          { name := "_b".toList, «example» := some ": ~ two".toList },
          { name := "c-1".toList, type := some "_".toList, «example» := some "~:x = 1".toList }] }
    let m : Model :=
      { invocationName := some "LANG: de ~ x = 1".toList
        language := "de-1996-x".toList
        vars := ⟨[("x".toList, []), ("intent".toList, "= LANG: <s>".toList),
          ("-1_".toList, "~".toList)]⟩
        intents := [order, { name := "order".toList, kind := .intent }]
        entities :=
          [{ name := "Order".toList, kind := .entity, latestFirst := [{ text := "=".toList }] }] }
    m.Writable ∧ ∃ m', (({} : Model).load 1000 m.written none).value = .ok m' ∧
      m'.unplaced = m.unplaced := by
  intro order m
  have hwritable : m.Writable :=
    { vars := by decide +kernel
      keys := by decide +kernel
      invocationName := by decide +kernel
      language := by decide +kernel
      collections := fun kind => by cases kind <;> decide +kernel
      names := fun kind => by cases kind <;> decide +kernel }
  have hsize : m.written.byteSize ≤ 1000 := by decide +kernel
  exact ⟨hwritable, load_written hwritable hsize none⟩

end Utterance
