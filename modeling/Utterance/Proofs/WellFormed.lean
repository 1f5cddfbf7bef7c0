import Utterance.Proofs.Names
import Utterance.Proofs.Usage

/-!
# Well-formed workspaces — what holds of every loaded model

Whatever is loaded into a fresh workspace, and whether it is accepted or
refused, what is left is well formed (`Workspace.WellFormed`): names are
distinct, the parts have the form that the grammar gives them, and a template
is a sentence that knows its source and its place. While a source is read, the
open collection is one of the collections of its kind, and stays where it is
(`Source.open_collection`), also in a source that is refused in the end. So
what adds to the open collection always finds it
(`Workspace.wellFormed_addAll`).
-/

namespace Utterance

/-! ## Lines -/

namespace Line

/-- **A sentence that is read** from a cleaned line is one. -/
theorem isSentence_of_parse {raw t : Text} (h : parse (clean raw) = .ok (.sentence t)) :
    IsSentence t := by
  rcases declares_or_means_of_parse h with ⟨k, -, hdeclares⟩ | ⟨hne, hleading, hmeans⟩
  · cases hdeclares.keyword?
  · obtain ⟨rfl, hdefinition⟩ := hmeans.of_sentence
    exact isSentence_iff.2 ⟨clean_clean raw, hne, hleading, definition?_eq_none_iff.2 hdefinition⟩

/-! ## Names of variables -/

/-- The lower case of a character of identifiers. -/
theorem isVariableChar_toLower {c : Char} (h : isIdentChar c = true) :
    (c.toLower.isLower || c.toLower.isDigit || c.toLower == '_' || c.toLower == '-') = true := by
  by_cases hupper : 65 ≤ c.toNat ∧ c.toNat ≤ 90
  · have hshift : c.toLower.val = c.val + 32 :=
      congrArg Char.val (dif_pos hupper : c.toLower = _)
    have hlower : c.toLower.isLower = true := by
      have hsum : (c.val + 32).toNat = (c.toNat + 32) % 4294967296 := UInt32.toNat_add ..
      have hrange : 97 ≤ (c.val + 32).toNat ∧ (c.val + 32).toNat ≤ 122 := by omega
      rw [← hshift] at hrange
      exact Bool.and_eq_true_iff.2 ⟨decide_eq_true (UInt32.le_iff_toNat_le.2 hrange.1),
        decide_eq_true (UInt32.le_iff_toNat_le.2 hrange.2)⟩
    simp [hlower]
  · have hsame : c.toLower = c := dif_neg hupper
    have hnot : c.isUpper = false := decide_eq_false hupper
    have halpha : c.isAlpha = c.isLower := by
      change (c.isUpper || c.isLower) = c.isLower
      rw [hnot, Bool.false_or]
    rw [hsame]
    simpa [isIdentChar, Char.isAlphanum, halpha] using h

/-- **The key of a declared variable** is the name of a variable in lower case. -/
theorem isVariableName_lower {name : Text} (hne : name ≠ [])
    (h : ∀ c ∈ name, isIdentChar c = true) : IsVariableName name.lower := by
  have hascii : ∀ c ∈ name, c.toNat < 0x80 := fun c hc =>
    (of_isTypeChar (isTypeChar_of_isIdentChar (h c hc))).1
  rw [Text.lower_of_ascii hascii]
  refine ⟨by simpa using hne, fun d hd => ?_⟩
  obtain ⟨c, hc, rfl⟩ := List.mem_map.1 hd
  exact isVariableChar_toLower (h c hc)

end Line

/-! ## Well-formed parts -/

/-- **A template of a loaded model** is a sentence, from a source that was
loaded and with its place. -/
structure Template.WellFormed (sources : List Text) (t : Template) : Prop where
  text : Line.IsSentence t.text
  source : ∃ id ∈ sources, t.source = some id
  span : ∃ span, t.span = some span

/-- **A collection of a loaded model** is of the kind it is listed under. Its
name and those of its slots are identifiers, its slots are told apart by their
names, and an entity has none. -/
structure Collection.WellFormed (sources : List Text) (kind : Kind) (c : Collection) : Prop where
  kind_eq : c.kind = kind
  name : IsIdentifier c.name
  slots : (c.slots.map Slot.name).Nodup
  slotNames : ∀ slot ∈ c.slots, IsIdentifier slot.name
  entity : kind = .entity → c.slots = []
  templates : ∀ t ∈ c.templates, t.WellFormed sources

/-- **A well-formed workspace**: its collections are, with distinct names
within each kind, and the keys of its variables are names in lower case. -/
structure Workspace.WellFormed (w : Workspace) : Prop where
  names : w.model.NamesDistinct
  collections : w.model.Every (Collection.WellFormed w.sources)
  definitions : ∀ entry ∈ w.model.vars.entries, Line.IsVariableName entry.1

variable {sources : List Text} {s : Source} {m : Model}

theorem Source.isSentence_of_mem_declarations {t : Text} {span : Span}
    (h : ⟨.sentence t, span⟩ ∈ s.declarations) : Line.IsSentence t := by
  obtain ⟨line, -, hline⟩ := List.mem_filterMap.1 h
  exact Line.isSentence_of_parse (SourceLine.declaration?_eq_some.1 hline).1

theorem Collection.mem_slots_declareSlot {c : Collection} {slot other : Slot}
    (h : other ∈ (c.declareSlot slot).slots) : other ∈ c.slots ∨ other = slot := by
  unfold declareSlot at h
  split at h
  · exact .inl h
  · simpa using h

/-- **A source keeps its collections well formed** if it is one of the
sources. -/
theorem Source.keeps_wellFormed (hs : s.name ∈ sources) :
    s.Keeps (Collection.WellFormed sources) where
  opened d hd kind name h :=
    { kind_eq := rfl
      name := Line.isIdentifier_of_opened? (wellNamed_of_mem_declarations hd) h
      slots := List.nodup_nil
      slotNames := nofun
      entity := fun _ => rfl
      templates := nofun }
  declared := by
    intro d hd kind c hc
    have hnamed := wellNamed_of_mem_declarations hd
    obtain ⟨l, span⟩ := d
    cases l with
    | slot keyword name beforeType type beforeExample «example» =>
      cases kind with
      | entity => exact hc
      | intent =>
        exact
          { kind_eq := (c.kind_declareSlot _).trans hc.kind_eq
            name := (c.name_declareSlot _).symm ▸ hc.name
            slots := Collection.nodup_declareSlot _ hc.slots
            slotNames := fun slot hslot =>
              (Collection.mem_slots_declareSlot hslot).elim (hc.slotNames slot) fun h => h ▸ hnamed
            entity := nofun
            templates := fun t ht => hc.templates t (by simpa [Line.addTo] using ht) }
    | sentence text =>
      have hsentence : Line.IsSentence text := isSentence_of_mem_declarations hd
      refine { hc with templates := fun t ht => ?_ }
      rw [Line.addTo, Collection.templates_addTemplate] at ht
      rcases List.mem_append.1 ht with ht | ht
      · exact hc.templates t ht
      · obtain rfl := List.mem_singleton.1 ht
        exact ⟨hsentence, ⟨s.name, hs, rfl⟩, span, rfl⟩
    | _ => exact hc

/-- The keys of a loaded model are names in lower case. -/
theorem Model.isVariableName_of_mem_entries (sources : List Source) {entry : Text × Text}
    (h : entry ∈ (sources.foldl extend {}).vars.entries) : Line.IsVariableName entry.1 := by
  have hlookup := lookup_foldl_extend entry.1 sources {}
  obtain ⟨definition, hdefined⟩ : ∃ definition,
      (sources.foldl extend {}).vars.entries.lookup entry.1 = some definition := by
    rw [← Option.ne_none_iff_exists']
    intro hnone
    simpa using List.lookup_eq_none_iff.1 hnone entry h
  have hnone : ({} : Model).vars.entries.lookup entry.1 = none := rfl
  rw [hdefined, hnone, Option.or_none] at hlookup
  obtain ⟨d, hd, hdefines⟩ := List.mem_filterMap.1 (List.mem_of_getLast? hlookup.symm)
  obtain ⟨s, -, hs⟩ := List.mem_flatMap.1 hd
  have hnamed := Source.wellNamed_of_mem_declarations hs
  cases hline : d.line with
  | definition name gap text =>
    rw [hline] at hdefines hnamed
    obtain ⟨hkey, -⟩ : name.lower = entry.1 ∧ _ := by simpa [Line.defines?] using hdefines
    exact hkey ▸ Line.isVariableName_lower hnamed.1 hnamed.2
  | _ => simp [hline, Line.defines?] at hdefines

/-! ## The open collection -/

/-- New names come after those that are new before them. -/
theorem prefix_newNames_append (known : List Text) (kind : Kind) (ds es : List Declaration) :
    newNames known kind ds <+: newNames known kind (ds ++ es) := by
  induction es using List.reverseRecOn with
  | nil => rw [List.append_nil]
  | append_singleton es e ih =>
    rw [← List.append_assoc, newNames_concat]
    exact ih.trans (List.prefix_append ..)

/-- The place of a name is the first place where it stands among the names. -/
theorem Model.position_eq_findIdx (m : Model) (kind : Kind) (name : Text) :
    m.position kind name = ((m.collections kind).map Collection.name).findIdx (· == name) := by
  rw [List.findIdx_map]
  rfl

/-- **A collection that is there stays in its place** when names are added. -/
theorem Model.position_of_prefix {m m' : Model} {kind : Kind} {name : Text}
    (h : (m.collections kind).map Collection.name <+: (m'.collections kind).map Collection.name)
    (hname : name ∈ (m.collections kind).map Collection.name) :
    m'.position kind name = m.position kind name := by
  obtain ⟨later, hlater⟩ := h
  have hfound : ((m.collections kind).map Collection.name).findIdx (· == name) <
      ((m.collections kind).map Collection.name).length :=
    List.findIdx_lt_length_of_exists ⟨name, hname, by simp⟩
  rw [position_eq_findIdx, position_eq_findIdx, ← hlater, List.findIdx_append, if_pos hfound]

/-- The place of a collection holds a collection of its name. -/
theorem Model.exists_at_position {m : Model} {kind : Kind} {name : Text}
    (h : name ∈ (m.collections kind).map Collection.name) :
    ∃ c ∈ m.collections kind,
      (m.collections kind)[m.position kind name]? = some c ∧ c.name = name := by
  obtain ⟨c, hc, hname⟩ := List.mem_map.1 h
  have hfound : m.position kind name < (m.collections kind).length :=
    List.findIdx_lt_length_of_exists ⟨c, hc, by simp [hname]⟩
  have hsame : ((m.collections kind)[m.position kind name].name == name) = true :=
    List.findIdx_getElem (w := hfound)
  exact ⟨_, List.getElem_mem hfound, List.getElem?_eq_getElem hfound, by simpa using hsame⟩

/-- The collection that is open after some declarations is there. -/
theorem Model.mem_names_of_openAfter (hm : m.NamesDistinct) {kind : Kind} {name : Text}
    (source : Text) {ds : List Declaration} (h : openAfter none ds = some (kind, name)) :
    name ∈ ((extendFrom source none ds m).collections kind).map Collection.name := by
  obtain ⟨d, hd, hopened⟩ := exists_opened_of_openAfter h
  rw [names_extendFrom (hm kind)]
  exact mem_append_newNames hd hopened

/-- The reading of some lines of a source, from a model. -/
def Source.reading (s : Source) (m : Model) (lines : List SourceLine) : Reading :=
  (lines.foldl (Progress.next s.name s.text.unixLineEnds) { reading := { model := m } }).reading

theorem Source.reading_eq (s : Source) (m : Model) (lines : List SourceLine) :
    s.reading m lines =
      ⟨m.extendFrom s.name none (lines.filterMap SourceLine.declaration?),
        openAfter none (lines.filterMap SourceLine.declaration?)⟩ :=
  (Progress.foldl_next s lines { reading := { model := m } }).2

/-- Declarations leave the collections of the kind they are listed under. -/
theorem Model.kind_of_mem_extendFrom (hm : m.NamesDistinct)
    (hkinds : m.Every fun kind c => c.kind = kind) {kind : Kind} {source : Text}
    {ds : List Declaration} {c : Collection}
    (hc : c ∈ (extendFrom source none ds m).collections kind) : c.kind = kind := by
  rw [collections_extendFrom (hm kind)] at hc
  obtain ⟨before, hbefore, rfl⟩ := List.mem_map.1 hc
  rw [Collection.updated, Collection.kind_receive]
  rcases List.mem_append.1 hbefore with hknown | hnew
  · exact hkinds kind before hknown
  · obtain ⟨name, -, rfl⟩ := List.mem_map.1 hnew
    rfl

/-- **The open collection is there, and stays where it is.** At every point of
a source, its place holds a collection of its name and kind, and is the same
at every later point. -/
theorem Source.open_collection (s : Source) (hm : m.NamesDistinct)
    (hkinds : m.Every fun kind c => c.kind = kind) (before later : List SourceLine) {kind : Kind}
    {name : Text} (h : (s.reading m before).current = some (kind, name)) :
    (∃ c, ((s.reading m before).model.collections kind)[(s.reading m before).model.position
        kind name]? = some c ∧ c.name = name ∧ c.kind = kind) ∧
      (s.reading m (before ++ later)).model.position kind name =
        (s.reading m before).model.position kind name := by
  simp only [reading_eq, List.filterMap_append] at h ⊢
  have hopen := Model.mem_names_of_openAfter hm s.name h
  constructor
  · obtain ⟨c, hc, hplace, hname⟩ := Model.exists_at_position hopen
    exact ⟨c, hplace, hname, Model.kind_of_mem_extendFrom hm hkinds hc⟩
  · refine Model.position_of_prefix ?_ hopen
    rw [Model.names_extendFrom (hm kind), Model.names_extendFrom (hm kind)]
    exact (List.prefix_append_right_inj _).2 (prefix_newNames_append ..)

/-! ## Every loaded model -/

/-- **Every loaded workspace is well formed**, whatever was loaded into a
fresh one and whether it was accepted or refused. And while any further source
is read, accepted or refused in the end, the open collection is there: after
whatever lines its place holds a collection of its name and kind, and it has the
same place after whatever lines more. -/
theorem Workspace.wellFormed_addAll (limit : Nat) (sources : List Source) :
    let w := (({ limit } : Workspace).addAll sources).2
    w.WellFormed ∧
    ∀ (s : Source) (before later : List SourceLine) (kind : Kind) (name : Text),
      (s.reading w.model before).current = some (kind, name) →
        (∃ c, ((s.reading w.model before).model.collections kind)[
            (s.reading w.model before).model.position kind name]? = some c ∧
          c.name = name ∧ c.kind = kind) ∧
        (s.reading w.model (before ++ later)).model.position kind name =
          (s.reading w.model before).model.position kind name := by
  intro w
  have hnames : w.model.NamesDistinct :=
    namesDistinct_addAll (w := { limit }) Model.namesDistinct_empty sources
  have hsources : w.sources = (accepted limit sources).map Source.name := by
    rw [show w = _ from congrArg Prod.snd (addAll_eq ..)]
    exact List.nil_append _
  have hcollections : w.model.Every (Collection.WellFormed w.sources) :=
    every_addAll (w := { limit }) Model.namesDistinct_empty Model.every_empty fun s hs =>
      s.keeps_wellFormed (hsources ▸ List.mem_map_of_mem hs)
  have hdefinitions : ∀ entry ∈ w.model.vars.entries, Line.IsVariableName entry.1 := by
    rw [show w = _ from congrArg Prod.snd (addAll_eq ..)]
    exact fun entry => Model.isVariableName_of_mem_entries (accepted limit sources)
  refine ⟨⟨hnames, hcollections, hdefinitions⟩, fun s before later kind name h => ?_⟩
  exact s.open_collection hnames (fun kind c hc => (hcollections kind c hc).kind_eq) before later h

/-- An intent that is reopened in another source, which is refused for its
last line, read up to the reopening and one line further. -/
theorem Workspace.wellFormed_addAll_reopened :
    let first : Source :=
      ⟨"INTENT: Tea\nSLOT: size\na <size>  tea # hot\nENTITY: Cup\nmug\nA-1 = b".toList,
        "first".toList⟩
    let other : Source := ⟨"INTENT: Milk\nmilk\nintent:Tea\ntea\nSLOT: 1".toList, "other".toList⟩
    let w := (({ limit := 100 } : Workspace).addAll [other, first]).2
    let opened := other.reading w.model (other.lines.take 3)
    let later := other.reading w.model (other.lines.take 3 ++ (other.lines.drop 3).take 1)
    w.WellFormed ∧ w.sources = ["first".toList] ∧
      w.model.vars.entries = [("a-1".toList, "b".toList)] ∧
      opened.current = some (.intent, "Tea".toList) ∧
      (∃ c, (opened.model.collections .intent)[opened.model.position .intent "Tea".toList]? =
        some c ∧ c.name = "Tea".toList ∧ c.kind = .intent) ∧
      later.model.position .intent "Tea".toList = opened.model.position .intent "Tea".toList ∧
      later.model.intents.map (fun c => (c.name, c.templates.map Template.text)) =
        [("Tea".toList, ["a <size> tea".toList, "tea".toList]),
          ("Milk".toList, ["milk".toList])] := by
  intro first other w opened later
  obtain ⟨hwell, hopen⟩ := wellFormed_addAll 100 [other, first]
  have hcurrent : opened.current = some (.intent, "Tea".toList) := by decide +kernel
  obtain ⟨hfound, hplace⟩ := hopen other _ _ .intent _ hcurrent
  exact ⟨hwell, by decide +kernel, by decide +kernel, hcurrent, hfound, hplace, by decide +kernel⟩

end Utterance
