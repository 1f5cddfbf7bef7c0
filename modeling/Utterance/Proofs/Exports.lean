import Utterance.Proofs.Invariants
import Utterance.Proofs.Phrases

/-!
# Exports — a slot is one thing in all documents

A placeholder of an intent is looked at in several places: the check of the
slots reports it, both exports list the slots of the intent, and a run of a
phrase carries its type. All of them read the same list of slots, and since a
slot is declared once in every loaded model, they agree on it
(`Workspace.exports_agree_on_slots`): a placeholder with a declared slot is
listed once with one type, which the run of its phrase carries, and is never
reported; one without is reported for its sentence and listed nowhere.
-/

namespace Utterance

/-! ## Compiled collections -/

/-- **What compiling succeeds with**: every collection is expanded, and the
results are brought into order. -/
theorem Model.exists_of_compile {m : Model} {fuel : Nat} {order : Order}
    {compiled : Logged Compiled} (h : m.compile fuel order = some compiled) :
    ∃ intents entities,
      m.intents.mapM (Collection.expand fuel m.vars order) = some intents ∧
      m.entities.mapM (Collection.expand fuel m.vars order) = some entities ∧
      compiled.value =
        { invocationName := m.invocationName
          language := m.language
          intents := order.arrange Expanded.name (intents.map Logged.value)
          entities := order.arrange Expanded.name (entities.map Logged.value) } := by
  simp only [compile, Option.bind_eq_bind, Option.bind_eq_some_iff, Option.pure_def,
    Option.some.injEq] at h
  obtain ⟨intents, hintents, entities, hentities, rfl⟩ := h
  exact ⟨intents, entities, hintents, hentities, rfl⟩

/-- A compiled intent is an expanded one of the model. -/
theorem Model.exists_mem_of_mem_intents {m : Model} {fuel : Nat} {order : Order}
    {compiled : Logged Compiled} (h : m.compile fuel order = some compiled) {e : Expanded}
    (he : e ∈ compiled.value.intents) :
    ∃ c ∈ m.intents, ∃ expanded, c.expand fuel m.vars order = some expanded ∧
      expanded.value = e := by
  obtain ⟨intents, entities, hintents, -, hvalue⟩ := exists_of_compile h
  rw [hvalue] at he
  have hmem : e ∈ intents.map Logged.value := (order.arrange_perm Expanded.name _).mem_iff.1 he
  obtain ⟨expanded, hexpanded, rfl⟩ := List.mem_map.1 hmem
  obtain ⟨c, hc, hexpand⟩ := exists_mem_of_mapM hintents hexpanded
  exact ⟨c, hc, expanded, hexpand, rfl⟩

/-- Compiling keeps the names of the collections, whatever their order. -/
theorem Collection.perm_names_of_mapM {fuel : Nat} {vars : Variables} {order : Order}
    {cs : List Collection} {expanded : List (Logged Expanded)}
    (h : cs.mapM (Collection.expand fuel vars order) = some expanded) :
    ((order.arrange Expanded.name (expanded.map Logged.value)).map Expanded.name).Perm
      (cs.map Collection.name) := by
  have hall := forall₂_of_mapM h
  have hnames : (expanded.map Logged.value).map Expanded.name = cs.map Collection.name := by
    clear h
    induction hall with
    | nil => rfl
    | cons hexpand _ ih =>
      obtain ⟨runs, -, rfl⟩ := Option.map_eq_some_iff.1 hexpand
      exact congrArg₂ List.cons rfl ih
  exact ((order.arrange_perm Expanded.name _).map Expanded.name).trans (.of_eq hnames)

/-! ## What is reported -/

variable {slots : List Slot} {x s : Text}

/-- A run that checks slots reports exactly what its sentences miss. -/
theorem Run.exists_undefinedSlot_iff {run : Run} (h : run.slots = some slots) :
    (∃ d ∈ run.diagnostics, d.finding = .undefinedSlot x s) ↔
      s ∈ run.sentences ∧ x ∈ Slot.undeclared slots s := by
  have hreport : (∃ d ∈ run.diagnostics, d.finding = .undefinedSlot x s) ↔
      ∃ d ∈ run.diagnostics.filter fun d => d.finding.isUndefinedSlot,
        d.finding = .undefinedSlot x s := by
    refine exists_congr fun d => ?_
    rw [List.mem_filter, and_assoc]
    refine and_congr_right fun _ => (and_iff_right_of_imp fun hfinding => ?_).symm
    rw [hfinding]
    rfl
  rw [hreport, diagnostics_checked h]
  simp only [List.mem_map, List.mem_flatMap, List.mem_eraseDups, Slot.misses]
  constructor
  · rintro ⟨_, ⟨_, ⟨t, ht, name, hname, rfl⟩, rfl⟩, hfinding⟩
    obtain ⟨rfl, rfl⟩ := Finding.undefinedSlot.inj hfinding
    exact ⟨ht, hname⟩
  · rintro ⟨hs, hx⟩
    exact ⟨_, ⟨(x, s), ⟨s, hs, x, hx, rfl⟩, rfl⟩, rfl⟩

/-- **An intent reports** exactly what its sentences miss. -/
theorem Collection.exists_undefinedSlot_iff {c : Collection} {fuel : Nat} {vars : Variables}
    {order : Order} {expanded : Logged Expanded} (hkind : c.kind = .intent)
    (h : c.expand fuel vars order = some expanded) :
    (∃ d ∈ expanded.value.diagnostics, d.finding = .undefinedSlot x s) ↔
      s ∈ expanded.value.sentences ∧ x ∈ Slot.undeclared c.slots s := by
  obtain ⟨runs, -, htable, hvalue⟩ := exists_runs h
  have hslots : ∀ run ∈ runs, run.slots = some c.slots := fun run hrun => by
    rw [htable run hrun, slotTable?, hkind]
  have hsentence : s ∈ expanded.value.sentences ↔ ∃ run ∈ runs, s ∈ run.sentences := by
    rw [hvalue, ← List.mem_flatMap]
    exact (order.arrange_perm id _).mem_iff
  calc (∃ d ∈ expanded.value.diagnostics, d.finding = .undefinedSlot x s)
    _ ↔ ∃ run ∈ runs, ∃ d ∈ run.diagnostics, d.finding = .undefinedSlot x s := by
      rw [hvalue]
      simp only [gather, List.mem_flatMap]
      constructor
      · rintro ⟨d, ⟨run, hrun, hd⟩, hx⟩
        exact ⟨run, hrun, d, hd, hx⟩
      · rintro ⟨run, hrun, d, hd, hx⟩
        exact ⟨d, ⟨run, hrun, hd⟩, hx⟩
    _ ↔ ∃ run ∈ runs, s ∈ run.sentences ∧ x ∈ Slot.undeclared c.slots s :=
      exists_congr fun run => and_congr_right fun hrun =>
        Run.exists_undefinedSlot_iff (hslots run hrun)
    _ ↔ s ∈ expanded.value.sentences ∧ x ∈ Slot.undeclared c.slots s := by
      rw [hsentence]
      constructor
      · rintro ⟨run, hrun, hs, hx⟩
        exact ⟨⟨run, hrun, hs⟩, hx⟩
      · rintro ⟨⟨run, hrun, hs⟩, hx⟩
        exact ⟨run, hrun, hs, hx⟩

/-! ## What is listed -/

/-- Where keys are distinct, the members with the key of one are that one. -/
theorem filter_of_nodup_map {α β : Type} [DecidableEq β] {key : α → β} {l : List α}
    (h : (l.map key).Nodup) {a : α} (ha : a ∈ l) : l.filter (fun b => key b = key a) = [a] := by
  induction l with
  | nil => cases ha
  | cons b l ih =>
    obtain ⟨hnew, hrest⟩ := List.nodup_cons.1 h
    rcases List.mem_cons.1 ha with rfl | ha
    · have hothers : l.filter (fun b => key b = key a) = [] := by
        refine List.filter_eq_nil_iff.2 fun b hb hkey => hnew ?_
        rw [← of_decide_eq_true hkey]
        exact List.mem_map_of_mem hb
      rw [List.filter_cons_of_pos (by simp), hothers]
    · have hne : key b ≠ key a := fun hkey => hnew (hkey ▸ List.mem_map_of_mem ha)
      rw [List.filter_cons_of_neg (by simp [hne]), ih hrest ha]

/-- A slot that is declared is found under its name, where names are
distinct. -/
theorem Slot.find?_of_nodup (h : (slots.map Slot.name).Nodup) {slot : Slot} (hslot : slot ∈ slots) :
    find? slots slot.name = some slot := by
  have hmembers : slots.filter (fun other => other.name == slot.name) = [slot] := by
    simpa only [beq_eq_decide] using filter_of_nodup_map h hslot
  rw [find?, ← List.head?_filter, hmembers]
  rfl

theorem Slot.find?_eq_none_iff : find? slots x = none ↔ ∀ slot ∈ slots, slot.name ≠ x := by
  simp [find?]

/-- A run that names a slot is the run of its placeholder. -/
theorem Dialogflow.eq_slotPart_of_mem_parts {part : Part} (h : part ∈ parts slots s)
    (hname : part.name? = some x) : part = slotPart slots x := by
  unfold parts at h
  generalize Sentence.pieces s = pieces at h
  induction pieces with
  | nil => cases h
  | cons piece more ih =>
    rw [List.foldr_cons] at h
    cases piece with
    | slot name =>
      rcases List.mem_cons.1 h with rfl | h
      · rw [name?_slotPart] at hname
        rw [Option.some.inj hname]
      · exact ih h
    | char c =>
      rcases putPiece_char_cases slots c (more.foldr (putPiece slots) []) with
        ⟨text, rest, hrest, hput⟩ | ⟨-, hput⟩
      · rw [hput] at h
        rcases List.mem_cons.1 h with rfl | h
        · cases hname
        · exact ih (by rw [hrest]; exact List.mem_cons_of_mem _ h)
      · rw [hput] at h
        rcases List.mem_cons.1 h with rfl | h
        · cases hname
        · exact ih h

/-- The value of a field of an object, the first one of its name. -/
def Json.field? (name : String) : Json → Option Json
  | .obj fields => fields.lookup name
  | _ => none

/-- The alias of a run in its document is the slot that it names. -/
theorem Dialogflow.Part.alias_eq_some_iff {part : Part} :
    part.toJson.field? "alias" = some (.str x) ↔ part.name? = some x := by
  cases part with
  | literal text =>
    have hnone : (literal text).toJson.field? "alias" = none := rfl
    simp [hnone, name?]
  | slot text name type =>
    have hsome : (slot text name type).toJson.field? "alias" = some (.str name) := rfl
    simp [hsome, name?]

/-! ## Agreement -/

namespace Expanded

/-- **An intent lists a slot**: both exports list it once, with the same
type, every run that names it carries that type, and it is never reported. -/
structure Lists (e : Expanded) (x type : Text) : Prop where
  /-- The slot in the interaction model. -/
  alexa : (Alexa.intentEntry e).slots.filter (fun slot => slot.name = x) = [⟨x, type⟩]
  /-- The parameter in the definition. -/
  dialogflow : (Dialogflow.intentDefinition e).parameters.filter (fun p => p.name = x) =
    [⟨x, '@' :: type, '$' :: x⟩]
  /-- The runs of the phrases. -/
  runs : ∀ phrase ∈ Dialogflow.userSays e, ∀ part ∈ phrase,
    part.toJson.field? "alias" = some (.str x) →
      part.toJson.field? "meta" = some (.str ('@' :: type))
  /-- No report is about the slot. -/
  unreported : ∀ d ∈ e.diagnostics, ∀ s, d.finding ≠ .undefinedSlot x s

/-- **An intent misses a slot in a sentence**: it is reported for the
sentence, neither export lists it, and the runs that name it show the name
and carry it as their type. -/
structure Misses (e : Expanded) (x s : Text) : Prop where
  /-- The report. -/
  reported : ∃ d ∈ e.diagnostics, d.finding = .undefinedSlot x s
  /-- The interaction model lists no such slot. -/
  alexa : ∀ slot ∈ (Alexa.intentEntry e).slots, slot.name ≠ x
  /-- The definition lists no such parameter. -/
  dialogflow : ∀ p ∈ (Dialogflow.intentDefinition e).parameters, p.name ≠ x
  /-- The runs of the phrases. -/
  runs : ∀ phrase ∈ Dialogflow.userSays e, ∀ part ∈ phrase,
    part.toJson.field? "alias" = some (.str x) →
      part.toJson.field? "meta" = some (.str ('@' :: x)) ∧
        part.toJson.field? "text" = some (.str x)

variable {e : Expanded}

/-- The runs of a phrase that name a slot are the run of its placeholder. -/
theorem eq_slotPart_of_alias {phrase : List Dialogflow.Part}
    (hphrase : phrase ∈ Dialogflow.userSays e)
    {part : Dialogflow.Part} (hpart : part ∈ phrase)
    (h : part.toJson.field? "alias" = some (.str x)) :
    part = Dialogflow.slotPart e.slots x := by
  obtain ⟨t, -, rfl⟩ := List.mem_map.1 hphrase
  exact Dialogflow.eq_slotPart_of_mem_parts hpart (Dialogflow.Part.alias_eq_some_iff.1 h)

/-- **The phrase of a sentence names its placeholders**, each in a run. -/
theorem exists_alias_of_mem_slotNames (hs : s ∈ e.sentences) (hx : x ∈ Sentence.slotNames s) :
    ∃ phrase ∈ Dialogflow.userSays e,
      phrase.flatMap (Dialogflow.Part.render inAngles) = s ∧
        ∃ part ∈ phrase, part.toJson.field? "alias" = some (.str x) := by
  rw [← Dialogflow.filterMap_name?_parts e.slots s] at hx
  obtain ⟨part, hpart, hname⟩ := List.mem_filterMap.1 hx
  exact ⟨_, List.mem_map_of_mem hs, Dialogflow.flatMap_inAngles_parts e.slots s, part, hpart,
    Dialogflow.Part.alias_eq_some_iff.2 hname⟩

/-- **A declared slot is listed**, if names are distinct and it is not
reported. -/
theorem lists_of_mem (hnodup : (e.slots.map Slot.name).Nodup) {slot : Slot} (hslot : slot ∈ e.slots)
    (hreport : ∀ d ∈ e.diagnostics, ∀ s, d.finding ≠ .undefinedSlot slot.name s) :
    e.Lists slot.name slot.typeName := by
  have hmembers : e.slots.filter (fun other => other.name = slot.name) = [slot] :=
    filter_of_nodup_map hnodup hslot
  refine ⟨?_, ?_, fun phrase hphrase part hpart halias => ?_, hreport⟩
  · rw [Alexa.intentEntry, List.filter_map]
    exact congrArg (List.map _) hmembers
  · rw [Dialogflow.intentDefinition, List.filter_map]
    exact congrArg (List.map _) hmembers
  · rw [eq_slotPart_of_alias hphrase hpart halias, Dialogflow.slotPart,
      Slot.find?_of_nodup hnodup hslot]
    rfl

/-- **A slot that is not declared is missed**, if it is reported. -/
theorem misses_of_forall_ne (hnone : ∀ slot ∈ e.slots, slot.name ≠ x)
    (hreport : ∃ d ∈ e.diagnostics, d.finding = .undefinedSlot x s) : e.Misses x s := by
  refine ⟨hreport, ?_, ?_, fun phrase hphrase part hpart halias => ?_⟩
  · simpa [Alexa.intentEntry] using hnone
  · simpa [Dialogflow.intentDefinition] using hnone
  · rw [eq_slotPart_of_alias hphrase hpart halias, Dialogflow.slotPart,
      Slot.find?_eq_none_iff.2 hnone]
    exact ⟨rfl, rfl⟩

end Expanded

/-- **All documents agree on a placeholder.** After any sequence of loads,
accepted or refused, take a placeholder in a sentence of a compiled intent,
and the intent of that name in the model. The phrase that reads as the sentence
has a run that names the placeholder. If the intent declares the slot,
both exports list it once, with the declared type or else its own name, and
nothing reports it; if not, it is reported for this sentence and listed
nowhere. -/
theorem Workspace.exports_agree_on_slots {limit fuel : Nat} {sources : List Source} {order : Order}
    {compiled : Logged Compiled}
    (h : (({ limit } : Workspace).addAll sources).2.compile fuel order = some compiled)
    {e : Expanded} (he : e ∈ compiled.value.intents) (hs : s ∈ e.sentences)
    (hx : x ∈ Sentence.slotNames s) :
    ∃ intent, (({ limit } : Workspace).addAll sources).2.model.collection? .intent e.name =
        some intent ∧
      (∃ phrase ∈ Dialogflow.userSays e,
        phrase.flatMap (Dialogflow.Part.render inAngles) = s ∧
          ∃ part ∈ phrase, part.toJson.field? "alias" = some (.str x)) ∧
      ((∃ slot ∈ intent.slots, slot.name = x ∧ e.Lists x slot.typeName) ∨
        (∀ slot ∈ intent.slots, slot.name ≠ x) ∧ e.Misses x s) := by
  obtain ⟨c, hc, expanded, hexpand, rfl⟩ := Model.exists_mem_of_mem_intents h he
  have hnames := namesDistinct_addAll (w := { limit }) Model.namesDistinct_empty sources
  obtain ⟨hkind, hnodup⟩ := slotsDistinct_addAll limit sources .intent c hc
  have hgathered : expanded.value.name = c.name ∧ expanded.value.slots = c.slots := by
    obtain ⟨runs, -, -, hvalue⟩ := Collection.exists_runs hexpand
    rw [hvalue]
    exact ⟨rfl, rfl⟩
  have hreport {name t : Text} := c.exists_undefinedSlot_iff (x := name) (s := t) hkind hexpand
  refine ⟨c, ?_, Expanded.exists_alias_of_mem_slotNames hs hx, ?_⟩
  · rw [hgathered.1]
    exact Model.collection?_of_mem (hnames .intent) hc
  rw [← hgathered.2] at hnodup hreport ⊢
  by_cases hdeclared : ∃ slot ∈ expanded.value.slots, slot.name = x
  · left
    obtain ⟨slot, hslot, rfl⟩ := hdeclared
    refine ⟨slot, hslot, rfl, Expanded.lists_of_mem hnodup hslot fun d hd t hfinding => ?_⟩
    -- a report would be about a slot that is not declared
    have hmissed := (hreport.1 ⟨d, hd, hfinding⟩).2
    exact (Slot.mem_undeclared.1 hmissed).2.2 slot hslot rfl
  · right
    have hnone : ∀ slot ∈ expanded.value.slots, slot.name ≠ x := fun slot hslot hname =>
      hdeclared ⟨slot, hslot, hname⟩
    obtain ⟨hident, hinfix⟩ := Sentence.mem_slotNames_iff.1 hx
    exact ⟨hnone, Expanded.misses_of_forall_ne hnone
      (hreport.2 ⟨hs, Slot.mem_undeclared.2 ⟨hident, hinfix, hnone⟩⟩)⟩

/-- An intent that is opened in two sources and declares a slot in each, with
a refused source between, and a sentence with another placeholder beside. -/
theorem Workspace.exports_agree_on_slots_reopened :
    let first : Source := ⟨"INTENT: Order\nSLOT: size :Cup\na <size> <sort> tea".toList,
      "first".toList⟩
    let refused : Source := ⟨"INTENT: Order\nSLOT: sort\nSLOT: !".toList, "refused".toList⟩
    let second : Source := ⟨"intent: Order\nSLOT: size :Int ~ big".toList, "second".toList⟩
    let w := (({ limit := 100 } : Workspace).addAll [first, refused, second]).2
    let s := "a <size> <sort> tea".toList
    w.sources = ["first".toList, "second".toList] ∧
      ∃ compiled, w.compile 20 .found = some compiled ∧ ∃ e ∈ compiled.value.intents,
        s ∈ e.sentences ∧ "size".toList ∈ Sentence.slotNames s ∧
          "sort".toList ∈ Sentence.slotNames s ∧ e.Lists "size".toList "Cup".toList ∧
            e.Misses "sort".toList s ∧ ∃ phrase ∈ Dialogflow.userSays e, ∃ part ∈ phrase,
              part.toJson.field? "alias" = some (.str "sort".toList) := by
  intro first refused second w s
  have hcompile : (w.compile 20 .found).map (fun c =>
      c.value.intents.map fun e => (e.name, e.sentences)) = some [("Order".toList, [s])] := by
    decide +kernel
  have hintent : (w.model.collection? .intent "Order".toList).map Collection.slots =
      some [{ name := "size".toList, type := some "Cup".toList }] := by
    decide +kernel
  obtain ⟨compiled, hcompiled, hintents⟩ := Option.map_eq_some_iff.1 hcompile
  obtain ⟨e, he, hmade⟩ : ∃ e ∈ compiled.value.intents, (e.name, e.sentences) =
      ("Order".toList, [s]) := List.mem_map.1 (hintents ▸ List.mem_singleton_self _)
  obtain ⟨hname, hsentences⟩ := Prod.mk.inj hmade
  have hs : s ∈ e.sentences := by simp [hsentences]
  have hsize : "size".toList ∈ Sentence.slotNames s := by decide +kernel
  have hsort : "sort".toList ∈ Sentence.slotNames s := by decide +kernel
  obtain ⟨intent, hfound, -, hcases⟩ := exports_agree_on_slots hcompiled he hs hsize
  obtain ⟨_, hfound', hruns, hcases'⟩ := exports_agree_on_slots hcompiled he hs hsort
  obtain rfl := Option.some.inj (hfound.symm.trans hfound')
  have hslots : intent.slots = [{ name := "size".toList, type := some "Cup".toList }] := by
    rw [hname] at hfound
    rw [hfound] at hintent
    exact Option.some.inj hintent
  obtain ⟨phrase, hphrase, -, hrun⟩ := hruns
  refine ⟨by decide +kernel, compiled, hcompiled, e, he, hs, hsize, hsort, ?_, ?_, phrase,
    hphrase, hrun⟩
  · simpa [hslots, Slot.typeName] using hcases
  · simpa [hslots] using hcases'

end Utterance
