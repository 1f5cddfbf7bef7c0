import Utterance.Proofs.Declarations
import Utterance.Proofs.Firsts
import Mathlib.Data.List.Enum

/-!
# Updates — what an accepted source means

A source is loaded line by line, with an open collection that is carried
along; what it means can be said without that state. A sentence or slot
belongs to the collection that the nearest opening before it names
(`attachedTo`), a collection that is new stands where it was first opened
(`newNames`), a slot counts where its name is declared first (`newSlots`),
and of a variable, the invocation name and the language the last
declaration counts (`Model.extendFrom_last`). A model whose names are
distinct is updated in exactly this way (`Model.updatedBy_of_load`).
-/

namespace Utterance

/-! ## Members and what stands in front of them -/

/-- The members of a list that pass a test, which is given what stands in
front of each. -/
def keepGiven {α : Type} (test : List α → α → Bool) (l : List α) : List α :=
  (l.zipIdx.filter fun (a, i) => test (l.take i) a).map Prod.fst

@[simp] theorem keepGiven_nil {α : Type} (test : List α → α → Bool) : keepGiven test [] = [] := rfl

/-- A member at the end is tested against all others. -/
theorem keepGiven_concat {α : Type} (test : List α → α → Bool) (l : List α) (a : α) :
    keepGiven test (l ++ [a]) = keepGiven test l ++ if test l a then [a] else [] := by
  have hbefore : l.zipIdx.filter (fun (b, i) => test ((l ++ [a]).take i) b) =
      l.zipIdx.filter (fun (b, i) => test (l.take i) b) := by
    refine List.filter_congr fun (b, i) hb => ?_
    have hi : i ≤ l.length := by
      have := List.snd_lt_of_mem_zipIdx hb
      omega
    simp only [List.take_append_of_le_length hi]
  unfold keepGiven
  rw [List.zipIdx_append, List.filter_append, hbefore, List.map_append]
  by_cases h : test l a = true <;> simp [h]

/-! ## What the declarations say -/

namespace Line

/-- The name of the collection that a line opens, if it is of a kind. -/
def opensAs? (kind : Kind) (l : Line) : Option Text :=
  l.opened?.bind fun opened => if opened.1 = kind then some opened.2 else none

/-- The template of a sentence. -/
def template? (template : Text → Template) : Line → Option Template
  | sentence text => some (template text)
  | _ => none

/-- The slot that a line declares. -/
def slot? : Line → Option Slot
  | slot _ name _ type _ «example» => some (Reading.declaredSlot name type «example»)
  | _ => none

/-- The definition that a line gives to a variable. -/
def defines? (key : Text) : Line → Option Text
  | definition name _ text => if name.lower = key then some text.text else none
  | _ => none

/-- The invocation name that a line declares. -/
def invocationName? : Line → Option Text
  | invocation _ name => some name.text
  | _ => none

/-- The language that a line declares. -/
def language? : Line → Option Text
  | language _ code => some code.text
  | _ => none

end Line

/-- **The declarations that are attached to a collection**: those whose
nearest opening before them names it. -/
def attachedTo (kind : Kind) (name : Text) (ds : List Declaration) : List Declaration :=
  keepGiven (fun before _ => decide (openAfter none before = some (kind, name))) ds

/-- The names under which collections of a kind are opened and that are not
known, each where it first comes. -/
def newNames (known : List Text) (kind : Kind) (ds : List Declaration) : List Text :=
  (ds.filterMap fun d => d.line.opensAs? kind).eraseDups.filter fun name => name ∉ known

/-- The slots among some whose name is not known and does not come before. -/
def newSlots (known slots : List Slot) : List Slot :=
  keepGiven (fun before slot => (Slot.find? (known ++ before) slot.name).isNone) slots

/-- A collection without content. -/
def Collection.empty (kind : Kind) (name : Text) : Collection :=
  { name := name, kind := kind }

/-- The collection of a kind and name, without content if there is none. -/
def Model.collectionOrNew (m : Model) (kind : Kind) (name : Text) : Collection :=
  (m.collection? kind name).getD (Collection.empty kind name)

/-- **A model is updated by a source.** -/
structure Model.UpdatedBy (m : Model) (s : Source) (m' : Model) : Prop where
  /-- The new collections of a kind come after the known ones, in the order
  of their first openings. -/
  names : ∀ kind, (m'.collections kind).map Collection.name =
    (m.collections kind).map Collection.name ++
      newNames ((m.collections kind).map Collection.name) kind s.declarations
  /-- A collection keeps its kind, and a new one has the kind it is opened
  as. -/
  kinds : ∀ kind, ∀ c ∈ m'.collections kind, c.kind = (m.collectionOrNew kind c.name).kind
  /-- The sentences that are attached to a collection come after its
  templates. -/
  templates : ∀ kind, ∀ c ∈ m'.collections kind,
    c.templates = (m.collectionOrNew kind c.name).templates ++
      (attachedTo kind c.name s.declarations).filterMap fun d =>
        d.line.template? (Template.placed s.name d.span)
  /-- So do the slots of an intent, each name once. -/
  intentSlots : ∀ c ∈ m'.intents,
    c.slots = (m.collectionOrNew .intent c.name).slots ++
      newSlots (m.collectionOrNew .intent c.name).slots
        ((attachedTo .intent c.name s.declarations).filterMap fun d => d.line.slot?)
  /-- An entity gains no slots. -/
  entitySlots : ∀ c ∈ m'.entities, c.slots = (m.collectionOrNew .entity c.name).slots
  /-- A variable has its last definition, or the one it had. -/
  definitions : ∀ key, m'.vars.entries.lookup key =
    (s.declarations.filterMap fun d => d.line.defines? key).getLast?.or
      (m.vars.entries.lookup key)
  /-- The last invocation name counts. -/
  invocationName : m'.invocationName =
    (s.declarations.filterMap fun d => d.line.invocationName?).getLast?.or m.invocationName
  /-- The last language counts. -/
  language : m'.language =
    (s.declarations.filterMap fun d => d.line.language?).getLast?.getD m.language

/-! ## The last declaration counts -/

/-- **What every line either writes or leaves** is left by a source as the
last line wrote it. -/
theorem Model.extendFrom_last {β : Type} (get : Model → Option β) (write : Line → Option β)
    (h : ∀ template current l m, get (Line.effect template current l m) = (write l).or (get m))
    (source : Text) (current : Option (Kind × Text)) (ds : List Declaration) (m : Model) :
    get (extendFrom source current ds m) =
      (ds.filterMap fun d => write d.line).getLast?.or (get m) := by
  induction ds generalizing current m with
  | nil => rfl
  | cons d ds ih =>
    rw [extendFrom, ih, h, List.filterMap_cons]
    cases hw : write d.line with
    | none => rfl
    | some value =>
      cases hlast : (ds.filterMap fun d => write d.line).getLast? <;>
        simp [List.getLast?_cons, hlast]

/-- **What does not read the collections** is left as it is by a line that
writes nothing else. -/
theorem Line.effect_of_writes_none {β : Type} (get : Model → β)
    (hget : ∀ (m : Model) kind cs, get (m.withCollections kind cs) = get m) {l : Line}
    (hname : l.invocationName? = none) (hlanguage : l.language? = none)
    (hdefinition : ∀ key, l.defines? key = none) (template : Text → Template)
    (current : Option (Kind × Text)) (m : Model) :
    get (l.effect template current m) = get m := by
  cases l with
  | invocation keyword name => simp [invocationName?] at hname
  | language keyword code => simp [language?] at hlanguage
  | opening kind keyword name =>
    rw [effect, Model.openCollection]
    split
    · rfl
    · exact hget ..
  | slot keyword name beforeType type beforeExample «example» =>
    rcases current with _ | ⟨_ | _, intent⟩
    · rfl
    · exact hget m .intent _
    · rfl
  | definition name beforeSign text => simpa [defines?] using hdefinition name.lower
  | sentence text =>
    rcases current with _ | ⟨kind, name⟩
    · rfl
    · exact hget m kind _

namespace Model

theorem lookup_effect (key : Text) (template : Text → Template) (current : Option (Kind × Text))
    (l : Line) (m : Model) :
    (l.effect template current m).vars.entries.lookup key =
      (l.defines? key).or (m.vars.entries.lookup key) := by
  have hkept (m : Model) (kind : Kind) (cs : List Collection) :
      (m.withCollections kind cs).vars.entries.lookup key = m.vars.entries.lookup key := by
    cases kind <;> rfl
  cases l with
  | invocation keyword name => rfl
  | language keyword code => rfl
  | definition name beforeSign text =>
    have hput := Variables.lookup_put name.lower text.text key m.vars.entries
    rw [Line.effect, defineVariable, Variables.define, hput, Line.defines?]
    by_cases hkey : name.lower = key
    · rw [if_pos hkey.symm, if_pos hkey, Option.some_or]
    · rw [if_neg (Ne.symm hkey), if_neg hkey, Option.none_or]
  | _ =>
    exact Line.effect_of_writes_none (fun m => m.vars.entries.lookup key) hkept rfl rfl
      (fun _ => rfl) ..

theorem invocationName_effect (template : Text → Template) (current : Option (Kind × Text))
    (l : Line) (m : Model) :
    (l.effect template current m).invocationName = l.invocationName?.or m.invocationName := by
  have hkept (m : Model) (kind : Kind) (cs : List Collection) :
      (m.withCollections kind cs).invocationName = m.invocationName := by
    cases kind <;> rfl
  cases l with
  | invocation keyword name => rfl
  | language keyword code => rfl
  | definition name beforeSign text => rfl
  | _ => exact Line.effect_of_writes_none Model.invocationName hkept rfl rfl (fun _ => rfl) ..

theorem language_effect (template : Text → Template) (current : Option (Kind × Text))
    (l : Line) (m : Model) :
    some (l.effect template current m).language = l.language?.or (some m.language) := by
  have hkept (m : Model) (kind : Kind) (cs : List Collection) :
      some (m.withCollections kind cs).language = some m.language := by
    cases kind <;> rfl
  cases l with
  | invocation keyword name => rfl
  | language keyword code => rfl
  | definition name beforeSign text => rfl
  | _ =>
    exact Line.effect_of_writes_none (fun m => some m.language) hkept rfl rfl
      (fun _ => rfl) ..

end Model

/-! ## Collections -/

/-- What a line adds to a collection of a kind that it is attached to. -/
def Line.addTo (template : Text → Template) (kind : Kind) : Line → Collection → Collection
  | sentence text, c => c.addTemplate (template text)
  | slot _ name _ type _ «example», c =>
    match kind with
    | .intent => c.declareSlot (Reading.declaredSlot name type «example»)
    | .entity => c
  | _, c => c

/-- What some declarations add to a collection of a kind that all of them
are attached to. -/
def Collection.receive (source : Text) (kind : Kind) (ds : List Declaration) (c : Collection) :
    Collection :=
  ds.foldl (fun c d => d.line.addTo (Template.placed source d.span) kind c) c

theorem Collection.name_declareSlot (c : Collection) (slot : Slot) :
    (c.declareSlot slot).name = c.name := by
  unfold declareSlot
  split <;> rfl

theorem Collection.kind_declareSlot (c : Collection) (slot : Slot) :
    (c.declareSlot slot).kind = c.kind := by
  unfold declareSlot
  split <;> rfl

namespace Line

theorem name_addTo (template : Text → Template) (kind : Kind) (l : Line) (c : Collection) :
    (l.addTo template kind c).name = c.name := by
  cases l with
  | slot keyword name beforeType type beforeExample «example» =>
    cases kind with
    | intent => exact c.name_declareSlot _
    | entity => rfl
  | _ => rfl

theorem kind_addTo (template : Text → Template) (kind : Kind) (l : Line) (c : Collection) :
    (l.addTo template kind c).kind = c.kind := by
  cases l with
  | slot keyword name beforeType type beforeExample «example» =>
    cases kind with
    | intent => exact c.kind_declareSlot _
    | entity => rfl
  | _ => rfl

theorem templates_addTo (template : Text → Template) (kind : Kind) (l : Line) (c : Collection) :
    (l.addTo template kind c).templates = c.templates ++ (l.template? template).toList := by
  cases l with
  | slot keyword name beforeType type beforeExample «example» =>
    cases kind <;> simp [addTo, template?]
  | sentence text => simp [addTo, template?]
  | _ => simp [addTo, template?]

end Line

/-- Where names are distinct, the change of one collection is a change of
the collections of that name. -/
theorem modify_findIdx_of_nodup {cs : List Collection} (h : (cs.map Collection.name).Nodup)
    (name : Text) (change : Collection → Collection) :
    cs.modify (cs.findIdx fun c => c.name == name) change =
      cs.map fun c => if c.name = name then change c else c := by
  induction cs with
  | nil => rfl
  | cons c cs ih =>
    obtain ⟨hnew, hrest⟩ := List.nodup_cons.1 h
    by_cases hc : c.name = name
    · have hothers : ∀ d ∈ cs, d.name ≠ name := by
        rintro d hd rfl
        exact hnew (hc ▸ List.mem_map_of_mem hd)
      have hsame : cs.map (fun d => if d.name = name then change d else d) = cs := by
        refine (List.map_congr_left fun d hd => ?_).trans (List.map_id cs)
        exact if_neg (hothers d hd)
      simp [List.findIdx_cons, hc, hsame]
    · have hne : (c.name == name) = false := beq_false_of_ne hc
      rw [List.findIdx_cons, hne, List.map_cons, if_neg hc, ← ih hrest]
      rfl

namespace Model

theorem collections_modifyCollection {m : Model} {kind : Kind}
    (hm : ((m.collections kind).map Collection.name).Nodup) (other : Kind) (name : Text)
    (change : Collection → Collection) :
    (m.modifyCollection other name change).collections kind =
      (m.collections kind).map fun c =>
        if some (other, name) = some (kind, c.name) then change c else c := by
  unfold modifyCollection
  by_cases hkind : other = kind
  · subst hkind
    rw [collections_withCollections, position, modify_findIdx_of_nodup hm]
    refine List.map_congr_left fun c _ => ?_
    by_cases hc : c.name = name
    · simp [hc]
    · simp [hc, Ne.symm hc]
  · rw [collections_withCollections_of_ne _ (Ne.symm hkind)]
    simp [hkind]

/-- **A line that opens nothing** adds to the open collection and leaves the
others as they are. -/
theorem collections_effect {m : Model} {kind : Kind} {l : Line} (hopened : l.opened? = none)
    (hm : ((m.collections kind).map Collection.name).Nodup) (template : Text → Template)
    (current : Option (Kind × Text)) :
    (l.effect template current m).collections kind =
      (m.collections kind).map fun c =>
        if current = some (kind, c.name) then l.addTo template kind c else c := by
  -- all but sentences and slots add nothing anywhere
  have hnothing : (m.collections kind).map (fun c =>
      if current = some (kind, c.name) then c else c) = m.collections kind := by simp
  cases l with
  | invocation keyword name => cases kind <;> exact hnothing.symm
  | language keyword code => cases kind <;> exact hnothing.symm
  | opening other keyword name => simp [Line.opened?] at hopened
  | slot keyword name beforeType type beforeExample «example» =>
    rcases current with _ | ⟨_ | _, intent⟩
    · simp [Line.effect]
    · rw [Line.effect, collections_modifyCollection hm]
      cases kind <;> simp [Line.addTo]
    · cases kind <;> simp [Line.effect, Line.addTo]
  | definition name beforeSign text => cases kind <;> exact hnothing.symm
  | sentence text =>
    rcases current with _ | ⟨other, name⟩
    · simp [Line.effect]
    · exact collections_modifyCollection hm other name _

/-- **An opening** adds a collection without content if its name is new. -/
theorem collections_openCollection (m : Model) (kind other : Kind) (name : Text) :
    (m.openCollection other name).collections kind =
      if other = kind ∧ name ∉ (m.collections kind).map Collection.name then
        m.collections kind ++ [{ name := name, kind := kind }]
      else m.collections kind := by
  have hfound : (m.collection? kind name).isSome ↔
      name ∈ (m.collections kind).map Collection.name := by
    simp [collection?]
  unfold openCollection
  by_cases hkind : other = kind
  · subst hkind
    by_cases hknown : name ∈ (m.collections other).map Collection.name
    · rw [if_pos (hfound.2 hknown), if_neg fun h => h.2 hknown]
    · rw [if_neg fun h => hknown (hfound.1 h), if_pos ⟨rfl, hknown⟩,
        collections_withCollections]
  · rw [if_neg (fun h => hkind h.1 : ¬ (other = kind ∧ _))]
    split
    · rfl
    · exact collections_withCollections_of_ne _ (Ne.symm hkind) _

end Model

/-! ## The whole source -/

/-- What a source adds to a collection of a kind. -/
def Collection.updated (source : Text) (kind : Kind) (ds : List Declaration) (c : Collection) :
    Collection :=
  c.receive source kind (attachedTo kind c.name ds)

theorem attachedTo_concat (kind : Kind) (name : Text) (ds : List Declaration) (d : Declaration) :
    attachedTo kind name (ds ++ [d]) =
      attachedTo kind name ds ++
        if openAfter none ds = some (kind, name) then [d] else [] := by
  rw [attachedTo, keepGiven_concat, attachedTo]
  simp only [decide_eq_true_eq]

theorem Collection.updated_concat (source : Text) (kind : Kind) (ds : List Declaration)
    (d : Declaration) (c : Collection) :
    c.updated source kind (ds ++ [d]) =
      if openAfter none ds = some (kind, c.name) then
        d.line.addTo (Template.placed source d.span) kind (c.updated source kind ds)
      else c.updated source kind ds := by
  rw [updated, attachedTo_concat, receive, List.foldl_append]
  split
  · rfl
  · rfl

theorem Collection.name_receive (source : Text) (kind : Kind) (ds : List Declaration)
    (c : Collection) : (c.receive source kind ds).name = c.name := by
  induction ds generalizing c with
  | nil => rfl
  | cons d ds ih => exact (ih _).trans (Line.name_addTo ..)

theorem Collection.name_updated (source : Text) (kind : Kind) (ds : List Declaration)
    (c : Collection) : (c.updated source kind ds).name = c.name :=
  name_receive ..

theorem newNames_concat (known : List Text) (kind : Kind) (ds : List Declaration)
    (d : Declaration) :
    newNames known kind (ds ++ [d]) =
      newNames known kind ds ++
        (d.line.opensAs? kind).toList.filter fun name =>
          name ∉ known ++ newNames known kind ds := by
  unfold newNames
  rw [List.filterMap_append]
  cases hname : d.line.opensAs? kind with
  | none => simp [hname]
  | some name =>
    have hlast : [d].filterMap (fun d => d.line.opensAs? kind) = [name] := by simp [hname]
    rw [hlast]
    generalize ds.filterMap (fun d => d.line.opensAs? kind) = opened
    rw [eraseDups_concat]
    by_cases hmem : name ∈ opened <;> by_cases hknown : name ∈ known <;> simp [hmem, hknown]

theorem nodup_append_newNames {known : List Text} (h : known.Nodup) (kind : Kind)
    (ds : List Declaration) : (known ++ newNames known kind ds).Nodup := by
  have hnew : (newNames known kind ds).Nodup := (nodup_eraseDups _).filter _
  refine List.nodup_append.2 ⟨h, hnew, ?_⟩
  rintro name hknown _ hmem rfl
  exact absurd hknown (by simpa using (List.mem_filter.1 hmem).2)

/-- The open collection was opened. -/
theorem exists_opened_of_openAfter {ds : List Declaration} {opened : Kind × Text}
    (h : openAfter none ds = some opened) : ∃ d ∈ ds, d.line.opened? = some opened := by
  rw [openAfter, Option.or_none] at h
  exact List.mem_filterMap.1 (List.mem_of_getLast? h)

theorem mem_append_newNames {known : List Text} {kind : Kind} {ds : List Declaration}
    {d : Declaration} {name : Text} (hd : d ∈ ds) (h : d.line.opened? = some (kind, name)) :
    name ∈ known ++ newNames known kind ds := by
  by_cases hknown : name ∈ known
  · exact List.mem_append_left _ hknown
  · have hopened : name ∈ ds.filterMap fun d => d.line.opensAs? kind :=
      List.mem_filterMap.2 ⟨d, hd, by simp [Line.opensAs?, h]⟩
    exact List.mem_append_right _
      (List.mem_filter.2 ⟨List.mem_eraseDups.2 hopened, by simpa using hknown⟩)

/-- Nothing is attached to a collection that is not opened. -/
theorem attachedTo_eq_nil {kind : Kind} {name : Text} {ds : List Declaration}
    (h : ∀ d ∈ ds, d.line.opened? ≠ some (kind, name)) : attachedTo kind name ds = [] := by
  induction ds using List.reverseRecOn with
  | nil => rfl
  | append_singleton ds d ih =>
    have hbefore : ∀ e ∈ ds, e.line.opened? ≠ some (kind, name) := fun e he => h e (by simp [he])
    have hclosed : openAfter none ds ≠ some (kind, name) := by
      intro hopen
      obtain ⟨e, he, hopened⟩ := exists_opened_of_openAfter hopen
      exact hbefore e he hopened
    rw [attachedTo_concat, ih hbefore, if_neg hclosed]
    rfl

/-- **The collections that a source leaves**: the known ones and the new
ones, each with what is attached to it. -/
theorem Model.collections_extendFrom {m : Model} {kind : Kind}
    (hm : ((m.collections kind).map Collection.name).Nodup) (source : Text)
    (ds : List Declaration) :
    (extendFrom source none ds m).collections kind =
      (m.collections kind ++
        (newNames ((m.collections kind).map Collection.name) kind ds).map
          (Collection.empty kind)).map (Collection.updated source kind ds) := by
  induction ds using List.reverseRecOn with
  | nil =>
    have hsame : Collection.updated source kind [] = id := rfl
    rw [hsame, List.map_id]
    simp [extendFrom, newNames]
  | append_singleton ds d ih =>
    have hstep : extendFrom source none (ds ++ [d]) m =
        d.line.effect (Template.placed source d.span) (openAfter none ds)
          (extendFrom source none ds m) := by
      rw [extendFrom_append]
      rfl
    have hnames : ((extendFrom source none ds m).collections kind).map Collection.name =
        (m.collections kind).map Collection.name ++
          newNames ((m.collections kind).map Collection.name) kind ds := by
      rw [ih, List.map_map, List.map_append, List.map_map]
      simp [Function.comp_def, Collection.name_updated, Collection.empty]
    have hnodup : (((extendFrom source none ds m).collections kind).map Collection.name).Nodup :=
      hnames ▸ nodup_append_newNames hm kind ds
    cases hopened : d.line.opened? with
    | none =>
      have hsame : newNames ((m.collections kind).map Collection.name) kind (ds ++ [d]) =
          newNames ((m.collections kind).map Collection.name) kind ds := by
        rw [newNames_concat]
        simp [Line.opensAs?, hopened]
      rw [hstep, collections_effect hopened hnodup, ih, hsame, List.map_map]
      refine List.map_congr_left fun c _ => ?_
      simp [Collection.updated_concat, Collection.name_updated]
    | some opened =>
      obtain ⟨other, keyword, name, hline⟩ :
          ∃ other keyword name, d.line = .opening other keyword name := by
        cases hl : d.line with
        | opening other keyword name => exact ⟨other, keyword, name, rfl⟩
        | _ => simp [hl, Line.opened?] at hopened
      -- an opening adds nothing to the collections that are there
      have hupdated : Collection.updated source kind (ds ++ [d]) =
          Collection.updated source kind ds := by
        funext c
        rw [Collection.updated_concat, hline]
        split <;> rfl
      rw [hstep, hline, Line.effect, collections_openCollection, hnames, newNames_concat, hline,
        hupdated]
      by_cases hnew : other = kind ∧ name.text ∉ (m.collections kind).map Collection.name ++
          newNames ((m.collections kind).map Collection.name) kind ds
      · obtain ⟨rfl, hunknown⟩ := hnew
        have hnone : attachedTo other name.text ds = [] :=
          attachedTo_eq_nil fun e he heopened => hunknown (mem_append_newNames he heopened)
        have hempty : (Collection.empty other name.text).updated source other ds =
            Collection.empty other name.text := by
          rw [Collection.updated, Collection.empty, hnone]
          rfl
        have hadded : (Line.opensAs? other (.opening other keyword name)).toList.filter
            (fun n => n ∉ (m.collections other).map Collection.name ++
              newNames ((m.collections other).map Collection.name) other ds) = [name.text] := by
          simpa [Line.opensAs?, Line.opened?] using hunknown
        rw [if_pos ⟨rfl, hunknown⟩, hadded, ih]
        simp only [List.map_append, List.map_singleton, hempty, List.append_assoc]
        rfl
      · have hadded : (Line.opensAs? kind (.opening other keyword name)).toList.filter
            (fun n => n ∉ (m.collections kind).map Collection.name ++
              newNames ((m.collections kind).map Collection.name) kind ds) = [] := by
          rw [List.filter_eq_nil_iff]
          intro n hn
          by_cases hkind : other = kind
          · obtain rfl : n = name.text := by
              simpa [Line.opensAs?, Line.opened?, hkind] using hn
            simpa only [decide_eq_true_eq] using fun h => hnew ⟨hkind, h⟩
          · simp [Line.opensAs?, Line.opened?, hkind] at hn
        rw [if_neg hnew, hadded, List.append_nil, ih]

/-! ## What a collection receives -/

namespace Collection

variable {source : Text} {kind : Kind} {ds : List Declaration} {c : Collection}

theorem kind_receive : (c.receive source kind ds).kind = c.kind := by
  induction ds generalizing c with
  | nil => rfl
  | cons d ds ih => exact ih.trans (Line.kind_addTo ..)

/-- The sentences come after the templates. -/
theorem templates_receive :
    (c.receive source kind ds).templates =
      c.templates ++ ds.filterMap fun d => d.line.template? (Template.placed source d.span) := by
  induction ds generalizing c with
  | nil => simp [receive]
  | cons d ds ih =>
    have hstep : c.receive source kind (d :: ds) =
        (d.line.addTo (Template.placed source d.span) kind c).receive source kind ds := rfl
    rw [hstep, ih, Line.templates_addTo, List.filterMap_cons]
    cases d.line.template? (Template.placed source d.span) <;> simp

theorem slots_receive_entity : (c.receive source .entity ds).slots = c.slots := by
  induction ds generalizing c with
  | nil => rfl
  | cons d ds ih =>
    have hstep : (d.line.addTo (Template.placed source d.span) .entity c).slots = c.slots := by
      cases d.line <;> rfl
    exact ih.trans hstep

end Collection

/-- A slot at the end counts if its name is not declared before. -/
theorem newSlots_concat (known slots : List Slot) (slot : Slot) :
    newSlots known (slots ++ [slot]) =
      newSlots known slots ++
        if (Slot.find? (known ++ slots) slot.name).isNone then [slot] else [] :=
  keepGiven_concat ..

/-- **The slots that count** declare every name that is declared at all. -/
theorem isSome_find?_newSlots (known slots : List Slot) (name : Text) :
    (Slot.find? (known ++ newSlots known slots) name).isSome =
      (Slot.find? (known ++ slots) name).isSome := by
  induction slots using List.reverseRecOn with
  | nil => rfl
  | append_singleton slots slot ih =>
    have hlast (l : List Slot) : (Slot.find? (l ++ [slot]) name).isSome =
        ((Slot.find? l name).isSome || slot.name == name) := by
      by_cases hname : slot.name = name <;> simp [Slot.find?, hname, beq_false_of_ne]
    rw [newSlots_concat, ← List.append_assoc known slots, hlast, ← ih]
    by_cases hnew : (Slot.find? (known ++ slots) slot.name).isNone = true
    · rw [if_pos hnew, ← List.append_assoc, hlast]
    · rw [if_neg hnew, List.append_nil]
      by_cases hname : slot.name = name
      · subst hname
        have hknown : (Slot.find? (known ++ slots) slot.name).isSome = true := by
          simpa [Option.isSome_iff_ne_none] using hnew
        rw [ih, hknown, Bool.true_or]
      · rw [beq_false_of_ne hname, Bool.or_false]

/-- **The slots that an intent receives**: each name counts once. -/
theorem Collection.slots_receive_intent (source : Text) (ds : List Declaration) (c : Collection) :
    (c.receive source .intent ds).slots =
      c.slots ++ newSlots c.slots (ds.filterMap fun d => d.line.slot?) := by
  induction ds using List.reverseRecOn with
  | nil => simp [receive, newSlots]
  | append_singleton ds d ih =>
    have hstep : c.receive source .intent (ds ++ [d]) =
        d.line.addTo (Template.placed source d.span) .intent (c.receive source .intent ds) := by
      rw [receive, List.foldl_append]
      rfl
    rw [hstep, List.filterMap_append]
    cases hline : d.line with
    | slot keyword name beforeType type beforeExample «example» =>
      let slot := Reading.declaredSlot name type «example»
      have hlast : [d].filterMap (fun d => d.line.slot?) = [slot] := by
        simp [hline, Line.slot?, slot]
      have hknown : ((c.receive source .intent ds).slot? slot.name).isSome =
          (Slot.find? (c.slots ++ ds.filterMap fun d => d.line.slot?) slot.name).isSome := by
        rw [slot?, ih, isSome_find?_newSlots]
      rw [hlast, newSlots_concat, Line.addTo, declareSlot, hknown]
      cases hfound : Slot.find? (c.slots ++ ds.filterMap fun d => d.line.slot?) slot.name with
      | none => simp [ih, slot]
      | some found => simp [ih]
    | _ =>
      have hlast : [d].filterMap (fun d => d.line.slot?) = [] := by simp [hline, Line.slot?]
      rw [hlast, List.append_nil]
      exact ih

/-! ## The model -/

/-- Where names are distinct, a collection is found under its name. -/
theorem Model.collection?_of_mem {m : Model} {kind : Kind}
    (hm : ((m.collections kind).map Collection.name).Nodup) {c : Collection}
    (hc : c ∈ m.collections kind) : m.collection? kind c.name = some c := by
  cases hfound : m.collection? kind c.name with
  | none =>
    have hother := List.find?_eq_none.1 hfound c hc
    simp at hother
  | some d =>
    have hd : d ∈ m.collections kind := List.mem_of_find?_eq_some hfound
    have hname : d.name = c.name := by simpa using List.find?_some hfound
    rw [List.inj_on_of_nodup_map hm hd hc hname]

/-- A known collection is the one of its name, and so is a new one. -/
theorem Model.collectionOrNew_of_mem {m : Model} {kind : Kind}
    (hm : ((m.collections kind).map Collection.name).Nodup) {ds : List Declaration}
    {c : Collection}
    (hc : c ∈ m.collections kind ++
      (newNames ((m.collections kind).map Collection.name) kind ds).map (Collection.empty kind)) :
    m.collectionOrNew kind c.name = c := by
  rcases List.mem_append.1 hc with hknown | hnew
  · rw [collectionOrNew, collection?_of_mem hm hknown, Option.getD_some]
  · obtain ⟨name, hname, rfl⟩ := List.mem_map.1 hnew
    have hunknown : name ∉ (m.collections kind).map Collection.name := by
      simpa using (List.mem_filter.1 hname).2
    have hnone : m.collection? kind name = none := by
      simpa [collection?] using hunknown
    rw [collectionOrNew, Collection.empty, hnone, Option.getD_none, Collection.empty]

/-- The names of a kind after some declarations. -/
theorem Model.names_extendFrom {m : Model} {kind : Kind}
    (hm : ((m.collections kind).map Collection.name).Nodup) (source : Text)
    (ds : List Declaration) :
    ((extendFrom source none ds m).collections kind).map Collection.name =
      (m.collections kind).map Collection.name ++
        newNames ((m.collections kind).map Collection.name) kind ds := by
  rw [collections_extendFrom hm, List.map_map, List.map_append, List.map_map]
  simp [Function.comp_def, Collection.name_updated, Collection.empty]

/-- **What a source does to a model** whose names are distinct. -/
theorem Model.updatedBy_extend {m : Model}
    (hm : ∀ kind, ((m.collections kind).map Collection.name).Nodup) (s : Source) :
    m.UpdatedBy s (m.extend s) := by
  have hcollections (kind : Kind) := collections_extendFrom (hm kind) s.name s.declarations
  have hmember {kind : Kind} {c : Collection} (hc : c ∈ (m.extend s).collections kind) :
      c = (m.collectionOrNew kind c.name).receive s.name kind
        (attachedTo kind c.name s.declarations) := by
    rw [extend, hcollections] at hc
    obtain ⟨before, hbefore, rfl⟩ := List.mem_map.1 hc
    rw [Collection.name_updated, collectionOrNew_of_mem (hm kind) hbefore]
    rfl
  refine
    { names := fun kind => ?_
      kinds := fun kind c hc => ?_
      templates := fun kind c hc => ?_
      intentSlots := fun c hc => ?_
      entitySlots := fun c hc => ?_
      definitions := fun key => ?_
      invocationName := ?_
      language := ?_ }
  · exact names_extendFrom (hm kind) s.name s.declarations
  · exact (congrArg Collection.kind (hmember hc)).trans Collection.kind_receive
  · exact (congrArg Collection.templates (hmember hc)).trans Collection.templates_receive
  · exact (congrArg Collection.slots (hmember hc)).trans (Collection.slots_receive_intent ..)
  · exact (congrArg Collection.slots (hmember hc)).trans Collection.slots_receive_entity
  · exact extendFrom_last (fun m => m.vars.entries.lookup key) _ (lookup_effect key) ..
  · exact extendFrom_last Model.invocationName _ invocationName_effect ..
  · have hlanguage := extendFrom_last (fun m => some m.language) _ language_effect s.name none
      s.declarations m
    cases hlast : (s.declarations.filterMap fun d => d.line.language?).getLast? with
    | none =>
      rw [hlast] at hlanguage
      exact Option.some.inj hlanguage
    | some code =>
      rw [hlast] at hlanguage
      exact Option.some.inj hlanguage

/-- **What an accepted source means.** -/
theorem Model.updatedBy_of_load {limit : Nat} {m m' : Model} {text : Text} {source : Option Text}
    (hm : ∀ kind, ((m.collections kind).map Collection.name).Nodup)
    (h : (m.load limit text source).value = .ok m') :
    m.UpdatedBy ⟨text, source.getD unnamedSource⟩ m' := by
  obtain ⟨-, -, rfl⟩ := load_eq_ok_iff.1 h
  exact updatedBy_extend hm _

/-- An intent that is known and one that is opened twice, an entity of the
same name between, a slot that is known, one that is repeated, and variables
and languages on the way. -/
theorem Model.updatedBy_of_load_reopened :
    let order : Collection :=
      { name := "Order".toList
        kind := .intent
        latestFirst := [{ text := "a <size> tea".toList }]
        slots := [{ name := "size".toList, type := some "Cup".toList }] }
    let m : Model :=
      { intents := [order], vars := .ofList [("x".toList, "1".toList), ("y".toList, "2".toList)] }
    let text : Text := ['\n'].intercalate
      ["INTENT: Hello".toList, "hello\r".toList, "X = 3".toList, "ENTITY: Order".toList,
        "milk".toList, "intent: Order # again".toList, "SLOT: size ~ big".toList,
        "SLOT: n :Int".toList, "LANG: de".toList, "SLOT: n".toList, "<n>  teas".toList,
        "Entity:Order".toList, "x =".toList, "honey".toList, "INTENT: Hello".toList,
        "LANG: de-AT".toList, "hi".toList]
    ∃ m', (m.load 1000 text none).value = .ok m' ∧ m.UpdatedBy ⟨text, unnamedSource⟩ m' ∧
      m'.intents.map (fun c => (c.name, c.templates.map Template.text, c.slots)) =
        [("Order".toList, ["a <size> tea".toList, "<n> teas".toList],
            [{ name := "size".toList, type := some "Cup".toList },
              { name := "n".toList, type := some "Int".toList }]),
          ("Hello".toList, ["hello".toList, "hi".toList], [])] ∧
      m'.entities.map (fun c => (c.name, c.templates.map Template.text)) =
        [("Order".toList, ["milk".toList, "honey".toList])] ∧
      m'.vars.get? "X".toList = some [] ∧ m'.vars.get? "y".toList = some "2".toList ∧
      m'.language = "de-AT".toList := by
  intro order m text
  have hnames : ∀ kind, ((m.collections kind).map Collection.name).Nodup := by
    intro kind
    cases kind <;> decide
  have hsize : text.byteSize ≤ 1000 := by decide +kernel
  have herrors : Source.errors ⟨text, unnamedSource⟩ = [] := by decide +kernel
  have hload := m.load_of_errors_eq_nil none hsize herrors
  refine ⟨_, hload, updatedBy_of_load hnames hload, ?_⟩
  decide +kernel

end Utterance
