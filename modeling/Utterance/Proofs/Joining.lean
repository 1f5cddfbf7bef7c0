import Utterance.Proofs.Cleaning
import Utterance.Proofs.Declarations
import Mathlib.Data.List.Forall2

/-!
# Joining — one source instead of two

Two sources that are loaded one after the other can be joined with a line
feed between them. The cleaned lines of the whole are those of the parts,
whatever line ends the parts use (`Text.map_lines_join`). The second part
then begins where a collection of the first one is open, and not where none
is; but a source that is accepted by itself opens a collection before it
uses one, so it does not tell the difference (`Model.extendFrom_faultless`).
The model comes out the same but for the places of the templates
(`Model.load_join`).
-/

namespace Utterance

/-! ## Models with their templates changed -/

/-- The collection with each template changed. -/
def Collection.mapTemplates (f : Template → Template) (c : Collection) : Collection :=
  { c with latestFirst := c.latestFirst.map f }

theorem Collection.mapTemplates_declareSlot (f : Template → Template) (c : Collection)
    (slot : Slot) : (c.declareSlot slot).mapTemplates f = (c.mapTemplates f).declareSlot slot := by
  have hfound : (c.mapTemplates f).slot? slot.name = c.slot? slot.name := rfl
  unfold declareSlot
  rw [hfound]
  split
  · rfl
  · rfl

/-- A change at one place is seen through a map. -/
theorem map_modify_of_forall {α β : Type} {f : α → β} {g : α → α} {g' : β → β}
    (h : ∀ a, f (g a) = g' (f a)) (l : List α) (i : Nat) :
    (l.modify i g).map f = (l.map f).modify i g' := by
  refine List.ext_getElem? fun j => ?_
  rw [List.getElem?_map, List.getElem?_modify, List.getElem?_modify, List.getElem?_map]
  cases l[j]? with
  | none => rfl
  | some a =>
    by_cases hij : i = j
    · simp [hij, h]
    · simp [hij]

/-- Lists that are mapped to the same agree member by member. -/
theorem forall₂_of_map_eq {α β γ : Type} {f : α → γ} {g : β → γ} {as : List α} {bs : List β}
    (h : as.map f = bs.map g) : List.Forall₂ (fun a b => f a = g b) as bs := by
  rwa [← List.forall₂_eq_eq_eq, List.forall₂_map_left_iff, List.forall₂_map_right_iff] at h

namespace Model

/-- The model with each template changed. -/
def mapTemplates (f : Template → Template) (m : Model) : Model :=
  { m with
    intents := m.intents.map (Collection.mapTemplates f)
    entities := m.entities.map (Collection.mapTemplates f) }

variable (f : Template → Template)

theorem collections_mapTemplates (m : Model) (kind : Kind) :
    (m.mapTemplates f).collections kind = (m.collections kind).map (Collection.mapTemplates f) := by
  cases kind <;> rfl

theorem mapTemplates_withCollections (m : Model) (kind : Kind) (cs : List Collection) :
    (m.withCollections kind cs).mapTemplates f =
      (m.mapTemplates f).withCollections kind (cs.map (Collection.mapTemplates f)) := by
  cases kind <;> rfl

theorem mapTemplates_openCollection (m : Model) (kind : Kind) (name : Text) :
    (m.openCollection kind name).mapTemplates f = (m.mapTemplates f).openCollection kind name := by
  have hfound : ((m.mapTemplates f).collection? kind name).isSome =
      (m.collection? kind name).isSome := by
    rw [collection?, collections_mapTemplates, List.find?_map, Option.isSome_map]
    rfl
  unfold openCollection
  rw [hfound]
  split
  · rfl
  · rw [mapTemplates_withCollections, collections_mapTemplates, List.map_append]
    rfl

theorem mapTemplates_modifyCollection (m : Model) (kind : Kind) (name : Text)
    {change change' : Collection → Collection}
    (h : ∀ c, (change c).mapTemplates f = change' (c.mapTemplates f)) :
    (m.modifyCollection kind name change).mapTemplates f =
      (m.mapTemplates f).modifyCollection kind name change' := by
  have hposition : (m.mapTemplates f).position kind name = m.position kind name := by
    rw [position, collections_mapTemplates, List.findIdx_map]
    rfl
  rw [modifyCollection, mapTemplates_withCollections, map_modify_of_forall h, modifyCollection,
    hposition, collections_mapTemplates]

end Model

/-- **A line does the same with changed templates**, if its own template is
changed as well. -/
theorem Line.mapTemplates_effect (f : Template → Template) (template : Text → Template)
    (current : Option (Kind × Text)) (l : Line) (m : Model) :
    (l.effect template current m).mapTemplates f =
      l.effect (fun text => f (template text)) current (m.mapTemplates f) := by
  cases l with
  | invocation keyword name => rfl
  | language keyword code => rfl
  | opening kind keyword name => exact m.mapTemplates_openCollection f kind name.text
  | slot keyword name beforeType type beforeExample «example» =>
    rcases current with _ | ⟨_ | _, intent⟩
    · rfl
    · exact m.mapTemplates_modifyCollection f _ _ fun c => c.mapTemplates_declareSlot f _
    · rfl
  | definition name beforeSign text => rfl
  | sentence text =>
    rcases current with _ | ⟨kind, name⟩
    · rfl
    · exact m.mapTemplates_modifyCollection f _ _ fun c => by
        simp [Collection.mapTemplates, Collection.addTemplate]

/-- Declarations of the same lines do the same, if the templates that they
place are changed to the same. -/
theorem Model.mapTemplates_extendFrom {f : Template → Template} {source source' : Text}
    {current : Option (Kind × Text)} {ds es : List Declaration} {m m' : Model}
    (h : List.Forall₂ (fun d e : Declaration => d.line = e.line ∧ ∀ text,
      f (Template.placed source d.span text) = f (Template.placed source' e.span text)) ds es)
    (hm : m.mapTemplates f = m'.mapTemplates f) :
    (extendFrom source current ds m).mapTemplates f =
      (extendFrom source' current es m').mapTemplates f := by
  induction h generalizing current m m' with
  | nil => exact hm
  | cons hde _ ih =>
    obtain ⟨hline, hplaced⟩ := hde
    rw [extendFrom, extendFrom, hline]
    refine ih ?_
    rw [Line.mapTemplates_effect, Line.mapTemplates_effect, hm, funext hplaced]

/-! ## Models without places -/

/-- The template without its place. -/
def Template.unplaced (t : Template) : Template :=
  { text := t.text }

/-- The collection without the places of its templates. -/
def Collection.unplaced (c : Collection) : Collection :=
  c.mapTemplates Template.unplaced

namespace Model

/-- **The model without the places of its templates.** -/
def unplaced (m : Model) : Model :=
  m.mapTemplates Template.unplaced

theorem unplaced_withCollections (m : Model) (kind : Kind) (cs : List Collection) :
    (m.withCollections kind cs).unplaced =
      m.unplaced.withCollections kind (cs.map Collection.unplaced) :=
  mapTemplates_withCollections Template.unplaced m kind cs

/-- **What some declarations do to a model** does not depend on where they
stand. -/
theorem unplaced_extendFrom {source source' : Text} {current : Option (Kind × Text)}
    {ds es : List Declaration} {m m' : Model}
    (hlines : ds.map Declaration.line = es.map Declaration.line) (h : m.unplaced = m'.unplaced) :
    (extendFrom source current ds m).unplaced = (extendFrom source' current es m').unplaced :=
  mapTemplates_extendFrom (f := Template.unplaced)
    ((forall₂_of_map_eq hlines).imp fun _ _ hline => ⟨hline, fun _ => rfl⟩) h

end Model

/-! ## Sources that open what they use -/

namespace Line

variable {current : Option (Kind × Text)} {ls : List Line}

/-- A line without a fault where nothing is open has none elsewhere. -/
theorem fault?_eq_none {l : Line} (h : l.fault? none = none) (current : Option (Kind × Text)) :
    l.fault? current = none := by
  cases l with
  | slot keyword name beforeType type beforeExample «example» => simp [fault?] at h
  | sentence text => simp [fault?] at h
  | _ => rfl

theorem effect_eq_of_fault?_none {l : Line} (h : l.fault? none = none)
    (template : Text → Template) (current : Option (Kind × Text)) (m : Model) :
    l.effect template current m = l.effect template none m := by
  cases l with
  | slot keyword name beforeType type beforeExample «example» => simp [fault?] at h
  | sentence text => simp [fault?] at h
  | _ => rfl

/-- Lines that have no fault where nothing is open have none anywhere. -/
theorem Faultless.of_none (h : Faultless none ls) (current : Option (Kind × Text)) :
    Faultless current ls := by
  induction ls generalizing current with
  | nil => trivial
  | cons l ls ih =>
    obtain ⟨hl, hrest⟩ := h
    refine ⟨fault?_eq_none hl current, ?_⟩
    cases hopened : l.opened? with
    | none =>
      rw [hopened] at hrest
      exact ih hrest _
    | some opened =>
      rw [hopened] at hrest
      exact hrest

end Line

theorem Line.faultless_append {current : Option (Kind × Text)} {ds es : List Declaration} :
    Faultless current (ds.map Declaration.line ++ es.map Declaration.line) ↔
      Faultless current (ds.map Declaration.line) ∧
        Faultless (openAfter current ds) (es.map Declaration.line) := by
  induction ds generalizing current with
  | nil => simp [Faultless]
  | cons d ds ih => simp [Faultless, ih, openAfter_cons, and_assoc]

/-- **A source that opens what it uses** does the same whatever is open in
front of it. -/
theorem Model.extendFrom_faultless {source : Text} {ds : List Declaration}
    (h : Line.Faultless none (ds.map Declaration.line)) (current : Option (Kind × Text))
    (m : Model) : extendFrom source current ds m = extendFrom source none ds m := by
  induction ds generalizing current m with
  | nil => rfl
  | cons d ds ih =>
    obtain ⟨hd, hrest⟩ := h
    rw [extendFrom, extendFrom, Line.effect_eq_of_fault?_none hd]
    cases hopened : d.line.opened? with
    | none =>
      rw [hopened] at hrest
      exact ih hrest _ _
    | some opened => rfl

/-! ## The seam -/

namespace Text

/-- A carriage return at the end of a text belongs to the line end once a
line feed follows. -/
theorem unixLineEnds_join (a b : Text) :
    ∃ a', (a ++ '\n' :: b).unixLineEnds = a' ++ '\n' :: b.unixLineEnds ∧
      (a.unixLineEnds = a' ∨ a.unixLineEnds = a' ++ ['\r']) := by
  induction a with
  | nil => exact ⟨[], by simp [unixLineEnds_cons], .inl rfl⟩
  | cons c a ih =>
    obtain ⟨a', hjoin, ha'⟩ := ih
    cases a with
    | nil =>
      by_cases hc : c = '\r'
      · exact ⟨[], by simp [unixLineEnds_cons, hc], .inr (by simp [unixLineEnds_cons, hc])⟩
      · exact ⟨[c], by simp [unixLineEnds_cons, hc], .inl (by simp [unixLineEnds_cons])⟩
    | cons d a =>
      -- whether the return goes is told by the character behind it
      by_cases hc : c = '\r' ∧ d = '\n'
      · refine ⟨a', ?_, ?_⟩
        · rw [List.cons_append, unixLineEnds_cons, if_pos (by simpa using hc), hjoin]
        · rwa [unixLineEnds_cons, if_pos (by simpa using hc)]
      · refine ⟨c :: a', ?_, ?_⟩
        · rw [List.cons_append, unixLineEnds_cons, if_neg (by simpa using hc), hjoin,
            List.cons_append]
        · rw [unixLineEnds_cons, if_neg (by simpa using hc)]
          exact ha'.imp (congrArg _) (congrArg _)

/-- A carriage return at the end of a text stands at the end of its last
line. -/
theorem lines_append_return (s : Text) :
    ∃ before last, s.lines = before ++ [last] ∧
      (s ++ ['\r']).lines = before ++ [last ++ ['\r']] := by
  induction s with
  | nil => exact ⟨[], [], rfl, rfl⟩
  | cons c s ih =>
    obtain ⟨before, last, hlines, happend⟩ := ih
    rw [lines] at hlines happend
    rw [List.cons_append, lines, lines, List.splitOn_cons_eq_if_modifyHead,
      List.splitOn_cons_eq_if_modifyHead, hlines, happend]
    by_cases hc : c = '\n'
    · exact ⟨[] :: before, last, by simp [hc], by simp [hc]⟩
    · cases before with
      | nil => exact ⟨[], c :: last, by simp [hc], by simp [hc]⟩
      | cons line before => exact ⟨(c :: line) :: before, last, by simp [hc], by simp [hc]⟩

/-- **The lines of two texts with a line feed between them** are those of the
first one and then those of the second, for what makes nothing of a carriage
return at the end of a line. -/
theorem map_lines_join {β : Type} {f : Text → β} (hf : ∀ s, f (s ++ ['\r']) = f s) (a b : Text) :
    (a ++ '\n' :: b).unixLineEnds.lines.map f =
      a.unixLineEnds.lines.map f ++ b.unixLineEnds.lines.map f := by
  have hreturn (s : Text) : (s ++ ['\r']).lines.map f = s.lines.map f := by
    obtain ⟨before, last, hlines, happend⟩ := lines_append_return s
    rw [hlines, happend, List.map_append, List.map_append, List.map_singleton,
      List.map_singleton, hf]
  obtain ⟨a', hjoin, ha'⟩ := unixLineEnds_join a b
  have hseam : (a' ++ '\n' :: b.unixLineEnds).lines = a'.lines ++ b.unixLineEnds.lines :=
    List.splitOn_append_cons_self ..
  rw [hjoin, hseam, List.map_append]
  rcases ha' with ha' | ha'
  · rw [ha']
  · rw [ha', hreturn]

theorem cleanedLines_join (a b : Text) :
    (a ++ '\n' :: b).cleanedLines = a.cleanedLines ++ b.cleanedLines :=
  map_lines_join (Line.clean_append_blank (by decide)) a b

end Text

theorem Line.parsed_append (cs ds : List Text) : parsed (cs ++ ds) = parsed cs ++ parsed ds :=
  List.filterMap_append

/-- **Loading two sources one after the other is loading them joined.** If
both loads succeed and the joined text is not too large, it loads too, under
whatever name, and leaves the same model but for the places of the
templates. -/
theorem Model.load_join {limit : Nat} {m first second : Model} {a b : Text}
    {sourceA sourceB : Option Text}
    (ha : (m.load limit a sourceA).value = .ok first)
    (hb : (first.load limit b sourceB).value = .ok second)
    (hsize : (a ++ '\n' :: b).byteSize ≤ limit) (source : Option Text) :
    ∃ joined, (m.load limit (a ++ '\n' :: b) source).value = .ok joined ∧
      joined.unplaced = second.unplaced := by
  obtain ⟨-, ⟨hparseA, hfaultlessA⟩, rfl⟩ := load_eq_ok_iff.1 ha
  obtain ⟨-, ⟨hparseB, hfaultlessB⟩, rfl⟩ := load_eq_ok_iff.1 hb
  let A : Source := ⟨a, sourceA.getD unnamedSource⟩
  let B : Source := ⟨b, sourceB.getD unnamedSource⟩
  let whole : Source := ⟨a ++ '\n' :: b, source.getD unnamedSource⟩
  have hlinesA : A.declarations.map Declaration.line = Line.parsed a.cleanedLines :=
    A.map_line_declarations
  have hlinesB : B.declarations.map Declaration.line = Line.parsed b.cleanedLines :=
    B.map_line_declarations
  have hlines : whole.declarations.map Declaration.line =
      (A.declarations ++ B.declarations).map Declaration.line := by
    rw [Source.map_line_declarations, Text.cleanedLines_join, Line.parsed_append, List.map_append,
      hlinesA, hlinesB]
  rw [← hlinesA] at hfaultlessA
  rw [← hlinesB] at hfaultlessB
  refine ⟨m.extend whole, load_eq_ok_iff.2 ⟨hsize, ⟨?_, ?_⟩, rfl⟩, ?_⟩
  · intro t ht
    rw [Text.cleanedLines_join] at ht
    exact (List.mem_append.1 ht).elim (hparseA t) (hparseB t)
  · rw [Text.cleanedLines_join, Line.parsed_append, ← hlinesA, ← hlinesB, Line.faultless_append]
    exact ⟨hfaultlessA, hfaultlessB.of_none _⟩
  · calc (m.extend whole).unplaced
        = (extendFrom A.name none (A.declarations ++ B.declarations) m).unplaced :=
          unplaced_extendFrom hlines rfl
      _ = (extendFrom A.name none B.declarations (m.extend A)).unplaced := by
          rw [extendFrom_append, extendFrom_faultless hfaultlessB]
          rfl
      _ = ((m.extend A).extend B).unplaced := unplaced_extendFrom rfl rfl

/-- A first text that ends in a carriage return while an intent is open, and
a second one that defines its variable anew, opens an entity of the same name
and then the intent again, and declares its slot once more. -/
theorem Model.load_join_reopened :
    let a : Text := ['\n'].intercalate
      ["X = 1\r".toList, "INTENT: Order\r".toList, "SLOT: n ~ two".toList, "<n> teas\r".toList]
    let b : Text := ['\n'].intercalate
      ["x = 2".toList, "ENTITY: Order\r".toList, "milk".toList, "\rIntent:  Order".toList,
        "SLOT: n :Int".toList, "$x teas # now".toList]
    ∃ first second, (({} : Model).load 200 a none).value = .ok first ∧
      (first.load 200 b none).value = .ok second ∧
      ∃ joined, (({} : Model).load 200 (a ++ '\n' :: b) none).value = .ok joined ∧
        joined.unplaced = second.unplaced ∧
        joined.unplaced.intents =
          [{ name := "Order".toList
             kind := .intent
             latestFirst := [{ text := "$x teas".toList }, { text := "<n> teas".toList }]
             slots := [{ name := "n".toList, «example» := some "two".toList }] }] := by
  intro a b
  have hsizeA : a.byteSize ≤ 200 := by decide +kernel
  have hsizeB : b.byteSize ≤ 200 := by decide +kernel
  have hsize : (a ++ '\n' :: b).byteSize ≤ 200 := by decide +kernel
  have herrorsA : Source.errors ⟨a, unnamedSource⟩ = [] := by decide +kernel
  have herrorsB : Source.errors ⟨b, unnamedSource⟩ = [] := by decide +kernel
  have ha := ({} : Model).load_of_errors_eq_nil none hsizeA herrorsA
  have hb := (({} : Model).extend ⟨a, unnamedSource⟩).load_of_errors_eq_nil none hsizeB herrorsB
  obtain ⟨joined, hjoined, hsame⟩ := load_join ha hb hsize none
  refine ⟨_, _, ha, hb, joined, hjoined, hsame, ?_⟩
  rw [hsame]
  decide +kernel

end Utterance
