import Utterance.Export.Writing
import Utterance.Proofs.Bytes
import Utterance.Proofs.Compiling
import Mathlib.Data.List.Perm.Basic

/-!
# Sorting — a compiled form that no order of declarations changes

Each template of a collection is expanded by itself, so that templates in
another order yield the same sentences and reports in another order, and
sorting undoes what differs: two texts that stand each before the other are
one text, and the names of a kind are distinct. Models that declare the same
in another order therefore compile to the same in sorted order, but for the
order of the reports (`Model.Rearranged.compilesTo`). What sorting does to
any model is to rearrange what is compiled without it
(`Model.compilesTo_ascending_iff`), and the order of the result is that of
the encodings.
-/

namespace Utterance

/-! ## Arranged lists -/

namespace Order

variable {α β : Type} {key : α → Text} {key' : β → Text}

/-- Items that are mapped to others of the same keys keep their places. -/
theorem arrange_map (order : Order) (key' : β → Text) (f : α → β) {items : List α}
    (hkey : ∀ a ∈ items, key a = key' (f a)) :
    order.arrange key' (items.map f) = (order.arrange key items).map f := by
  cases order with
  | found => rfl
  | ascending =>
    exact (List.map_mergeSort fun a ha b hb => by rw [hkey a ha, hkey b hb]).symm

/-- Sorted items ascend by their encodings. -/
theorem pairwise_arrange (key : α → Text) (items : List α) :
    (ascending.arrange key items).Pairwise fun a b => (key a).BytesAscend (key b) := by
  refine List.Pairwise.imp (fun {a b} h => ?_) (List.pairwise_mergeSort ?_ ?_ items)
  · exact (Text.ascending_eq_bytes _ _).symm.trans h
  · exact fun a b c => Text.ascending_trans
  · exact fun a b => Text.ascending_total _ _

/-- **Sorting forgets the order it is given**, where the key tells the
members apart. -/
theorem arrange_eq_of_perm {items items' : List α} (h : items.Perm items')
    (hkey : ∀ a ∈ items, ∀ b ∈ items, key a = key b → a = b) :
    ascending.arrange key items = ascending.arrange key items' := by
  have hperm := arrange_perm key ascending items
  refine List.Perm.eq_of_pairwise ?_
    (pairwise_arrange key items) (pairwise_arrange key items')
    (hperm.trans (h.trans (arrange_perm key ascending items').symm))
  intro a b ha hb hab hba
  have ha' : a ∈ items := hperm.mem_iff.1 ha
  have hb' : b ∈ items := h.mem_iff.2 ((arrange_perm key ascending items').mem_iff.1 hb)
  refine hkey a ha' b hb' (Text.ascending_antisymm ?_ ?_)
  · exact (Text.ascending_eq_bytes _ _).trans hab
  · exact (Text.ascending_eq_bytes _ _).trans hba

/-- Items that are related one by one, and have the same keys, are so in every
order. -/
theorem forall₂_arrange (order : Order) {R : α → β → Prop} {items : List α} {items' : List β}
    (hkey : ∀ a b, R a b → key a = key' b) (h : List.Forall₂ R items items') :
    List.Forall₂ R (order.arrange key items) (order.arrange key' items') := by
  obtain ⟨hlength, hall⟩ := List.forall₂_iff_zip.1 h
  -- both lists are read off the same list of pairs, sorted by one key
  have hfirst : order.arrange key items =
      (order.arrange (fun p => key p.1) (items.zip items')).map Prod.fst := by
    rw [← order.arrange_map key Prod.fst fun _ _ => rfl,
      List.map_fst_zip (Nat.le_of_eq hlength)]
  have hsecond : order.arrange key' items' =
      (order.arrange (fun p => key p.1) (items.zip items')).map Prod.snd := by
    rw [← order.arrange_map key' Prod.snd fun p hp => hkey _ _ (hall hp),
      List.map_snd_zip (Nat.le_of_eq hlength.symm)]
  rw [hfirst, hsecond, List.forall₂_map_left_iff, List.forall₂_map_right_iff, List.forall₂_same]
  rintro ⟨a, b⟩ hab
  exact hall ((order.arrange_perm _ _).mem_iff.1 hab)

end Order

/-! ## Lists that are related one by one -/

section Forall₂

variable {α β γ δ : Type} {as : List α} {bs : List β} {cs : List γ}

theorem map_eq_of_forall₂ {f : α → γ} {g : β → γ}
    (h : List.Forall₂ (fun a b => f a = g b) as bs) : as.map f = bs.map g := by
  rwa [← List.forall₂_eq_eq_eq, List.forall₂_map_left_iff, List.forall₂_map_right_iff]

theorem flatMap_eq_of_forall₂ {f : α → List γ} {g : β → List γ}
    (h : List.Forall₂ (fun a b => f a = g b) as bs) : as.flatMap f = bs.flatMap g := by
  rw [List.flatMap_def, List.flatMap_def, map_eq_of_forall₂ h]

theorem mapM_eq_of_forall₂ {n : Type → Type} [Monad n] {f : α → n γ} {g : β → n γ}
    (h : List.Forall₂ (fun a b => f a = g b) as bs) : as.mapM f = bs.mapM g := by
  suffices ∀ done, List.mapM.loop f as done = List.mapM.loop g bs done from this []
  induction h with
  | nil => exact fun _ => rfl
  | cons hab _ ih => simp only [List.mapM.loop, hab, ih, implies_true]

/-- What can be found for each member can be found for the list. -/
theorem exists_forall₂ {R : α → β → Prop} {S : α → γ → Prop} {Q : γ → δ → Prop}
    {T : β → δ → Prop} (hfind : ∀ a b c, R a b → S a c → ∃ d, Q c d ∧ T b d)
    (hR : List.Forall₂ R as bs) (hS : List.Forall₂ S as cs) :
    ∃ ds, List.Forall₂ Q cs ds ∧ List.Forall₂ T bs ds := by
  induction hR generalizing cs with
  | nil =>
    obtain rfl : cs = [] := List.forall₂_nil_left_iff.1 hS
    exact ⟨[], .nil, .nil⟩
  | cons hab _ ih =>
    obtain ⟨c, rest, hac, hrest, rfl⟩ := List.forall₂_cons_left_iff.1 hS
    obtain ⟨d, hcd, hbd⟩ := hfind _ _ _ hab hac
    obtain ⟨ds, hcs, hbs⟩ := ih hrest
    exact ⟨d :: ds, .cons hcd hcs, .cons hbd hbs⟩

end Forall₂

/-! ## Tables of variables that answer alike -/

section Variables

variable {vars vars' : Variables} {slots : Option (List Slot)} {collection : Option Text}

/-- What a visit leaves is told by what the table answers. -/
theorem Visit.next_congr (h : ∀ name, vars.get? name = vars'.get? name) (visit : Visit) :
    visit.next vars = visit.next vars' := by
  unfold next
  cases visit.shape <;> simp [Shape.successors, h]

theorem Visit.findings_congr (h : ∀ name, vars.get? name = vars'.get? name) (visit : Visit) :
    visit.findings vars slots = visit.findings vars' slots := by
  unfold findings
  cases visit.shape <;> simp [h]

theorem Worklist.run_congr (h : ∀ name, vars.get? name = vars'.get? name) (fuel : Nat)
    (stack : List Text) (visited : List Visit) :
    run vars fuel stack visited = run vars' fuel stack visited := by
  induction fuel generalizing stack visited with
  | zero => cases stack <;> rfl
  | succ fuel ih =>
    cases stack with
    | nil => simp
    | cons fragment stack => rw [run_cons, run_cons, Visit.next_congr h, ih]

/-- **A template expands alike** under tables that answer alike. -/
theorem Template.ExpandsTo.congr {template : Template} {run : Run}
    (h : ∀ name, vars.get? name = vars'.get? name)
    (hrun : template.ExpandsTo vars slots collection run) :
    ∃ run', template.ExpandsTo vars' slots collection run' ∧
      run.sentences = run'.sentences ∧ run.diagnostics = run'.diagnostics := by
  obtain ⟨fuel, hof⟩ := hrun
  obtain ⟨visits, hvisits, rfl⟩ := Option.map_eq_some_iff.1 hof
  have hvisits' : Worklist.visits vars' fuel template.text = some visits :=
    (Worklist.run_congr h ..).symm.trans hvisits
  refine ⟨_, ⟨fuel, Option.map_eq_some_iff.2 ⟨visits, hvisits', rfl⟩⟩, rfl, ?_⟩
  have hfindings : visits.flatMap (Visit.findings vars slots) =
      visits.flatMap (Visit.findings vars' slots) :=
    List.flatMap_congr fun visit _ => Visit.findings_congr h visit
  rw [Run.diagnostics_eq, Run.diagnostics_eq]
  exact congrArg (fun found => (List.eraseDups found).map _) hfindings

end Variables

/-! ## Declarations in another order -/

/-- A collection with its templates in another order. -/
structure Collection.Rearranged (c d : Collection) : Prop where
  name : c.name = d.name
  kind : c.kind = d.kind
  slots : c.slots = d.slots
  templates : c.templates.Perm d.templates

/-- **A model that declares the same in another order**: the same header, the
same answers for all variables, and for each kind the same collections in
another order, each with its templates in another order. -/
structure Model.Rearranged (m m' : Model) : Prop where
  invocationName : m.invocationName = m'.invocationName
  language : m.language = m'.language
  vars : ∀ name, m.vars.get? name = m'.vars.get? name
  collections : ∀ kind, ∃ cs, cs.Perm (m.collections kind) ∧
    List.Forall₂ Collection.Rearranged cs (m'.collections kind)

/-- Expanded collections that differ in the order of their reports only. -/
structure Expanded.Alike (e e' : Expanded) : Prop where
  name : e.name = e'.name
  kind : e.kind = e'.kind
  slots : e.slots = e'.slots
  sentences : e.sentences = e'.sentences
  diagnostics : e.diagnostics.Perm e'.diagnostics

/-- Compiled models that differ in the order of the reports of a collection
only. -/
structure Compiled.Alike (compiled compiled' : Compiled) : Prop where
  invocationName : compiled.invocationName = compiled'.invocationName
  language : compiled.language = compiled'.language
  collections : ∀ kind, List.Forall₂ Expanded.Alike (compiled.ofKind kind) (compiled'.ofKind kind)

variable {vars vars' : Variables} {c d : Collection} {e e' : Expanded} {m m' : Model}
  {compiled compiled' : Compiled}

/-- **A collection with its templates in another order** expands to the same,
once it is sorted, and reports the same in another order. -/
theorem Collection.Rearranged.expandsTo (h : c.Rearranged d)
    (hvars : ∀ name, vars.get? name = vars'.get? name) (he : c.ExpandsTo vars .ascending e) :
    ∃ e', d.ExpandsTo vars' .ascending e' ∧ e.Alike e' := by
  obtain ⟨runs, hruns, rfl⟩ := expandsTo_iff.1 he
  have htable : c.slotTable? = d.slotTable? := by
    rw [slotTable?, slotTable?, h.kind, h.slots]
  -- the runs in the order of the other templates, and then under the other table
  obtain ⟨moved, hmoved, hperm⟩ := List.perm_comp_forall₂ h.templates.symm hruns
  obtain ⟨runs', hruns', hsame⟩ := exists_forall₂
    (S := Eq) (Q := fun template run => template.ExpandsTo vars' d.slotTable? (some d.name) run)
    (T := fun run run' => run.sentences = run'.sentences ∧ run.diagnostics = run'.diagnostics)
    (fun template run other hrun hother => by
      subst hother
      rw [← htable, ← h.name]
      exact hrun.congr hvars)
    hmoved (List.forall₂_refl d.templates)
  have hsentences : moved.flatMap Run.sentences = runs'.flatMap Run.sentences :=
    flatMap_eq_of_forall₂ (hsame.imp fun _ _ => And.left)
  have hdiagnostics : moved.flatMap Run.diagnostics = runs'.flatMap Run.diagnostics :=
    flatMap_eq_of_forall₂ (hsame.imp fun _ _ => And.right)
  have hyield : (runs.flatMap Run.sentences).Perm (runs'.flatMap Run.sentences) :=
    hsentences ▸ hperm.symm.flatMap_right _
  have hreport : (runs.flatMap Run.diagnostics).Perm (runs'.flatMap Run.diagnostics) :=
    hdiagnostics ▸ hperm.symm.flatMap_right _
  exact ⟨_, expandsTo_iff.2 ⟨runs', hruns', rfl⟩, h.name, h.kind, h.slots,
    Order.arrange_eq_of_perm hyield fun _ _ _ _ => id, hreport⟩

/-- The names of the collections of a kind are the names of their expansions. -/
theorem map_name_of_expandsTo {order : Order} {cs : List Collection} {es : List Expanded}
    (h : List.Forall₂ (fun c e => c.ExpandsTo vars order e) cs es) :
    cs.map Collection.name = es.map Expanded.name := by
  refine map_eq_of_forall₂ (h.imp fun c e he => ?_)
  obtain ⟨runs, -, rfl⟩ := Collection.expandsTo_iff.1 he
  rfl

/-- **Models that declare the same in another order compile to the same**, in
sorted order and but for the order of the reports of a collection. -/
theorem Model.Rearranged.compilesTo (h : m.Rearranged m') (hm : m.NamesDistinct)
    (hc : m.CompilesTo .ascending compiled) :
    ∃ compiled', m'.CompilesTo .ascending compiled' ∧ compiled.Alike compiled' := by
  obtain ⟨es, hes, rfl⟩ := compilesTo_iff.1 hc
  have hother (kind : Kind) : ∃ es',
      List.Forall₂ (fun c e => c.ExpandsTo m'.vars .ascending e) (m'.collections kind) es' ∧
      List.Forall₂ Expanded.Alike (Order.ascending.arrange Expanded.name (es kind))
        (Order.ascending.arrange Expanded.name es') := by
    obtain ⟨cs, hperm, hcs⟩ := h.collections kind
    obtain ⟨moved, hmoved, hpermutes⟩ := List.perm_comp_forall₂ hperm (hes kind)
    obtain ⟨es', hes', halike⟩ := exists_forall₂
      (fun c e d he hrearranged => hrearranged.expandsTo h.vars he) hmoved hcs
    have hdistinct : ((es kind).map Expanded.name).Nodup := by
      rw [← map_name_of_expandsTo (hes kind)]
      exact hm kind
    refine ⟨es', hes', ?_⟩
    rw [Order.arrange_eq_of_perm hpermutes.symm
      fun a ha b hb => List.inj_on_of_nodup_map hdistinct ha hb]
    exact Order.forall₂_arrange _ (fun _ _ => Expanded.Alike.name) halike
  choose es' hes' halike using hother
  refine ⟨_, compilesTo_iff.2 ⟨es', hes', rfl⟩, h.invocationName, h.language, fun kind => ?_⟩
  rw [ofKind_gather, ofKind_gather]
  exact halike kind

/-! ## Documents -/

/-- What is written of a collection is the same for collections that are
alike. -/
theorem Export.writeAll_congr {n : Type → Type} [Monad n] [FileAccess n] (folder : Text)
    (es es' : List Expanded) {write : Expanded → Action n (List Text)}
    (hwrite : ∀ e e', e.Alike e' → write e = write e') (h : List.Forall₂ Expanded.Alike es es') :
    writeAll folder es write = writeAll folder es' write := by
  have hempty : es.isEmpty = es'.isEmpty := by cases h <;> rfl
  have hmap : es.mapM write = es'.mapM write := mapM_eq_of_forall₂ (h.imp hwrite)
  rw [writeAll, writeAll, hempty, hmap]

namespace Compiled.Alike

/-- **The interaction models are the same.** -/
theorem ofCompiled (h : compiled.Alike compiled') :
    Alexa.ofCompiled compiled = Alexa.ofCompiled compiled' := by
  have hintents : compiled.intents.map Alexa.intentEntry =
      compiled'.intents.map Alexa.intentEntry :=
    map_eq_of_forall₂ ((h.collections .intent).imp fun e e' he => by
      rw [Alexa.intentEntry, Alexa.intentEntry, he.name, he.slots, he.sentences])
  have hentities : compiled.entities.map Alexa.typeEntry =
      compiled'.entities.map Alexa.typeEntry :=
    map_eq_of_forall₂ ((h.collections .entity).imp fun e e' he => by
      rw [Alexa.typeEntry, Alexa.typeEntry, he.name, he.sentences])
  rw [Alexa.ofCompiled, Alexa.ofCompiled, hintents, hentities, h.invocationName]

variable {n : Type → Type} [Monad n] [FileAccess n]

theorem writeAlexa (h : compiled.Alike compiled') (folder : Text) :
    (Export.writeAlexa compiled folder : Action n Text) = Export.writeAlexa compiled' folder := by
  rw [Export.writeAlexa, Export.writeAlexa, h.ofCompiled, h.language]

/-- **The agents are the same**, file by file. -/
theorem writeDialogflow (h : compiled.Alike compiled') (folder : Text) :
    (Export.writeDialogflow compiled folder : Action n (List Text)) =
      Export.writeDialogflow compiled' folder := by
  have hlanguage : compiled.shortLanguage = compiled'.shortLanguage := by
    rw [shortLanguage, shortLanguage, h.language]
  have hintents := h.collections .intent
  have hentities := h.collections .entity
  simp only [Export.writeDialogflow, hlanguage]
  rw [Export.writeAll_congr _ compiled.intents compiled'.intents ?_ hintents,
    Export.writeAll_congr _ compiled.entities compiled'.entities ?_ hentities]
  · intro e e' he
    rw [Dialogflow.entityJson, Dialogflow.entriesJson, he.name, he.sentences]
    rfl
  · intro e e' he
    rw [Dialogflow.intentDefinition, Dialogflow.userSays, he.name, he.slots, he.sentences]
    rfl

end Compiled.Alike

/-! ## What sorting does -/

/-- An expanded collection with its sentences sorted. -/
def Expanded.sorted (e : Expanded) : Expanded :=
  { e with sentences := Order.ascending.arrange id e.sentences }

/-- **Sorting rearranges the sentences of a collection**: none is lost and none
is merged, they ascend byte by byte, and nothing else changes. -/
structure Expanded.SortedAs (e e' : Expanded) : Prop where
  name : e.name = e'.name
  kind : e.kind = e'.kind
  slots : e.slots = e'.slots
  diagnostics : e.diagnostics = e'.diagnostics
  sentences : e.sentences.Perm e'.sentences
  ascend : e'.sentences.Pairwise Text.BytesAscend

/-- **Sorting rearranges the collections of each kind**, so that their names
ascend, and the sentences of each collection. -/
structure Compiled.SortedAs (found sorted : Compiled) : Prop where
  invocationName : found.invocationName = sorted.invocationName
  language : found.language = sorted.language
  collections : ∀ kind, ∃ es, List.Forall₂ Expanded.SortedAs (found.ofKind kind) es ∧
    es.Perm (sorted.ofKind kind)
  ascend : ∀ kind, (sorted.ofKind kind).Pairwise fun e e' => e.name.BytesAscend e'.name

theorem Expanded.sortedAs_sorted (e : Expanded) : e.SortedAs e.sorted where
  name := rfl
  kind := rfl
  slots := rfl
  diagnostics := rfl
  sentences := (Order.arrange_perm id .ascending e.sentences).symm
  ascend := Order.pairwise_arrange id e.sentences

theorem Collection.expandsTo_ascending_iff :
    c.ExpandsTo vars .ascending e' ↔ ∃ e, c.ExpandsTo vars .found e ∧ e' = e.sorted := by
  simp only [expandsTo_iff]
  constructor
  · rintro ⟨runs, hruns, rfl⟩
    exact ⟨_, ⟨runs, hruns, rfl⟩, rfl⟩
  · rintro ⟨_, ⟨runs, hruns, rfl⟩, rfl⟩
    exact ⟨runs, hruns, rfl⟩

theorem forall₂_expandsTo_ascending_iff {cs : List Collection} {es' : List Expanded} :
    List.Forall₂ (fun c e => c.ExpandsTo vars .ascending e) cs es' ↔
      ∃ es, List.Forall₂ (fun c e => c.ExpandsTo vars .found e) cs es ∧
        es' = es.map Expanded.sorted := by
  constructor
  · intro h
    induction h with
    | nil => exact ⟨[], .nil, rfl⟩
    | cons he _ ih =>
      obtain ⟨e, hfound, rfl⟩ := Collection.expandsTo_ascending_iff.1 he
      obtain ⟨es, hall, rfl⟩ := ih
      exact ⟨e :: es, .cons hfound hall, rfl⟩
  · rintro ⟨es, hall, rfl⟩
    rw [List.forall₂_map_right_iff]
    exact hall.imp fun _ e he => Collection.expandsTo_ascending_iff.2 ⟨e, he, rfl⟩

/-- **Compiling in sorted order is sorting what is compiled without it.** -/
theorem Model.compilesTo_ascending_iff {sorted : Compiled} :
    m.CompilesTo .ascending sorted ↔ ∃ es : Kind → List Expanded,
      m.CompilesTo .found (m.gather .found es) ∧
        sorted = m.gather .ascending fun kind => (es kind).map Expanded.sorted := by
  constructor
  · intro h
    obtain ⟨es', hes', rfl⟩ := compilesTo_iff.1 h
    choose es hes hsorted using fun kind => forall₂_expandsTo_ascending_iff.1 (hes' kind)
    exact ⟨es, compilesTo_iff.2 ⟨es, hes, rfl⟩, by rw [funext hsorted]⟩
  · rintro ⟨es, hfound, rfl⟩
    obtain ⟨es₀, hes, hgather⟩ := compilesTo_iff.1 hfound
    obtain rfl : es = es₀ := funext fun kind => by
      simpa [Order.arrange] using congrArg (Compiled.ofKind · kind) hgather
    exact compilesTo_iff.2
      ⟨_, fun kind => forall₂_expandsTo_ascending_iff.2 ⟨es kind, hes kind, rfl⟩, rfl⟩

theorem Model.sortedAs_gather (m : Model) (es : Kind → List Expanded) :
    (m.gather .found es).SortedAs
      (m.gather .ascending fun kind => (es kind).map Expanded.sorted) where
  invocationName := rfl
  language := rfl
  collections kind := by
    refine ⟨(es kind).map Expanded.sorted, ?_, ?_⟩
    · rw [ofKind_gather, Order.arrange, List.forall₂_map_right_iff, List.forall₂_same]
      exact fun e _ => e.sortedAs_sorted
    · rw [ofKind_gather]
      exact (Order.arrange_perm ..).symm
  ascend kind := by
    rw [ofKind_gather]
    exact Order.pairwise_arrange Expanded.name _

/-- **Sorted compilation is a canonical form.** Take two models that declare
the same in another order, with names distinct within each kind. If the one
compiles in sorted order, then so does the other, to the same collections in
the same order with the same slots and sentences, and to the same reports for
each collection up to their order; and the documents of both exports are the
same. For every model, compiling in sorted order ends if compiling without it
does, and then only rearranges: the collections of each kind so that their
names ascend, and the sentences of each collection so that they ascend byte by
byte, with all slots and reports as they were. -/
theorem Model.sorted_compilation_is_canonical :
    (∀ (m m' : Model) (compiled : Compiled), m.NamesDistinct → m.Rearranged m' →
      m.CompilesTo .ascending compiled →
      (∃ compiled', m'.CompilesTo .ascending compiled') ∧
      ∀ compiled', m'.CompilesTo .ascending compiled' →
        compiled.Alike compiled' ∧
        Alexa.ofCompiled compiled = Alexa.ofCompiled compiled' ∧
        ∀ (n : Type → Type) [Monad n] [FileAccess n] (folder : Text),
          (Export.writeAlexa compiled folder : Action n Text) =
            Export.writeAlexa compiled' folder ∧
          (Export.writeDialogflow compiled folder : Action n (List Text)) =
            Export.writeDialogflow compiled' folder) ∧
    ∀ m : Model,
      ((∃ found, m.CompilesTo .found found) ↔ ∃ sorted, m.CompilesTo .ascending sorted) ∧
      ∀ found sorted, m.CompilesTo .found found → m.CompilesTo .ascending sorted →
        found.SortedAs sorted := by
  constructor
  · intro m m' compiled hm h hc
    obtain ⟨compiled', hc', halike⟩ := h.compilesTo hm hc
    refine ⟨⟨compiled', hc'⟩, fun other hother => ?_⟩
    obtain rfl := hc'.unique hother
    exact ⟨halike, halike.ofCompiled, fun n _ _ folder =>
      ⟨halike.writeAlexa folder, halike.writeDialogflow folder⟩⟩
  · intro m
    refine ⟨⟨?_, ?_⟩, fun found sorted hfound hsorted => ?_⟩
    · rintro ⟨found, hfound⟩
      obtain ⟨es, -, rfl⟩ := compilesTo_iff.1 hfound
      exact ⟨_, compilesTo_ascending_iff.2 ⟨es, hfound, rfl⟩⟩
    · rintro ⟨sorted, hsorted⟩
      obtain ⟨es, hfound, -⟩ := compilesTo_ascending_iff.1 hsorted
      exact ⟨_, hfound⟩
    · obtain ⟨es, hes, rfl⟩ := compilesTo_ascending_iff.1 hsorted
      rw [hfound.unique hes]
      exact m.sortedAs_gather es

/-- Two intents that are listed the other way round, one of them with its
templates the other way round, with a variable that is not defined, a slot
that is not declared and a sentence that comes twice. -/
theorem Model.sorted_compilation_is_canonical_reversed :
    let template (line : Nat) (text : String) : Template :=
      Template.placed "s".toList ⟨10 * line, 10 * line + 9, line, 1⟩ text.toList
    let zoo (templates : List Template) : Collection :=
      { name := "Zoo".toList, kind := .intent, latestFirst := templates }
    let ape : Collection :=
      { name := "Ape".toList, kind := .intent, latestFirst := [template 3 "b|$gone|a|b"] }
    let vars := Variables.ofList [("a".toList, "x|y".toList)]
    let m : Model := { vars, intents := [zoo [template 2 "<t>", template 1 "$a <s>"], ape] }
    let m' : Model := { vars, intents := [ape, zoo [template 1 "$a <s>", template 2 "<t>"]] }
    m.NamesDistinct ∧ m.Rearranged m' ∧ ∃ found sorted sorted',
      m.CompilesTo .found found ∧ m.CompilesTo .ascending sorted ∧
      m'.CompilesTo .ascending sorted' ∧ sorted.Alike sorted' ∧ found.SortedAs sorted ∧
      found.intents.map Expanded.sentences =
        [["y <s>".toList, "x <s>".toList, "<t>".toList],
          ["b".toList, "a".toList, "b".toList]] := by
  intro template zoo ape vars m m'
  obtain ⟨hcanonical, hsorting⟩ := sorted_compilation_is_canonical
  have hnames : m.NamesDistinct := by
    intro kind
    cases kind <;> decide
  have hmoved : m.Rearranged m' := by
    refine ⟨rfl, rfl, fun _ => rfl, fun kind => ?_⟩
    cases kind with
    | intent =>
      refine ⟨[ape, zoo [template 2 "<t>", template 1 "$a <s>"]], List.Perm.swap .., ?_⟩
      exact .cons ⟨rfl, rfl, rfl, .refl _⟩ (.cons ⟨rfl, rfl, rfl, List.Perm.swap ..⟩ .nil)
    | entity => exact ⟨[], .refl _, .nil⟩
  have hcompile : (m.compile 20 .found).map (fun c => c.value.intents.map Expanded.sentences) =
      some [["y <s>".toList, "x <s>".toList, "<t>".toList],
        ["b".toList, "a".toList, "b".toList]] := by
    decide +kernel
  obtain ⟨found, hfound, hsentences⟩ := Option.map_eq_some_iff.1 hcompile
  have hfound : m.CompilesTo .found found.value := ⟨20, found, hfound, rfl⟩
  obtain ⟨hends, hrearranges⟩ := hsorting m
  obtain ⟨sorted, hsorted⟩ := hends.1 ⟨_, hfound⟩
  obtain ⟨⟨sorted', hsorted'⟩, hsame⟩ := hcanonical m m' sorted hnames hmoved hsorted
  exact ⟨hnames, hmoved, found.value, sorted, sorted', hfound, hsorted, hsorted',
    (hsame sorted' hsorted').1, hrearranges _ _ hfound hsorted, hsentences⟩

end Utterance
