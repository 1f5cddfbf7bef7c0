import Utterance.Expansion.Collection
import Utterance.Proofs.Branches
import Utterance.Proofs.Firsts
import Utterance.Proofs.Placeholders
import Mathlib.Data.List.Forall2

/-!
# Slot reports — which missing slots are reported

Checking the placeholders of a template against the slots of its intent
changes nothing but the reports about slots. What a visit finds is what it
finds without a check, and for a visit that finishes a sentence the slots
that the sentence misses (`Visit.findings_check`). A sentence may be
finished many times and name a slot many times, and a report is made the
first time only. What a sentence misses tells the sentence, so that taking
the first of everything that was found is taking the first of the sentences
and then of the names in each (`eraseDups_flatMap`). The reports therefore
stand in the order in which the sentences first came and their placeholders
stand (`Template.ExpandsTo.checksSlots`).
-/

namespace Utterance

/-! ## What a check finds -/

/-- Whether a finding is about a slot. -/
def Finding.isUndefinedSlot : Finding → Bool
  | .undefinedSlot .. => true
  | _ => false

/-- The slots that a sentence names and a table does not declare, each with
the sentence. -/
def Slot.misses (slots : List Slot) (s : Text) : List (Text × Text) :=
  (undeclared slots s).map (·, s)

/-- The finding of a missed slot. -/
def Finding.ofMiss (miss : Text × Text) : Finding :=
  .undefinedSlot miss.1 miss.2

variable {vars : Variables} {slots : List Slot} {collection : Option Text}
  {template : Template} {run : Run} {s name : Text}

theorem Slot.mem_undeclared : name ∈ undeclared slots s ↔
    IsIdentifier name ∧ '<' :: name ++ ['>'] <:+: s ∧ ∀ slot ∈ slots, slot.name ≠ name := by
  rw [undeclared, List.mem_eraseDups, List.mem_filter, Sentence.mem_slotNames_iff, and_assoc]
  simp [find?]

/-- **A check adds what a finished sentence misses** to what a visit finds,
and nothing else. -/
theorem Visit.findings_check (visit : Visit) :
    (visit.findings vars (some slots)).filter (fun f => !f.isUndefinedSlot) =
      visit.findings vars none ∧
    (visit.findings vars (some slots)).filter Finding.isUndefinedSlot =
      (visit.sentence?.toList.flatMap (Slot.misses slots)).map Finding.ofMiss := by
  obtain ⟨f, shape⟩ := visit
  cases shape with
  | concrete =>
    have hnil : Slot.undeclared slots [] = [] := by simp [Slot.undeclared, Sentence.slotNames]
    constructor
    · simp [findings, Finding.isUndefinedSlot]
    · cases f <;> simp [findings, sentence?, Finding.isUndefinedSlot, Finding.ofMiss,
        Slot.misses, Function.comp_def, hnil]
  | reference u name v =>
    cases hname : vars.get? name <;> simp [findings, sentence?, Finding.isUndefinedSlot, hname]
  | stuck => simp [findings, sentence?, Finding.isUndefinedSlot]
  | _ => simp [findings, sentence?]

theorem Visit.not_isUndefinedSlot {visit : Visit} {f : Finding}
    (h : f ∈ visit.findings vars none) : f.isUndefinedSlot = false := by
  have hcheck : (visit.findings vars (some [])).filter (fun f => !f.isUndefinedSlot) =
      visit.findings vars none := visit.findings_check.1
  rw [← hcheck, List.mem_filter] at h
  simpa using h.2

/-! ## Runs -/

/-- The run without a check of the slots. -/
def Run.unchecked (run : Run) : Run :=
  { run with slots := none }

theorem Template.ExpandsTo.unchecked {slots : Option (List Slot)}
    (h : template.ExpandsTo vars slots collection run) :
    template.ExpandsTo vars none collection run.unchecked := by
  obtain ⟨depth, visits, hbranch, rfl⟩ := expandsTo_iff.1 h
  exact expandsTo_iff.2 ⟨depth, visits, hbranch, rfl⟩

theorem Run.not_isUndefinedSlot (h : run.slots = none) {d : Diagnostic}
    (hd : d ∈ run.diagnostics) : d.finding.isUndefinedSlot = false := by
  rw [diagnostics_eq] at hd
  obtain ⟨f, hf, rfl⟩ := List.mem_map.1 hd
  obtain ⟨visit, -, hfound⟩ := List.mem_flatMap.1 (List.mem_eraseDups.1 hf)
  rw [h] at hfound
  exact Visit.not_isUndefinedSlot hfound

/-- **The other reports stay as they are.** -/
theorem Run.diagnostics_unchecked (h : run.slots = some slots) :
    run.diagnostics.filter (fun d => !d.finding.isUndefinedSlot) = run.unchecked.diagnostics := by
  have hfindings : run.findings.filter (fun f => !f.isUndefinedSlot) = run.unchecked.findings := by
    rw [findings, h, List.filter_flatMap]
    exact List.flatMap_congr fun visit _ => visit.findings_check.1
  rw [diagnostics_eq, diagnostics_eq, List.filter_map, ← hfindings, eraseDups_filter]
  rfl

/-- **What is reported about slots**: what each sentence misses, once. -/
theorem Run.diagnostics_checked (h : run.slots = some slots) :
    run.diagnostics.filter (fun d => d.finding.isUndefinedSlot) =
      (run.sentences.eraseDups.flatMap (Slot.misses slots)).map fun miss =>
        Diagnostic.of run.template run.collection (.ofMiss miss) := by
  have hfindings : run.findings.filter Finding.isUndefinedSlot =
      run.sentences.flatMap fun s => (Slot.misses slots s).map Finding.ofMiss := by
    rw [findings, h, List.filter_flatMap, sentences, List.filterMap_eq_flatMap_toList,
      List.flatMap_assoc]
    refine List.flatMap_congr fun visit _ => ?_
    rw [visit.findings_check.2, List.map_flatMap]
  have hnodup : ∀ s, ((Slot.misses slots s).map Finding.ofMiss).Nodup := by
    intro s
    have hinj : Function.Injective fun name => Finding.undefinedSlot name s :=
      fun _ _ hname => (Finding.undefinedSlot.inj hname).1
    have hnames : (Slot.undeclared slots s).Nodup := nodup_eraseDups _
    rw [Slot.misses, List.map_map]
    exact List.Nodup.map hinj hnames
  have hdisjoint : ∀ s t f, f ∈ (Slot.misses slots s).map Finding.ofMiss →
      f ∈ (Slot.misses slots t).map Finding.ofMiss → s = t := by
    simp only [Slot.misses, List.map_map, List.mem_map, Function.comp_apply]
    rintro s t _ ⟨name, -, rfl⟩ ⟨other, -, hname⟩
    exact (Finding.undefinedSlot.inj hname).2.symm
  rw [diagnostics_eq, List.filter_map]
  have hfirst : run.findings.eraseDups.filter Finding.isUndefinedSlot =
      (run.sentences.eraseDups.flatMap (Slot.misses slots)).map Finding.ofMiss := by
    rw [← eraseDups_filter, hfindings, eraseDups_flatMap hnodup hdisjoint, List.map_flatMap]
  exact (congrArg _ hfirst).trans List.map_map

/-- A miss is reported before another one if its sentence came first, or if
its placeholder comes first in the same sentence. -/
def ReportedBefore (sentences : List Text) (a b : Text × Text) : Prop :=
  sentences.idxOf a.2 < sentences.idxOf b.2 ∨
    a.2 = b.2 ∧ (Sentence.slotNames a.2).idxOf a.1 < (Sentence.slotNames b.2).idxOf b.1

theorem pairwise_reportedBefore (slots : List Slot) (sentences : List Text) :
    (sentences.eraseDups.flatMap (Slot.misses slots)).Pairwise (ReportedBefore sentences) := by
  rw [List.pairwise_flatMap]
  constructor
  · intro s _
    rw [Slot.misses, Slot.undeclared, eraseDups_filter, List.pairwise_map]
    exact ((pairwise_eraseDups (Sentence.slotNames s)).filter _).imp fun hlt => .inr ⟨rfl, hlt⟩
  · refine (pairwise_eraseDups sentences).imp fun hlt => ?_
    simp only [Slot.misses, List.mem_map]
    rintro _ ⟨name, -, rfl⟩ _ ⟨other, -, rfl⟩
    exact .inl hlt

/-- **What a check of the slots does to an expansion.** The sentences and
the other reports are those of the expansion without it. A slot is reported
for a sentence once, exactly if the sentence was emitted and names the slot
and no slot of the table is called that, and the reports stand in the order
in which the sentences first came and their placeholders stand. -/
structure Template.ChecksSlots (template : Template) (vars : Variables) (slots : List Slot)
    (collection : Option Text) (run : Run) : Prop where
  unchanged : ∃ bare, template.ExpandsTo vars none collection bare ∧
    run.sentences = bare.sentences ∧
    run.diagnostics.filter (fun d => !d.finding.isUndefinedSlot) = bare.diagnostics
  reported : ∃ misses : List (Text × Text),
    run.diagnostics.filter (fun d => d.finding.isUndefinedSlot) =
      misses.map (fun miss => Diagnostic.of template collection (.undefinedSlot miss.1 miss.2)) ∧
    misses.Nodup ∧ misses.Pairwise (ReportedBefore run.sentences) ∧
    ∀ slot sentence, (slot, sentence) ∈ misses ↔
      sentence ∈ run.sentences ∧ IsIdentifier slot ∧ '<' :: slot ++ ['>'] <:+: sentence ∧
        ∀ declared ∈ slots, declared.name ≠ slot

theorem Template.ExpandsTo.checksSlots
    (h : template.ExpandsTo vars (some slots) collection run) :
    template.ChecksSlots vars slots collection run := by
  have hbare := h.unchecked
  obtain ⟨depth, visits, -, rfl⟩ := expandsTo_iff.1 h
  have hpairwise := pairwise_reportedBefore slots (visits.filterMap Visit.sentence?)
  refine ⟨⟨_, hbare, rfl, Run.diagnostics_unchecked rfl⟩,
    ⟨_, Run.diagnostics_checked rfl, ?_, hpairwise, ?_⟩⟩
  · refine hpairwise.imp ?_
    rintro a b hbefore rfl
    unfold ReportedBefore at hbefore
    omega
  · intro slot sentence
    simp only [List.mem_flatMap, List.mem_eraseDups, Slot.misses, List.mem_map, Prod.mk.injEq,
      ← Slot.mem_undeclared]
    constructor
    · rintro ⟨_, hs, _, hname, rfl, rfl⟩
      exact ⟨hs, hname⟩
    · rintro ⟨hs, hname⟩
      exact ⟨sentence, hs, slot, hname, rfl, rfl⟩

/-! ## Collections -/

variable {fuel : Nat} {order : Order} {c : Collection} {expanded : Logged Expanded}

/-- What succeeds for every member gives results one by one. -/
theorem forall₂_of_mapM {α β : Type} {f : α → Option β} {items : List α} {results : List β}
    (h : items.mapM f = some results) : List.Forall₂ (fun a b => f a = some b) items results := by
  induction items generalizing results with
  | nil =>
    obtain rfl : [] = results := by simpa using h
    exact .nil
  | cons a items ih =>
    simp only [List.mapM_cons, Option.bind_eq_bind, Option.bind_eq_some_iff, Option.pure_def,
      Option.some.injEq] at h
    obtain ⟨b, hb, rest, hrest, rfl⟩ := h
    exact .cons hb (ih hrest)

/-- What stands on the right of a pair stands across from a member. -/
theorem exists_left_of_forall₂ {α β : Type} {R : α → β → Prop} {items : List α} {results : List β}
    (h : List.Forall₂ R items results) {b : β} (hb : b ∈ results) : ∃ a ∈ items, R a b := by
  induction h with
  | nil => cases hb
  | @cons a c items results hac _ ih =>
    rcases List.mem_cons.1 hb with rfl | hb
    · exact ⟨a, by simp, hac⟩
    · obtain ⟨a', ha', hab⟩ := ih hb
      exact ⟨a', by simp [ha'], hab⟩

/-- Each of the results is that of a member. -/
theorem exists_mem_of_mapM {α β : Type} {f : α → Option β} {items : List α} {results : List β}
    (h : items.mapM f = some results) {b : β} (hb : b ∈ results) : ∃ a ∈ items, f a = some b :=
  exists_left_of_forall₂ (forall₂_of_mapM h) hb

/-- A collection is expanded template by template, all with its table. -/
theorem Collection.exists_runs (h : c.expand fuel vars order = some expanded) :
    ∃ runs, List.Forall₂ (fun template run =>
        template.ExpandsTo vars c.slotTable? (some c.name) run) c.templates runs ∧
      (∀ run ∈ runs, run.slots = c.slotTable?) ∧ expanded.value = c.gather order runs := by
  obtain ⟨runs, hmap, rfl⟩ := Option.map_eq_some_iff.1 h
  have hruns : List.Forall₂ (fun template run =>
      template.ExpandsTo vars c.slotTable? (some c.name) run) c.templates runs :=
    (forall₂_of_mapM hmap).imp fun _ _ hrun => ⟨fuel, hrun⟩
  have htable : List.Forall₂ (fun (run : Run) (_ : Template) =>
      run.slots = c.slotTable? ∧ True) runs c.templates := by
    refine (hruns.imp fun template run hrun => ?_).flip
    obtain ⟨_, _, -, rfl⟩ := expandsTo_iff.1 hrun
    exact ⟨rfl, trivial⟩
  exact ⟨runs, hruns, ((List.forall₂_and_left _ _).1 htable).1, rfl⟩

/-- **Slots are checked exactly, and the check changes nothing else**: in
every template that is expanded with a table of slots, and in every template
of a collection. An intent checks its templates against its slots and an
entity reports none, and what a collection comes to is what its templates
come to, one after another. -/
theorem slots_are_checked (vars : Variables) :
    (∀ (template : Template) (slots : List Slot) (collection : Option Text) (run : Run),
      template.ExpandsTo vars (some slots) collection run →
      template.ChecksSlots vars slots collection run) ∧
    ∀ (c : Collection) (fuel : Nat) (order : Order) (expanded : Logged Expanded),
      c.expand fuel vars order = some expanded →
      ∃ runs,
        List.Forall₂ (fun template run =>
          template.ExpandsTo vars c.slotTable? (some c.name) run ∧
            (c.kind = .intent → template.ChecksSlots vars c.slots (some c.name) run))
          c.templates runs ∧
        expanded.value.sentences = order.arrange id (runs.flatMap Run.sentences) ∧
        expanded.value.diagnostics = runs.flatMap Run.diagnostics ∧
        (c.kind = .entity →
          ∀ d ∈ expanded.value.diagnostics, d.finding.isUndefinedSlot = false) := by
  constructor
  · intro template slots collection run h
    exact h.checksSlots
  intro c fuel order expanded h
  obtain ⟨runs, hruns, htable, hvalue⟩ := Collection.exists_runs h
  rw [hvalue]
  refine ⟨runs, ?_, rfl, rfl, ?_⟩
  · refine hruns.imp fun template run hrun => ⟨hrun, fun hkind => ?_⟩
    have hslots : c.slotTable? = some c.slots := by simp [Collection.slotTable?, hkind]
    rw [hslots] at hrun
    exact hrun.checksSlots
  · intro hkind d hd
    obtain ⟨run, hrun, hd⟩ := List.mem_flatMap.1 hd
    have hnone : run.slots = none := by
      rw [htable run hrun]
      simp [Collection.slotTable?, hkind]
    exact Run.not_isUndefinedSlot hnone hd

/-- A sentence that is emitted twice and names a slot twice, with the one
slot it declares in the other letter case, and the same placeholders in an
entity. -/
theorem slots_are_checked_repeated :
    let vars := Variables.ofList [("x".toList, "<b> or <a> or <b>".toList)]
    let template : Template := { text := "$x|<c>|$x".toList }
    let entity : Collection := { name := "e".toList, kind := .entity, latestFirst := [template] }
    ∃ run, template.ExpandsTo vars (some [{ name := "A".toList }, { name := "c".toList }]) none run ∧
      template.ChecksSlots vars [{ name := "A".toList }, { name := "c".toList }] none run ∧
      run.sentences = ["<b> or <a> or <b>".toList, "<c>".toList, "<b> or <a> or <b>".toList] ∧
      ∃ expanded, entity.expand 10 vars .ascending = some expanded ∧
        ∀ d ∈ expanded.value.diagnostics, d.finding.isUndefinedSlot = false := by
  intro vars template entity
  obtain ⟨hchecked, hcollections⟩ := slots_are_checked vars
  have hrun : (Run.of 20 vars (some [{ name := "A".toList }, { name := "c".toList }]) none
      template).map Run.sentences =
        some ["<b> or <a> or <b>".toList, "<c>".toList, "<b> or <a> or <b>".toList] := by
    decide +kernel
  obtain ⟨run, hof, hsentences⟩ := Option.map_eq_some_iff.1 hrun
  have hexpands : template.ExpandsTo vars
      (some [{ name := "A".toList }, { name := "c".toList }]) none run := ⟨20, hof⟩
  have hentity : (entity.expand 10 vars .ascending).isSome = true := by decide +kernel
  obtain ⟨expanded, hexpanded⟩ := Option.isSome_iff_exists.1 hentity
  obtain ⟨runs, -, -, -, hnone⟩ := hcollections entity 10 .ascending expanded hexpanded
  exact ⟨run, hexpands, hchecked _ _ _ _ hexpands, hsentences, expanded, hexpanded, hnone rfl⟩

end Utterance
