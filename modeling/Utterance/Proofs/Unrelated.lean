import Utterance.Proofs.Sorting
import Utterance.Proofs.Termination
import Utterance.Proofs.Undefined

/-!
# Unrelated variables — a template depends on what it leads to

A text leads to the names it refers to, to those that their definitions refer
to, and so on (`Variables.LeadsTo`). While every dollar sign begins a reference,
no step of an expansion leaves this set: putting in a definition trades a name
for names it leads to, between brackets, where no name runs on, and when groups
are split no dollar sign is left (`Variables.AgreeFrom.of_mem_successors`). So
two tables that agree on what a template leads to are never told apart
(`Template.unrelated_variables`).
-/

namespace Utterance

open Relation

namespace Variables

variable {vars vars' : Variables} {s t key : Text}

/-- **A text leads to a name**, in lower case: it refers to it, or to a name
whose definition leads to it. -/
def LeadsTo (vars : Variables) (s key : Text) : Prop :=
  ∃ name ∈ references s, ReflTransGen vars.Refers name.lower key

theorem LeadsTo.reaches {definition : Text} (h : vars.LeadsTo s key)
    (hdef : vars.entries.lookup key = some definition) : vars.Reaches s definition := by
  obtain ⟨name, hname, hkey⟩ := h
  exact ⟨name, hname, key, hkey, hdef⟩

/-- Names that hold those of a text and with each name those of its definition
hold all that the text leads to. -/
theorem LeadsTo.mem_of_closed {keys : List Text} (hs : ∀ name ∈ references s, name.lower ∈ keys)
    (hclosed : ∀ key ∈ keys, ∀ definition ∈ vars.entries.lookup key,
      ∀ name ∈ references definition, name.lower ∈ keys)
    (h : vars.LeadsTo s key) : key ∈ keys := by
  obtain ⟨name, hname, hkey⟩ := h
  induction hkey with
  | refl => exact hs name hname
  | tail _ hrefers ih =>
    obtain ⟨definition, hdef, other, hother, rfl⟩ := hrefers
    exact hclosed _ ih definition hdef other hother

/-- **Two tables agree from a text on**: every dollar sign in it, and in the
definitions it reaches, begins a reference, and the tables give the same answer
for every name it leads to. -/
structure AgreeFrom (vars vars' : Variables) (s : Text) : Prop where
  /-- Every dollar sign begins a reference. -/
  refers : DollarsRefer s
  /-- So it does in the definitions. -/
  definitions : ∀ definition, vars.Reaches s definition → DollarsRefer definition
  /-- The answers are the same. -/
  lookup : ∀ key, vars.LeadsTo s key → vars.entries.lookup key = vars'.entries.lookup key

/-- Tables agree from every text on that leads to less. -/
theorem AgreeFrom.mono (h : vars.AgreeFrom vars' s) (ht : DollarsRefer t)
    (hleads : ∀ key, vars.LeadsTo t key → vars.LeadsTo s key) : vars.AgreeFrom vars' t where
  refers := ht
  definitions := by
    rintro definition ⟨name, hname, key, hkey, hdef⟩
    exact h.definitions definition ((hleads key ⟨name, hname, hkey⟩).reaches hdef)
  lookup key hkey := h.lookup key (hleads key hkey)

/-- A text without dollar signs leads nowhere. -/
theorem AgreeFrom.of_dollar_notMem (ht : '$' ∉ t) : vars.AgreeFrom vars' t := by
  have hnone : ∀ name, name ∉ references t := by simp [references_of_notMem ht]
  refine ⟨fun p q hpq => ?_, ?_, ?_⟩
  · exact absurd (by simp [hpq]) ht
  · rintro _ ⟨name, hname, -⟩
    exact absurd hname (hnone name)
  · rintro _ ⟨name, hname, -⟩
    exact absurd hname (hnone name)

section Step

variable {u v name : Text} (h : vars.AgreeFrom vars' (u ++ '$' :: name ++ v))
  (hn : IsIdentifier name) (hv : continuesIdentifier v = false)

include h hn hv

/-- Both tables give a reference the same definition. -/
theorem AgreeFrom.get?_eq : vars.get? name = vars'.get? name := by
  refine h.lookup _ ⟨name, ?_, .refl⟩
  rw [references_append_reference hn hv]
  simp

/-- **Putting in a definition leads nowhere else.** -/
theorem AgreeFrom.enclose_definition :
    vars.AgreeFrom vars' (u ++ Bracket.round.enclose ((vars.get? name).getD []) ++ v) := by
  have hname : name ∈ references (u ++ '$' :: name ++ v) := by
    rw [references_append_reference hn hv]
    simp
  have hdef : DollarsRefer ((vars.get? name).getD []) := by
    cases hget : vars.get? name with
    | none => exact dollarsRefer_iff.2 rfl
    | some definition => exact h.definitions definition ⟨name, hname, name.lower, .refl, hget⟩
  refine h.mono ?_ ?_
  · rw [dollarsRefer_iff, Worklist.strays_enclose hn hv (dollarsRefer_iff.1 hdef)]
    exact dollarsRefer_iff.1 h.refers
  · rintro key ⟨other, hother, hkey⟩
    rw [references_enclose, List.mem_append, List.mem_append] at hother
    rcases hother with (hbefore | hinside) | hafter
    · exact ⟨other, by rw [references_append_reference hn hv]; simp [hbefore], hkey⟩
    · -- a name in the definition is one that the reference leads to
      cases hget : vars.get? name with
      | none => simp [hget, references] at hinside
      | some definition =>
        rw [hget, Option.getD_some] at hinside
        exact ⟨name, hname, hkey.head ⟨definition, hget, other, hinside, rfl⟩⟩
    · exact ⟨other, by rw [references_append_reference hn hv]; simp [hafter], hkey⟩

end Step

/-- Where no reference is left, no dollar sign is. -/
theorem AgreeFrom.dollar_notMem (h : vars.AgreeFrom vars' s)
    (hnone : s.leftmost? Fragment.reference? = none) : '$' ∉ s :=
  dollar_notMem_of_references h.refers (leftmost?_reference?_eq_none.1 hnone)

/-- **The tables agree from what a fragment leaves**, if they agree from the
fragment on. -/
theorem AgreeFrom.of_mem_successors (h : vars.AgreeFrom vars' s)
    (ht : t ∈ (Fragment.classify s).successors vars) : vars.AgreeFrom vars' t := by
  rcases Fragment.classify_cases s with
    ⟨hs, -⟩ | ⟨u, name, v, hs, rfl, hn, hv⟩ | ⟨b, u, w, v, hs, -, -, hnone⟩ | ⟨hs, -⟩
  · simp [hs, Shape.successors] at ht
  · rw [hs, Shape.successors_reference, List.mem_singleton] at ht
    exact ht ▸ h.enclose_definition hn hv
  · exact .of_dollar_notMem (Worklist.dollar_notMem_successors (h.dollar_notMem hnone) ht).1
  · simp [hs, Shape.successors] at ht

/-- A fragment leaves the same under both tables. -/
theorem AgreeFrom.successors_eq (h : vars.AgreeFrom vars' s) :
    (Fragment.classify s).successors vars = (Fragment.classify s).successors vars' := by
  rcases Fragment.classify_cases s with
    ⟨hs, -⟩ | ⟨u, name, v, hs, rfl, hn, hv⟩ | ⟨b, u, w, v, hs, -⟩ | ⟨hs, -⟩
  · rw [hs]; rfl
  · rw [hs, Shape.successors_reference, Shape.successors_reference, h.get?_eq hn hv]
  · rw [hs, Shape.successors_ofGroup, Shape.successors_ofGroup]
  · rw [hs]; rfl

/-- A visit finds the same under both tables. -/
theorem AgreeFrom.findings_eq (h : vars.AgreeFrom vars' s) (slots : Option (List Slot)) :
    (Visit.of s).findings vars slots = (Visit.of s).findings vars' slots := by
  rcases Fragment.classify_cases s with
    ⟨hs, -⟩ | ⟨u, name, v, hs, rfl, hn, hv⟩ | ⟨b, u, w, v, hs, -⟩ | ⟨hs, -⟩
  · simp [Visit.findings, Visit.of, hs]
  · simp only [Visit.findings, Visit.of, hs, h.get?_eq hn hv]
  · cases b <;> simp [Visit.findings, Visit.of, hs, Shape.ofGroup]
  · simp [Visit.findings, Visit.of, hs]

/-- The first fragment of a template leads where the template does. -/
theorem AgreeFrom.seed (h : vars.AgreeFrom vars' s) : vars.AgreeFrom vars' (Worklist.seed s) := by
  have hreferences : references (Worklist.seed s) = references s := by
    simpa [Worklist.seed_eq, references] using references_enclose .round [] s []
  have hstrays : strays (Worklist.seed s) = strays s := by
    rw [strays, hreferences, Worklist.seed_eq, Worklist.count_dollar_enclose, strays]
  refine h.mono (dollarsRefer_iff.2 (hstrays.trans (dollarsRefer_iff.1 h.refers))) ?_
  rintro key ⟨name, hname, hkey⟩
  exact ⟨name, hreferences ▸ hname, hkey⟩

end Variables

/-! ## Branches -/

/-- **Two tables are not told apart** in a branch if its fragments leave the
same under both. -/
theorem Worklist.branch_congr {vars vars' : Variables} {P : Text → Prop}
    (hstep : ∀ f, P f → ∀ g ∈ (Fragment.classify f).successors vars, P g)
    (hsame : ∀ f, P f →
      (Fragment.classify f).successors vars = (Fragment.classify f).successors vars')
    (depth : Nat) {f : Text} (hf : P f) : branch vars depth f = branch vars' depth f := by
  induction depth generalizing f with
  | zero => rfl
  | succ depth ih =>
    have hnext : (Visit.of f).next vars = (Visit.of f).next vars' :=
      congrArg List.reverse (hsame f hf)
    have hparts : ((Visit.of f).next vars).mapM (branch vars depth) =
        ((Visit.of f).next vars).mapM (branch vars' depth) :=
      mapM_eq_of_forall₂ (List.forall₂_same.2 fun g hg =>
        ih (hstep f hf g (List.mem_reverse.1 hg)))
    rw [branch, branch, hparts, hnext]

/-! ## Templates -/

/-- **A template is expanded alike under two tables**: the expansion under the
one ends if that under the other does, and then they yield the same sentences
and the same diagnostics, each in the same order. -/
def Template.SameUnder (t : Template) (vars vars' : Variables) (slots : Option (List Slot))
    (collection : Option Text) : Prop :=
  ((∃ run, t.ExpandsTo vars slots collection run) ↔
    ∃ run, t.ExpandsTo vars' slots collection run) ∧
  ∀ run run', t.ExpandsTo vars slots collection run → t.ExpandsTo vars' slots collection run' →
    run.sentences = run'.sentences ∧ run.diagnostics = run'.diagnostics

variable {t : Template} {vars vars' : Variables}

/-- Tables that agree from a template on expand it alike. -/
theorem Template.sameUnder_of_agreeFrom (h : vars.AgreeFrom vars' t.text)
    (slots : Option (List Slot)) (collection : Option Text) :
    t.SameUnder vars vars' slots collection := by
  have hstep : ∀ f, vars.AgreeFrom vars' f →
      ∀ g ∈ (Fragment.classify f).successors vars, vars.AgreeFrom vars' g :=
    fun _ hf _ hg => hf.of_mem_successors hg
  have hbranch (depth : Nat) : Worklist.branch vars depth (Worklist.seed t.text) =
      Worklist.branch vars' depth (Worklist.seed t.text) :=
    Worklist.branch_congr hstep (fun _ hf => hf.successors_eq) depth h.seed
  refine ⟨⟨?_, ?_⟩, fun run run' hrun hrun' => ?_⟩
  · rintro ⟨run, hrun⟩
    obtain ⟨depth, visits, hvisits, -⟩ := expandsTo_iff.1 hrun
    exact ⟨_, expandsTo_iff.2 ⟨depth, visits, hbranch depth ▸ hvisits, rfl⟩⟩
  · rintro ⟨run, hrun⟩
    obtain ⟨depth, visits, hvisits, -⟩ := expandsTo_iff.1 hrun
    exact ⟨_, expandsTo_iff.2 ⟨depth, visits, (hbranch depth).trans hvisits, rfl⟩⟩
  · obtain ⟨depth, visits, hvisits, rfl⟩ := expandsTo_iff.1 hrun
    obtain ⟨depth', visits', hvisits', rfl⟩ := expandsTo_iff.1 hrun'
    obtain rfl : visits = visits' :=
      Worklist.branch_unique ((hbranch depth).symm.trans hvisits) hvisits'
    -- every visit is one of a fragment from which the tables agree
    have hfindings : visits.flatMap (Visit.findings vars slots) =
        visits.flatMap (Visit.findings vars' slots) := by
      refine List.flatMap_congr fun visit hvisit => ?_
      obtain ⟨heq, hagree⟩ := Worklist.forall_mem_branch hstep hvisits h.seed visit hvisit
      rw [heq]
      exact hagree.findings_eq slots
    refine ⟨rfl, ?_⟩
    rw [Run.diagnostics_eq, Run.diagnostics_eq]
    exact congrArg (fun found => (List.eraseDups found).map _) hfindings

/-- **Unrelated variables do not interfere.** If every dollar sign of a template
and of the definitions that it reaches begins a reference, tables that agree on
every name the template leads to expand it alike. So does a table in which a
name is defined, or defined anew, that the template does not lead to. -/
theorem Template.unrelated_variables (template : Template) (vars : Variables)
    (slots : Option (List Slot)) (collection : Option Text)
    (htext : DollarsRefer template.text)
    (hdefs : ∀ definition, vars.Reaches template.text definition → DollarsRefer definition) :
    (∀ vars' : Variables,
      (∀ key, vars.LeadsTo template.text key →
        vars.entries.lookup key = vars'.entries.lookup key) →
      template.SameUnder vars vars' slots collection) ∧
    ∀ name definition, ¬ vars.LeadsTo template.text name.lower →
      template.SameUnder vars (vars.define name definition) slots collection := by
  have halike (vars' : Variables) (hlookup : ∀ key, vars.LeadsTo template.text key →
      vars.entries.lookup key = vars'.entries.lookup key) :
      template.SameUnder vars vars' slots collection :=
    sameUnder_of_agreeFrom ⟨htext, hdefs, hlookup⟩ slots collection
  refine ⟨halike, fun name definition hunrelated => halike _ fun key hkey => ?_⟩
  have hne : key ≠ name.lower := by
    rintro rfl
    exact hunrelated hkey
  exact ((Variables.lookup_put name.lower definition key vars.entries).trans (if_neg hne)).symm

/-- A template that leads to two definitions, in other spellings, and to a name
without one. The other table lacks a variable, has one more, and circles where
the first does not. -/
theorem Template.unrelated_variables_circular :
    let vars := Variables.ofList [("city".toList, "(Rome|$THE [big] city)".toList),
      ("The".toList, "the $nope".toList), ("spare".toList, "a $ b".toList),
      ("loop".toList, "x".toList)]
    let vars' := Variables.ofList [("Loop".toList, "$LOOP".toList),
      ("the".toList, "the $nope".toList), ("extra".toList, "$city".toList),
      ("CITY".toList, "(Rome|$THE [big] city)".toList)]
    let template : Template := { text := "to $City".toList }
    DollarsRefer template.text ∧
      (∀ definition, vars.Reaches template.text definition → DollarsRefer definition) ∧
      (∀ key, vars.LeadsTo template.text key →
        vars.entries.lookup key = vars'.entries.lookup key) ∧
      template.SameUnder vars vars' (some []) none ∧
      template.SameUnder vars (vars.define "LOOP".toList "$loop".toList) (some []) none ∧
      ∃ run, template.ExpandsTo vars' (some []) none run ∧
        run.sentences =
          ["to the   city", "to Rome", "to the  big city", "to Rome"].map String.toList ∧
        run.findings = [.undefinedVariable "nope".toList] := by
  intro vars vars' template
  have hkeys : ∀ key, vars.LeadsTo template.text key →
      key ∈ ["city".toList, "the".toList, "nope".toList] := fun _ h =>
    h.mem_of_closed (by decide +kernel) (by decide +kernel)
  have htext : DollarsRefer template.text := by decide
  have hdefs : ∀ definition, vars.Reaches template.text definition → DollarsRefer definition := by
    have hall : ∀ key ∈ ["city".toList, "the".toList, "nope".toList],
        ∀ definition ∈ vars.entries.lookup key, DollarsRefer definition := by decide +kernel
    rintro definition ⟨name, hname, key, hkey, hdef⟩
    exact hall key (hkeys key ⟨name, hname, hkey⟩) definition hdef
  have hagree : ∀ key, vars.LeadsTo template.text key →
      vars.entries.lookup key = vars'.entries.lookup key := by
    have hall : ∀ key ∈ ["city".toList, "the".toList, "nope".toList],
        vars.entries.lookup key = vars'.entries.lookup key := by decide +kernel
    exact fun key hkey => hall key (hkeys key hkey)
  obtain ⟨halike, hdefine⟩ := unrelated_variables template vars (some []) none htext hdefs
  have hloop : ¬ vars.LeadsTo template.text (Text.lower "LOOP".toList) := fun h =>
    absurd (hkeys _ h) (by decide +kernel)
  have hyields : (Run.of 20 vars' (some []) none template).map
      (fun run => (run.sentences, run.findings)) =
        some (["to the   city", "to Rome", "to the  big city", "to Rome"].map String.toList,
          [.undefinedVariable "nope".toList]) := by
    decide +kernel
  obtain ⟨run, hrun, hlists⟩ := Option.map_eq_some_iff.1 hyields
  obtain ⟨hsentences, hfindings⟩ := Prod.mk.inj hlists
  exact ⟨htext, hdefs, hagree, halike vars' hagree, hdefine _ _ hloop, run, ⟨20, hrun⟩, hsentences,
    hfindings⟩

end Utterance
