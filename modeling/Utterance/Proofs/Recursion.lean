import Utterance.Proofs.Branches

/-!
# Recursive expansion — the order of sentences and findings

The sentences of a fragment can be listed without any stack: those of a
choice are those of its variants, the last variant first, and those of an
optional group are those without it and then those of its variants, again
the last one first (`Traversal.expand`). The worklist lists the same
sentences in the same order, and finds the same on the way, where a
finding that was met before is dropped (`expandsTo_iff_traversal`).
-/

namespace Utterance

/-- What is done to every result can be done to the list of them. -/
theorem mapM_map_some {α β γ : Type} (g : β → γ) (f : α → Option β) (items : List α) :
    (items.mapM fun a => (f a).map g) = (items.mapM f).map (List.map g) := by
  induction items with
  | nil => rfl
  | cons a items ih =>
    rw [List.mapM_cons, List.mapM_cons, ih]
    cases f a with
    | none => rfl
    | some b => cases items.mapM f <;> rfl

/-- What an expansion lists: its sentences, and all it finds, with
repetitions. -/
structure Traversal where
  /-- The sentences. -/
  sentences : List Text
  /-- The findings. -/
  findings : List Finding
  deriving Repr, DecidableEq

namespace Traversal

/-- One traversal after another. -/
def join (parts : List Traversal) : Traversal where
  sentences := parts.flatMap sentences
  findings := parts.flatMap findings

/-- A fragment that is finished: a sentence unless it is empty, checked
against the slots. -/
def finish (slots : Option (List Slot)) (f : Text) : Traversal :=
  if f = [] then ⟨[], []⟩
  else match slots with
    | none => ⟨[f], []⟩
    | some slots => ⟨[f], (Slot.undeclared slots f).map (.undefinedSlot · f)⟩

/-- A traversal after one more finding. -/
def after (finding : Finding) (t : Traversal) : Traversal where
  sentences := t.sentences
  findings := finding :: t.findings

/-- **Expand a fragment by recursion**, with a bound on the depth. -/
def expand (vars : Variables) (slots : Option (List Slot)) : (depth : Nat) → Text → Option Traversal
  | 0, _ => none
  | depth + 1, f =>
    match Fragment.classify f with
    | .concrete => some (finish slots f)
    | .reference u name v =>
      match vars.get? name with
      | some definition => expand vars slots depth (u ++ '(' :: definition ++ ')' :: v)
      | none =>
        (expand vars slots depth (u ++ '(' :: ')' :: v)).map (after (.undefinedVariable name))
    | .choice u variants v =>
      (variants.reverse.mapM fun x => expand vars slots depth (u ++ x ++ v)).map join
    | .optional u variants v =>
      -- without the group, then with each variant in its place
      (([] :: variants.reverse).mapM fun x => expand vars slots depth (u ++ x ++ v)).map join
    | .stuck => some ⟨[], [.stuckFragment f]⟩

/-- What a list of visits comes to. -/
def ofVisits (vars : Variables) (slots : Option (List Slot)) (visits : List Visit) : Traversal where
  sentences := visits.filterMap Visit.sentence?
  findings := visits.flatMap (Visit.findings vars slots)

variable {vars : Variables} {slots : Option (List Slot)} {depth : Nat}

theorem ofVisits_flatten (parts : List (List Visit)) :
    ofVisits vars slots parts.flatten = join (parts.map (ofVisits vars slots)) := by
  induction parts with
  | nil => rfl
  | cons part parts ih =>
    simp only [ofVisits, join, Traversal.mk.injEq, List.flatMap_map] at ih ⊢
    simp [ih.1, ih.2]

/-- A visit that finishes and finds nothing leaves no trace. -/
theorem ofVisits_cons_of_eq {visit : Visit} {visits : List Visit} (hs : visit.sentence? = none)
    (hf : visit.findings vars slots = []) :
    ofVisits vars slots (visit :: visits) = ofVisits vars slots visits := by
  simp [ofVisits, hs, hf]

/-- Expanding a fragment with each of several texts in one place lists
what the branches of these fragments come to. -/
theorem mapM_expand (ih : ∀ f, expand vars slots depth f =
      (Worklist.branch vars depth f).map (ofVisits vars slots)) (u v : Text) (texts : List Text) :
    (texts.mapM fun x => expand vars slots depth (u ++ x ++ v)).map join =
      (Worklist.branches vars depth (texts.map fun x => u ++ x ++ v)).map
        (ofVisits vars slots) := by
  have hmap : (texts.mapM fun x => expand vars slots depth (u ++ x ++ v)) =
      ((texts.map fun x => u ++ x ++ v).mapM (Worklist.branch vars depth)).map
        (List.map (ofVisits vars slots)) := by
    rw [List.mapM_map, ← mapM_map_some]
    simp only [ih, Function.comp_apply]
  rw [hmap, Worklist.branches, Option.map_map, Option.map_map]
  congr 1
  funext parts
  exact (ofVisits_flatten parts).symm

/-- **The recursion lists what the visits of a branch come to.** -/
theorem expand_eq (f : Text) :
    expand vars slots depth f = (Worklist.branch vars depth f).map (ofVisits vars slots) := by
  induction depth generalizing f with
  | zero => rfl
  | succ depth ih =>
    rw [Worklist.branch_eq]
    simp only [expand, Visit.next, Visit.of]
    cases hf : Fragment.classify f with
    | concrete =>
      have hnil : ∀ slots, Slot.undeclared slots [] = [] := by
        simp [Slot.undeclared, Sentence.slotNames]
      cases f <;> cases slots <;>
        simp [finish, ofVisits, Visit.sentence?, Visit.findings, Shape.successors, hnil]
    | reference u name v =>
      simp only [Shape.successors, List.reverse_singleton, Worklist.branches_singleton]
      cases hname : vars.get? name with
      | some definition =>
        simp only [Option.getD_some, ih, Option.map_map]
        congr 1
        funext visits
        exact (ofVisits_cons_of_eq rfl (by simp [Visit.findings, hname])).symm
      | none =>
        have hempty : u ++ '(' :: [] ++ ')' :: v = u ++ '(' :: ')' :: v := by simp
        simp only [Option.getD_none, hempty, ih, Option.map_map]
        congr 1
        funext visits
        simp [after, ofVisits, List.filterMap_cons, Visit.sentence?, Visit.findings, hname]
    | choice u variants v =>
      simp only [Shape.successors]
      rw [mapM_expand ih, List.map_reverse, Option.map_map]
      rfl
    | optional u variants v =>
      have hlast : [] :: variants.reverse = (variants ++ [[]]).reverse := by simp
      simp only [Shape.successors]
      rw [hlast, mapM_expand ih, List.map_reverse, Option.map_map]
      rfl
    | stuck => rfl

end Traversal

/-- **The worklist is the recursion**: the expansion of a template ends
exactly where the recursion from the template between round brackets
does. It lists the same sentences in the same order, and reports what the
recursion finds, in order, a finding that was met before being dropped. -/
theorem expandsTo_iff_traversal {template : Template} {vars : Variables}
    {slots : Option (List Slot)} {collection : Option Text} {sentences : List Text}
    {diagnostics : List Diagnostic} :
    (∃ run, template.ExpandsTo vars slots collection run ∧ run.sentences = sentences ∧
        run.diagnostics = diagnostics) ↔
      ∃ depth findings,
        Traversal.expand vars slots depth (Worklist.seed template.text) =
          some ⟨sentences, findings⟩ ∧
        diagnostics = findings.eraseDups.map (Diagnostic.of template collection) := by
  constructor
  · rintro ⟨run, hrun, rfl, rfl⟩
    obtain ⟨depth, visits, hbranch, rfl⟩ := expandsTo_iff.1 hrun
    refine ⟨depth, visits.flatMap (Visit.findings vars slots), ?_, ?_⟩
    · rw [Traversal.expand_eq, hbranch]
      rfl
    · rw [Run.diagnostics_eq]
      rfl
  · rintro ⟨depth, findings, h, rfl⟩
    rw [Traversal.expand_eq, Option.map_eq_some_iff] at h
    obtain ⟨visits, hbranch, hvisits⟩ := h
    obtain ⟨rfl, rfl⟩ := Traversal.mk.inj hvisits
    refine ⟨_, expandsTo_iff.2 ⟨depth, visits, hbranch, rfl⟩, rfl, ?_⟩
    rw [Run.diagnostics_eq]
    rfl

end Utterance
