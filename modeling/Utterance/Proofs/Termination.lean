import Utterance.Proofs.Branches
import Utterance.Proofs.References
import Mathlib.Data.Prod.Lex
import Mathlib.Logic.Hydra
import Mathlib.Tactic.Abel

/-!
# Termination — every expansion without circular variables ends

No count of brackets or references falls at every step. A reference makes
way for a definition, which may hold many references and groups; splitting
a group may turn a stray dollar sign before it into a reference to any
variable. What does fall is a triple (`Worklist.weight`), compared from
its first member on. Stray dollar signs never become more, since the
definitions have none. While they stay as many as they are, a step that
resolves a reference trades one name for names below it, and a step that
splits a group leaves the names alone and the fragment shorter.
-/

namespace Utterance

open Relation

namespace Worklist

variable {vars : Variables} {f g : Text}

/-- What falls at every step: stray dollar signs, then the names of the
references, then characters. -/
def weight (f : Text) : Nat × Multiset Text × Nat :=
  (strays f, ((references f).map Text.lower : List Text), f.length)

/-- The order in which weights fall. Of two bags of names the one is
below the other when it trades a name for names that it refers to. -/
def Lighter (vars : Variables) : Nat × Multiset Text × Nat → Nat × Multiset Text × Nat → Prop :=
  Prod.Lex (· < ·) (Prod.Lex (CutExpand fun y x => vars.Refers x y) (· < ·))

theorem wellFounded_lighter (h : vars.Acyclic) : WellFounded (Lighter vars) := by
  have : Std.Irrefl fun y x => vars.Refers x y := ⟨fun x hx => h x (.single hx)⟩
  exact WellFounded.prod_lex Nat.lt_wfRel.wf
    (WellFounded.prod_lex (Variables.wellFounded_refers h).cutExpand Nat.lt_wfRel.wf)

theorem count_dollar_enclose (b : Bracket) (w : Text) :
    (b.enclose w).count '$' = w.count '$' := by
  have hopen : b.opening ≠ '$' := by cases b <;> decide
  have hclose : b.closing ≠ '$' := by cases b <;> decide
  simp [Bracket.enclose, hopen, hclose]

/-- A definition without stray dollar signs adds none. -/
theorem strays_enclose {u name v d : Text} (hn : IsIdentifier name)
    (hv : continuesIdentifier v = false) (hd : strays d = 0) :
    strays (u ++ Bracket.round.enclose d ++ v) = strays (u ++ '$' :: name ++ v) := by
  have hf := strays_add_length (u ++ '$' :: name ++ v)
  have hg := strays_add_length (u ++ Bracket.round.enclose d ++ v)
  have hdlen := strays_add_length d
  have hname : name.count '$' = 0 := List.count_eq_zero.2 (dollar_notMem_of_isIdentifier hn)
  rw [references_append_reference hn hv] at hf
  rw [references_enclose] at hg
  simp only [List.count_append, List.count_cons_self, count_dollar_enclose, List.length_append,
    List.length_cons] at hf hg
  omega

/-- Resolving a reference keeps the stray dollar signs and trades its name
for those in the definition. -/
theorem lighter_of_reference {u name v : Text} (hn : IsIdentifier name)
    (hv : continuesIdentifier v = false)
    (hdef : ∀ name definition, vars.get? name = some definition → DollarsRefer definition) :
    Lighter vars (weight (u ++ Bracket.round.enclose ((vars.get? name).getD []) ++ v))
      (weight (u ++ '$' :: name ++ v)) := by
  obtain ⟨d, hd⟩ : ∃ d, (vars.get? name).getD [] = d := ⟨_, rfl⟩
  have hd' : strays d = 0 ∧ ∀ other ∈ references d, vars.Refers name.lower other.lower := by
    cases hget : vars.get? name with
    | none =>
      obtain rfl : [] = d := by simpa [hget] using hd
      exact ⟨rfl, by simp [references]⟩
    | some definition =>
      obtain rfl : definition = d := by simpa [hget] using hd
      exact ⟨dollarsRefer_iff.1 (hdef name definition hget),
        fun other hother => ⟨definition, hget, other, hother, rfl⟩⟩
  rw [hd]
  rw [weight, weight, strays_enclose hn hv hd'.1]
  refine .right _ (.left _ _ ⟨((references d).map Text.lower : List Text), name.lower, ?_, ?_⟩)
  · intro y hy
    obtain ⟨other, hother, rfl⟩ := List.mem_map.1 (Multiset.mem_coe.1 hy)
    exact hd'.2 other hother
  · rw [references_append_reference hn hv, references_enclose]
    simp only [List.map_append, List.map_cons, ← Multiset.coe_add, ← Multiset.cons_coe,
      ← Multiset.singleton_add]
    abel

/-- Splitting a group leaves the references alone and the fragment
shorter, unless a stray dollar sign comes to stand before a name. -/
theorem lighter_of_group {b : Bracket} {u w v x : Text} (hw : IsPlain Fragment.isGroupChar w)
    (hrefs : references (u ++ b.enclose w ++ v) = []) (hx : x ∈ b.choices w) :
    Lighter vars (weight (u ++ x ++ v)) (weight (u ++ b.enclose w ++ v)) := by
  have hxd := Bracket.dollar_notMem_of_mem_choices hw hx
  have hlen := (Bracket.infix_of_mem_choices hx).length_le
  have hcount : (u ++ x ++ v).count '$' = (u ++ b.enclose w ++ v).count '$' := by
    simp only [List.count_append, count_dollar_enclose, List.count_eq_zero.2 hxd,
      List.count_eq_zero.2 hw.dollar_notMem]
  have hf := strays_add_length (u ++ b.enclose w ++ v)
  have hg := strays_add_length (u ++ x ++ v)
  rw [hrefs, List.length_nil] at hf
  -- a name may have come to stand after a stray dollar sign, which then is none
  rcases Nat.eq_zero_or_pos (references (u ++ x ++ v)).length with hnone | hsome
  · have hstrays : strays (u ++ x ++ v) = strays (u ++ b.enclose w ++ v) := by omega
    rw [weight, weight, hstrays, hrefs, List.length_eq_zero_iff.1 hnone]
    refine .right _ (.right _ ?_)
    simp only [List.length_append, Bracket.length_enclose]
    omega
  · exact .left _ _ (by omega)

/-- **Every step makes a fragment lighter**, if the definitions have no
stray dollar signs. -/
theorem lighter_of_mem_successors
    (hdef : ∀ name definition, vars.get? name = some definition → DollarsRefer definition)
    (h : g ∈ (Fragment.classify f).successors vars) : Lighter vars (weight g) (weight f) := by
  rcases Fragment.classify_cases f with
    ⟨hf, -⟩ | ⟨u, name, v, hf, rfl, hn, hv⟩ | ⟨b, u, w, v, hf, rfl, hw, hrefs⟩ | ⟨hf, -⟩
  · simp [hf, Shape.successors] at h
  · rw [hf, Shape.successors_reference, List.mem_singleton] at h
    rw [h]
    exact lighter_of_reference hn hv hdef
  · rw [hf, Shape.successors_ofGroup, List.mem_map] at h
    obtain ⟨x, hx, rfl⟩ := h
    exact lighter_of_group hw (leftmost?_reference?_eq_none.1 hrefs) hx
  · simp [hf, Shape.successors] at h

/-- Every expansion ends where no variable leads back to itself. -/
theorem ends_of_acyclic
    (hdef : ∀ name definition, vars.get? name = some definition → DollarsRefer definition)
    (hacyclic : vars.Acyclic) (f : Text) : Ends vars f := by
  induction f using (InvImage.wf weight (wellFounded_lighter hacyclic)).induction with
  | _ f ih => exact ends_of_successors fun g hg => ih g (lighter_of_mem_successors hdef hg)

/-- **The worklist runs empty**, whatever the template, if every dollar
sign of every definition begins a reference and no variable leads back to
itself. -/
theorem exists_fuel_of_acyclic {vars : Variables}
    (hdef : ∀ name definition, vars.get? name = some definition → DollarsRefer definition)
    (hacyclic : vars.Acyclic) (template : Text) :
    ∃ fuel all, ∀ more, fuel ≤ more → visits vars more template = some all := by
  obtain ⟨depth, all, h⟩ := ends_of_acyclic hdef hacyclic (seed template)
  obtain ⟨fuel, hrun⟩ := exists_run_iff.2 ⟨depth, h⟩
  exact ⟨fuel, all, fun more hmore => run_mono hrun hmore⟩

/-- Two definitions, one leading to the other, and a stray dollar sign
that comes to stand before either name. -/
theorem exists_fuel_of_acyclic_stray :
    let vars := Variables.ofList
      [("who".toList, "you [all]".toList), ("Greet".toList, "(hi|hello) $WHO".toList)]
    (∀ name definition, vars.get? name = some definition → DollarsRefer definition) ∧
      vars.Acyclic ∧
      ∃ fuel all, ∀ more, fuel ≤ more → visits vars more "$(greet|who) $".toList = some all := by
  intro vars
  have hdef : ∀ name definition, vars.get? name = some definition → DollarsRefer definition := by
    have hentries : ∀ entry ∈ vars.entries, DollarsRefer entry.2 := by decide
    exact fun name definition h => hentries _ (Variables.mem_entries_of_lookup h)
  have hacyclic : vars.Acyclic := Variables.acyclic_of_rank List.length (by decide)
  exact ⟨hdef, hacyclic, exists_fuel_of_acyclic hdef hacyclic _⟩

end Worklist

end Utterance
