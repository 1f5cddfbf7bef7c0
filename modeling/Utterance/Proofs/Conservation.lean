import Utterance.Proofs.Leaves
import Utterance.Proofs.References

/-!
# Conservation — what no step of an expansion loses

A step takes one construct out of a fragment and puts a text in its place
(`Fragment.mem_successors`), so whatever no construct holds is passed on
from fragment to fragment: the characters that have no place in a template
(`strangers_sublist`), and the surplus of opening over closing brackets
(`Bracket.surplus_eq`). Since every branch ends in a leaf, a property that
every step keeps and no concrete fragment has leaves a template without a
sentence and with a report (`Template.ExpandsTo.rejects`). Bad text is
therefore neither dropped nor does it spoil only some of the sentences
(`Template.ExpandsTo.rejects_bad_text`).
-/

namespace Utterance

open Worklist

variable {template : Template} {vars : Variables} {slots : Option (List Slot)}
  {collection : Option Text} {run : Run}

/-- **A property that every step keeps and no concrete fragment has** leaves
no sentence and at least one report, and every report has it. -/
theorem Template.ExpandsTo.rejects {P : Text → Prop}
    (h : template.ExpandsTo vars slots collection run) (hseed : P (seed template.text))
    (hstep : ∀ f, P f → ∀ g ∈ (Fragment.classify f).successors vars, P g)
    (hconcrete : ∀ f, P f → ¬ IsPlain isLiteral f) :
    run.sentences = [] ∧ (∃ f, run.Rejects f) ∧ ∀ f, run.Rejects f → P f := by
  obtain ⟨depth, visits, hbranch, rfl⟩ := expandsTo_iff.1 h
  have hleaves := forall_leaves hstep hbranch hseed
  have hnone : ∀ g ∈ visits.filterMap Visit.leaf?, Fragment.isConcrete g = false := by
    intro g hg
    rw [Bool.eq_false_iff, Ne, Fragment.isConcrete_iff]
    exact hconcrete g (hleaves g hg)
  refine ⟨?_, ?_, ?_⟩
  · rw [Run.sentences, sentences_eq_filter_leaves hbranch, List.filter_eq_nil_iff]
    intro g hg
    simp [IsSentence, hnone g hg]
  · obtain ⟨g, hg⟩ := exists_leaf hbranch
    exact ⟨g, Run.rejects_iff.2 ((stuckFragment_mem_findings hbranch).2 ⟨hg, hnone g hg⟩)⟩
  · intro f hf
    exact hleaves f ((stuckFragment_mem_findings hbranch).1 (Run.rejects_iff.1 hf)).1

/-! ## Characters without a place in a template -/

/-- The characters that a template may be made of. -/
def isTemplateChar (c : Char) : Bool :=
  isLiteral c || ['_', '<', '>', '$', '(', ')', '[', ']', '|'].contains c

/-- All other characters of a text, in order. -/
def strangers (s : Text) : Text :=
  s.filter fun c => !isTemplateChar c

@[simp] theorem strangers_append (s t : Text) :
    strangers (s ++ t) = strangers s ++ strangers t :=
  List.filter_append s t

theorem strangers_eq_nil {s : Text} (h : ∀ c ∈ s, isTemplateChar c = true) : strangers s = [] := by
  rw [strangers, List.filter_eq_nil_iff]
  intro c hc
  simp [h c hc]

theorem isTemplateChar_of_isIdentChar {c : Char} (h : isIdentChar c = true) :
    isTemplateChar c = true := by
  simp only [isIdentChar, Bool.or_eq_true, beq_iff_eq] at h
  rcases h with (h | rfl) | rfl
  · simp [isTemplateChar, isLiteral, h]
  · decide
  · decide

theorem isTemplateChar_of_isGroupChar {c : Char} (h : Fragment.isGroupChar c = true) :
    isTemplateChar c = true := by
  simp only [Fragment.isGroupChar, Bool.or_eq_true, beq_iff_eq] at h
  rcases h with h | rfl
  · simp [isTemplateChar, h]
  · decide

/-- A plain text has no strangers. -/
theorem strangers_of_isPlain {plain : Char → Bool} {s : Text}
    (hplain : ∀ c, plain c = true → isTemplateChar c = true) (hs : IsPlain plain s) :
    strangers s = [] := by
  refine strangers_eq_nil fun c hc => ?_
  rcases hs.mem hc with h | rfl | rfl | h
  · exact hplain c h
  · decide
  · decide
  · exact isTemplateChar_of_isIdentChar h

@[simp] theorem strangers_enclose (b : Bracket) (w : Text) :
    strangers (b.enclose w) = strangers w := by
  cases b <;> simp [Bracket.enclose, Bracket.opening, Bracket.closing, strangers, isTemplateChar]

theorem strangers_reference {name : Text} (hn : IsIdentifier name) :
    strangers ('$' :: name) = [] := by
  refine strangers_eq_nil fun c hc => ?_
  rcases List.mem_cons.1 hc with rfl | hc
  · decide
  · exact isTemplateChar_of_isIdentChar (isIdentChar_of_isIdentifier hn c hc)

/-- **No step loses a stranger**, and none changes their order. -/
theorem strangers_sublist {f g : Text} (h : g ∈ (Fragment.classify f).successors vars) :
    (strangers f).Sublist (strangers g) := by
  rcases Fragment.mem_successors h with
    ⟨u, name, v, rfl, hn, rfl⟩ | ⟨b, u, w, v, x, rfl, hw, -, rfl⟩
  · simp only [strangers_append, strangers_reference hn, List.append_nil]
    exact (List.sublist_append_left _ _).append_right _
  · have hgroup := strangers_of_isPlain (fun _ => isTemplateChar_of_isGroupChar) hw
    simp only [strangers_append, strangers_enclose, hgroup, List.append_nil]
    exact (List.sublist_append_left _ _).append_right _

/-! ## Brackets without a partner -/

/-- A text with as many opening as closing brackets of each kind. -/
def EvenBrackets (s : Text) : Prop :=
  ∀ b : Bracket, s.count b.opening = s.count b.closing

instance : DecidablePred EvenBrackets := fun s =>
  decidable_of_iff (s.count '(' = s.count ')' ∧ s.count '[' = s.count ']')
    ⟨fun h b => by cases b; exacts [h.1, h.2], fun h => ⟨h .round, h .square⟩⟩

namespace Bracket

/-- How many more opening than closing brackets a text has. -/
def surplus (b : Bracket) (s : Text) : Int :=
  s.count b.opening - s.count b.closing

theorem surplus_eq_zero {b : Bracket} {s : Text} :
    b.surplus s = 0 ↔ s.count b.opening = s.count b.closing := by
  unfold surplus
  omega

@[simp] theorem surplus_append (b : Bracket) (s t : Text) :
    b.surplus (s ++ t) = b.surplus s + b.surplus t := by
  simp only [surplus, List.count_append]
  omega

/-- Brackets around a text come in a pair. -/
@[simp] theorem surplus_enclose (b b' : Bracket) (w : Text) :
    b.surplus (b'.enclose w) = b.surplus w := by
  cases b <;> cases b' <;>
    simp [surplus, enclose, opening, closing]

theorem surplus_of_notMem {b : Bracket} {s : Text} (hopen : b.opening ∉ s)
    (hclose : b.closing ∉ s) : b.surplus s = 0 := by
  rw [surplus_eq_zero, List.count_eq_zero.2 hopen, List.count_eq_zero.2 hclose]

theorem surplus_of_isPlain {b : Bracket} {s : Text} (hs : IsPlain Fragment.isGroupChar s) :
    b.surplus s = 0 :=
  surplus_of_notMem (hs.opening_notMem b) (hs.closing_notMem b)

theorem surplus_reference {b : Bracket} {name : Text} (hn : IsIdentifier name) :
    b.surplus ('$' :: name) = 0 := by
  have hchars : ∀ c ∈ '$' :: name, c ≠ b.opening ∧ c ≠ b.closing := by
    intro c hc
    rcases List.mem_cons.1 hc with rfl | hc
    · cases b <;> decide
    · have hident := isIdentChar_of_isIdentifier hn c hc
      constructor
      · rintro rfl
        cases b <;> revert hident <;> decide
      · rintro rfl
        cases b <;> revert hident <;> decide
  exact surplus_of_notMem (fun h => (hchars _ h).1 rfl) fun h => (hchars _ h).2 rfl

/-- **No step changes the surplus** where the definitions have none. -/
theorem surplus_eq {b : Bracket} {f g : Text}
    (hdef : ∀ name definition, vars.get? name = some definition → EvenBrackets definition)
    (h : g ∈ (Fragment.classify f).successors vars) : b.surplus g = b.surplus f := by
  rcases Fragment.mem_successors h with
    ⟨u, name, v, rfl, hn, rfl⟩ | ⟨b', u, w, v, x, rfl, hw, hx, rfl⟩
  · have hput : b.surplus ((vars.get? name).getD []) = 0 := by
      cases hget : vars.get? name with
      | none => rfl
      | some definition => exact surplus_eq_zero.2 (hdef name definition hget b)
    simp only [surplus_append, surplus_enclose, surplus_reference hn, hput]
  · have hchoice : b.surplus x = 0 := by
      have hsub := (infix_of_mem_choices hx).subset
      exact surplus_of_notMem (fun hm => hw.opening_notMem b (hsub hm))
        fun hm => hw.closing_notMem b (hsub hm)
    simp only [surplus_append, surplus_enclose, surplus_of_isPlain hw, hchoice]

end Bracket

/-! ## Bad text -/

/-- **Bad text neither disappears nor spoils only some of the sentences.** A
template with strangers yields no sentence, something is reported, and
whatever is reported still holds all of them in order. A template whose
brackets are not even yields no sentence either, and something is reported,
if the brackets of all definitions are. -/
theorem Template.ExpandsTo.rejects_bad_text
    (h : template.ExpandsTo vars slots collection run) :
    ((∃ c ∈ template.text, isTemplateChar c = false) →
      run.sentences = [] ∧ (∃ f, run.Rejects f) ∧
        ∀ f, run.Rejects f → (strangers template.text).Sublist f) ∧
    ((∀ name definition, vars.get? name = some definition → EvenBrackets definition) →
      ¬ EvenBrackets template.text →
      run.sentences = [] ∧ ∃ f, run.Rejects f) := by
  constructor
  · rintro ⟨c, hc, hstrange⟩
    have hmem : c ∈ strangers template.text := List.mem_filter.2 ⟨hc, by simp [hstrange]⟩
    have hseed : (strangers template.text).Sublist (strangers (seed template.text)) := by
      rw [seed_eq, strangers_enclose]
    have hconcrete : ∀ f, (strangers template.text).Sublist (strangers f) →
        ¬ IsPlain isLiteral f := by
      intro f hsub hf
      have hnone := strangers_of_isPlain (fun _ => isTemplateChar_of_isGroupChar) hf.of_literal
      rw [hnone] at hsub
      simpa using hsub.subset hmem
    obtain ⟨hs, hex, hall⟩ := h.rejects hseed (fun f hf g hg => hf.trans (strangers_sublist hg))
      hconcrete
    exact ⟨hs, hex, fun f hf => (hall f hf).trans List.filter_sublist⟩
  · intro hdef hodd
    obtain ⟨b, hb⟩ := not_forall.1 hodd
    have hseed : b.surplus (seed template.text) ≠ 0 := by
      rwa [seed_eq, Bracket.surplus_enclose, Ne, Bracket.surplus_eq_zero]
    have hstep : ∀ f, b.surplus f ≠ 0 →
        ∀ g ∈ (Fragment.classify f).successors vars, b.surplus g ≠ 0 := by
      intro f hf g hg
      rwa [Bracket.surplus_eq hdef hg]
    have hconcrete : ∀ f, b.surplus f ≠ 0 → ¬ IsPlain isLiteral f :=
      fun f hf hplain => hf (Bracket.surplus_of_isPlain hplain.of_literal)
    obtain ⟨hs, hex, -⟩ := h.rejects hseed hstep hconcrete
    exact ⟨hs, hex⟩

/-- Strangers on both sides of a reference, and a bracket that closes
nothing. -/
theorem Template.ExpandsTo.rejects_bad_text_stray :
    let vars := Variables.ofList [("x".toList, "a|[b]".toList)]
    let template : Template := { text := "hi! $X] ?|c".toList }
    ∃ run, template.ExpandsTo vars none none run ∧
      (∃ c ∈ template.text, isTemplateChar c = false) ∧
      (∀ name definition, vars.get? name = some definition → EvenBrackets definition) ∧
      ¬ EvenBrackets template.text ∧
      run.sentences = [] ∧ (∃ f, run.Rejects f) ∧
      ∀ f, run.Rejects f → "!?".toList.Sublist f := by
  intro vars template
  have hsome : (Run.of 20 vars none none template).isSome = true := by decide +kernel
  obtain ⟨run, hrun⟩ := Option.isSome_iff_exists.1 hsome
  have hexpands : template.ExpandsTo vars none none run := ⟨20, hrun⟩
  have hstrange : ∃ c ∈ template.text, isTemplateChar c = false := ⟨'!', by decide⟩
  have hdef : ∀ name definition, vars.get? name = some definition → EvenBrackets definition := by
    have hentries : ∀ entry ∈ vars.entries, EvenBrackets entry.2 := by decide
    exact fun name definition h => hentries _ (Variables.mem_entries_of_lookup h)
  have hodd : ¬ EvenBrackets template.text := by decide
  obtain ⟨hfirst, hsecond⟩ := Template.ExpandsTo.rejects_bad_text hexpands
  exact ⟨run, hexpands, hstrange, hdef, hodd, (hsecond hdef hodd).1, (hsecond hdef hodd).2,
    (hfirst hstrange).2.2⟩

end Utterance
