import Utterance.Proofs.Confluence
import Utterance.Proofs.Placeholders

/-!
# Emission — what a sentence looks like

An expansion that never ends may emit sentences on its way, so what it has
emitted after some steps is read off its first visits (`Run.upTo`); if it
ends, these come to be the run (`Run.eq_upTo`). Every sentence is concrete:
literal text and placeholders, with every angle bracket in a placeholder
that is listed (`ConcreteSentence`). Expanding it once more puts it between
brackets and takes them away again (`Worklist.branch_seed_of_isPlain`), so
that it expands to itself alone (`Run.sentences_expand_to_themselves`).
-/

namespace Utterance

namespace Worklist

/-- The first visits from a stack, whether they empty it or not. -/
def firstVisits (vars : Variables) : (steps : Nat) → (stack : List Text) → List Visit
  | 0, _ => []
  | _ + 1, [] => []
  | steps + 1, fragment :: rest =>
    let visit := Visit.of fragment
    visit :: firstVisits vars steps (visit.next vars ++ rest)

variable {vars : Variables} {fuel steps : Nat} {stack : List Text} {visits : List Visit}

@[simp] theorem firstVisits_nil : firstVisits vars steps [] = [] := by
  cases steps <;> rfl

theorem firstVisits_cons (fragment : Text) :
    firstVisits vars (steps + 1) (fragment :: stack) =
      Visit.of fragment :: firstVisits vars steps ((Visit.of fragment).next vars ++ stack) := rfl

/-- If the steps that are allowed empty the stack, they make the run. -/
theorem firstVisits_of_run (h : run vars fuel stack [] = some visits) :
    firstVisits vars fuel stack = visits := by
  induction fuel generalizing stack visits with
  | zero =>
    cases stack with
    | nil => simpa using h
    | cons fragment stack => cases h
  | succ fuel ih =>
    cases stack with
    | nil => simpa using h
    | cons fragment stack =>
      rw [run_cons_eq_map, Option.map_eq_some_iff] at h
      obtain ⟨rest, hrest, rfl⟩ := h
      rw [firstVisits_cons, ih hrest]

theorem eq_of_mem_firstVisits {visit : Visit} (h : visit ∈ firstVisits vars steps stack) :
    visit = Visit.of visit.fragment := by
  induction steps generalizing stack with
  | zero => cases h
  | succ steps ih =>
    cases stack with
    | nil => cases h
    | cons fragment stack =>
      rw [firstVisits_cons] at h
      rcases List.mem_cons.1 h with rfl | h
      · rfl
      · exact ih h

/-- A plain text between brackets is one group. -/
theorem classify_seed_of_isPlain {s : Text} (hs : IsPlain isLiteral s) :
    Fragment.classify (seed s) = .ofGroup .round [] s [] := by
  have hdollar : '$' ∉ [] ++ Bracket.round.enclose s ++ [] := by
    simp [hs.of_literal.dollar_notMem]
  obtain ⟨b, u, w, v, hclass, heq, hw⟩ :=
    Fragment.classify_append_enclose hs.of_literal hdollar
  -- there is no room for another group
  obtain ⟨rfl, rfl, rfl, rfl⟩ : [] = u ∧ Bracket.round = b ∧ s = w ∧ [] = v := by
    rcases enclose_overlap hs.of_literal hw heq with hsame | ⟨m, -, hv⟩ | ⟨m, hu, -⟩
    · exact hsame
    · simp [Bracket.enclose] at hv
    · simp [Bracket.enclose] at hu
  simpa [seed_eq] using hclass

/-- **A plain text loses the brackets it is put between**, and nothing else
happens to it. -/
theorem branch_seed_of_isPlain {s : Text} (hs : IsPlain isLiteral s) :
    branch vars 2 (seed s) = some [Visit.of (seed s), Visit.of s] := by
  have hbar : ∀ x ∈ [s], '|' ∉ x := by simpa using hs.bar_notMem
  have hchoices : Bracket.round.choices s = [s] := by
    simpa [Bracket.options] using Bracket.choices_intercalate (b := .round) hbar (by simp)
  have hnext : (Visit.of (seed s)).next vars = [s] := by
    simp [Visit.next, Visit.of, classify_seed_of_isPlain hs, hchoices]
  have hlast : (Visit.of s).next vars = [] := by
    simp [Visit.next, Visit.of, Fragment.classify_of_isPlain hs, Shape.successors]
  have hend : branch vars 1 s = some [Visit.of s] := branch_succ.2 ⟨[], by simp [hlast], rfl⟩
  refine branch_succ.2 ⟨[Visit.of s], ?_, rfl⟩
  rw [hnext, branches_singleton, hend]

end Worklist

/-! ## Sentences -/

/-- What the first steps of the expansion of a template come to. -/
def Run.upTo (steps : Nat) (vars : Variables) (slots : Option (List Slot))
    (collection : Option Text) (template : Template) : Run :=
  { template := template, collection := collection, vars := vars, slots := slots,
    visits := Worklist.firstVisits vars steps [Worklist.seed template.text] }

/-- A text that needs no expansion: not empty, made of literal characters
and placeholders, with no angle bracket outside of a placeholder that is
listed and no character that means anything in a template. -/
structure ConcreteSentence (s : Text) : Prop where
  ne_nil : s ≠ []
  plain : IsPlain isLiteral s
  opens_slot : ∀ p q, s = p ++ '<' :: q → ∃ name rest, q = name ++ '>' :: rest ∧
    Sentence.slotNames s = Sentence.slotNames p ++ name :: Sentence.slotNames rest
  closes_slot : ∀ p q, s = p ++ '>' :: q → ∃ before name, p = before ++ '<' :: name ∧
    Sentence.slotNames s = Sentence.slotNames before ++ name :: Sentence.slotNames q
  no_meta : ∀ c ∈ ['$', '(', ')', '[', ']', '|', '{', '}', '\n'], c ∉ s

variable {vars : Variables} {slots : Option (List Slot)} {collection : Option Text}
  {template : Template} {run : Run} {s : Text} {fuel steps : Nat}

/-- **The first steps are the run**, if they end it. -/
theorem Run.eq_upTo (h : Run.of fuel vars slots collection template = some run) :
    run = Run.upTo fuel vars slots collection template := by
  obtain ⟨visits, hvisits, rfl⟩ := Option.map_eq_some_iff.1 h
  rw [Run.upTo, Worklist.firstVisits_of_run hvisits]

theorem IsPlain.concreteSentence (hs : IsPlain isLiteral s) (hne : s ≠ []) :
    ConcreteSentence s where
  ne_nil := hne
  plain := hs
  opens_slot _ _ h := hs.opens_slot (by decide) h
  closes_slot _ _ h := hs.closes_slot (by decide) h
  no_meta c hc hmem := by
    have hplain := hs.mem hmem
    simp only [List.mem_cons, List.not_mem_nil, or_false] at hc
    rcases hc with rfl | rfl | rfl | rfl | rfl | rfl | rfl | rfl | rfl <;>
      exact absurd hplain (by decide)

/-- What is emitted is concrete. -/
theorem Run.concrete_of_mem_sentences
    (h : s ∈ (Run.upTo steps vars slots collection template).sentences) : ConcreteSentence s := by
  obtain ⟨visit, hvisit, hs⟩ := List.mem_filterMap.1 h
  rw [Worklist.eq_of_mem_firstVisits hvisit, Visit.sentence?_of] at hs
  split at hs
  · rename_i hsentence
    obtain rfl := Option.some.inj hs
    exact (Fragment.isConcrete_iff.1 hsentence.1).concreteSentence hsentence.2
  · cases hs

/-- **A concrete sentence expands to itself**, and nothing but its slots can
be missed. -/
theorem ConcreteSentence.expandsTo (hs : ConcreteSentence s) {again : Template}
    (htext : again.text = s) (vars : Variables) (slots : Option (List Slot))
    (collection : Option Text) :
    ∃ run, again.ExpandsTo vars slots collection run ∧ run.sentences = [s] ∧
      ∀ d ∈ run.diagnostics, ∃ name, d.finding = .undefinedSlot name s := by
  have hbranch : Worklist.branch vars 2 (Worklist.seed again.text) =
      some [Visit.of (Worklist.seed s), Visit.of s] := by
    rw [htext, Worklist.branch_seed_of_isPlain hs.plain]
  have hclass := Fragment.classify_of_isPlain hs.plain
  have hgroup := Worklist.classify_seed_of_isPlain hs.plain
  refine ⟨_, expandsTo_iff.2 ⟨2, _, hbranch, rfl⟩, ?_, ?_⟩
  · have hne := hs.ne_nil
    simp [Run.sentences, List.filterMap_cons, Visit.sentence?, Visit.of, hgroup, Shape.ofGroup,
      hclass, hne]
  · intro d hd
    rw [Run.diagnostics_eq] at hd
    obtain ⟨finding, hfinding, rfl⟩ := List.mem_map.1 hd
    have hmem := List.mem_eraseDups.1 hfinding
    -- the group finds nothing, so that it is the sentence that does
    have hlast : finding ∈ (Visit.of s).findings vars slots := by
      simpa [Run.findings, Visit.findings, Visit.of, hgroup, Shape.ofGroup] using hmem
    cases slots with
    | none => simp [Visit.findings, Visit.of, hclass] at hlast
    | some slots =>
      simp only [Visit.findings, Visit.of, hclass, List.mem_map] at hlast
      obtain ⟨name, -, rfl⟩ := hlast
      exact ⟨name, rfl⟩

/-- **Every sentence expands to itself.** Whatever an expansion emits in
some number of steps, also one that never ends, is a concrete sentence. As
a template it expands to this one sentence, whatever the variables, and
neither a variable nor a fragment is reported. -/
theorem Run.sentences_expand_to_themselves
    (h : s ∈ (Run.upTo steps vars slots collection template).sentences) :
    ConcreteSentence s ∧
      ∀ (again : Template) (vars : Variables) (slots : Option (List Slot))
        (collection : Option Text), again.text = s →
        ∃ run, again.ExpandsTo vars slots collection run ∧ run.sentences = [s] ∧
          ∀ d ∈ run.diagnostics, ∃ name, d.finding = .undefinedSlot name s := by
  have hs := Run.concrete_of_mem_sentences h
  exact ⟨hs, fun _ vars slots collection htext => hs.expandsTo htext vars slots collection⟩

/-- A sentence that is emitted before the expansion comes to a reference
that leads back to itself. -/
theorem Run.sentences_expand_to_themselves_endless :
    let vars := Variables.ofList [("x".toList, "$x".toList), ("y".toList, "it's <day-1>".toList)]
    let s := "it's <day-1>".toList
    s ∈ (Run.upTo 6 vars (some []) none { text := "$(x|y)".toList }).sentences ∧
      ConcreteSentence s ∧
      ∃ run, Template.ExpandsTo { text := s } vars none none run ∧ run.sentences = [s] := by
  intro vars s
  have hmem : s ∈ (Run.upTo 6 vars (some []) none { text := "$(x|y)".toList }).sentences := by
    decide +kernel
  obtain ⟨hs, hagain⟩ := Run.sentences_expand_to_themselves hmem
  obtain ⟨run, hrun, hsentences, -⟩ := hagain { text := s } vars none none rfl
  exact ⟨hmem, hs, run, hrun, hsentences⟩

end Utterance
