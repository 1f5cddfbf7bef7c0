import Utterance.Proofs.Conservation
import Utterance.Proofs.Placeholders

/-!
# Nesting — which brackets the engine accepts

No parser checks the brackets of a template. It is put between round
brackets, groups are split wherever one can be found, and what is left in
the end either is literal or is reported. Which templates come through is
said here by a grammar (`Derives`), and the bridge is a reader with a stack
of open brackets (`nest`): it accepts what the grammar derives
(`derives_sequence_iff`), and splitting a group does not change what it
says about a fragment (`ReadsAs.successors`). So a template comes through as a
whole or not at all, and it does so exactly if it is well nested *between
the round brackets it is put into*. That is the grammar, and in addition
the templates that close the bracket before them and open the one behind
them again (`derives_seed_iff`, `Template.accepts_nested`).
-/

namespace Utterance

open Worklist

/-- The two kinds of phrases of a template. -/
inductive Phrase where
  /-- Sequences with bars between them. -/
  | alternatives
  /-- Literal characters and groups in a row. -/
  | sequence
  deriving Repr, DecidableEq

/-- **The grammar of templates** without references and placeholders. -/
inductive Derives : Phrase → Text → Prop
  /-- The last alternative. -/
  | last {s : Text} : Derives .sequence s → Derives .alternatives s
  /-- An alternative before others. -/
  | bar {s t : Text} :
      Derives .sequence s → Derives .alternatives t → Derives .alternatives (s ++ '|' :: t)
  /-- The end of a sequence. -/
  | nil : Derives .sequence []
  /-- A literal character. -/
  | literal {c : Char} {s : Text} :
      isLiteral c = true → Derives .sequence s → Derives .sequence (c :: s)
  /-- Alternatives between brackets. -/
  | group {b : Bracket} {t s : Text} :
      Derives .alternatives t → Derives .sequence s → Derives .sequence (b.enclose t ++ s)

/-! ## Reading brackets with a stack -/

/-- The brackets that are open after a character, the innermost one first.
A bar stands inside a bracket. -/
def nestChar (stack : List Bracket) (c : Char) : Option (List Bracket) :=
  if isLiteral c then some stack
  else if c = Bracket.round.opening then some (.round :: stack)
  else if c = Bracket.square.opening then some (.square :: stack)
  else match stack with
    | [] => none
    | b :: rest => if c = '|' then some (b :: rest) else if c = b.closing then some rest else none

/-- The brackets that are open after a text, if it can be read. -/
def nest (stack : List Bracket) (s : Text) : Option (List Bracket) :=
  s.foldlM nestChar stack

variable {stack : List Bracket} {s t : Text}

@[simp] theorem nest_nil : nest stack [] = some stack := rfl

@[simp] theorem nest_cons (c : Char) :
    nest stack (c :: s) = (nestChar stack c).bind fun rest => nest rest s := rfl

@[simp] theorem nest_append (stack : List Bracket) (s t : Text) :
    nest stack (s ++ t) = (nest stack s).bind fun rest => nest rest t :=
  List.foldlM_append

theorem nestChar_literal {c : Char} (hc : isLiteral c = true) :
    nestChar stack c = some stack := by
  simp [nestChar, hc]

@[simp] theorem nestChar_opening (b : Bracket) :
    nestChar stack b.opening = some (b :: stack) := by
  cases b <;> rfl

@[simp] theorem nestChar_closing (b : Bracket) :
    nestChar (b :: stack) b.closing = some stack := by
  cases b <;> rfl

@[simp] theorem nestChar_bar (b : Bracket) :
    nestChar (b :: stack) '|' = some (b :: stack) := rfl

/-- **What a character can do**: one case for each kind. -/
theorem nestChar_cases {after : List Bracket} {c : Char} (h : nestChar stack c = some after) :
    (isLiteral c = true ∧ after = stack) ∨ (∃ b, c = Bracket.opening b ∧ after = b :: stack) ∨
    (c = '|' ∧ stack ≠ [] ∧ after = stack) ∨ (∃ b, c = Bracket.closing b ∧ stack = b :: after) := by
  unfold nestChar at h
  split at h
  · rename_i hc
    exact .inl ⟨hc, (Option.some.inj h).symm⟩
  split at h
  · rename_i hc
    exact .inr (.inl ⟨.round, hc, (Option.some.inj h).symm⟩)
  split at h
  · rename_i hc
    exact .inr (.inl ⟨.square, hc, (Option.some.inj h).symm⟩)
  cases stack with
  | nil => cases h
  | cons b rest =>
    simp only at h
    split at h
    · rename_i hc
      exact .inr (.inr (.inl ⟨hc, by simp, (Option.some.inj h).symm⟩))
    split at h
    · rename_i hc
      exact .inr (.inr (.inr ⟨b, hc, by rw [Option.some.inj h]⟩))
    · cases h

theorem nest_of_forall (h : ∀ c ∈ s, nestChar stack c = some stack) :
    nest stack s = some stack := by
  induction s with
  | nil => rfl
  | cons c s ih =>
    have hs : nest stack s = some stack := ih fun d hd => h d (List.mem_cons_of_mem _ hd)
    simp [h c List.mem_cons_self, hs]

/-- Brackets around a text leave the stack as it was. -/
theorem nest_enclose {b : Bracket} (h : nest (b :: stack) s = some (b :: stack)) :
    nest stack (b.enclose s) = some stack := by
  simp [Bracket.enclose, h]

/-- What the grammar derives can be read, alternatives inside a bracket. -/
theorem Derives.nest_eq {phrase : Phrase} (h : Derives phrase s)
    (hin : phrase = .alternatives → stack ≠ []) : nest stack s = some stack := by
  induction h generalizing stack with
  | last _ ih => exact ih (by simp)
  | @bar s t _ _ ihs iht =>
    obtain ⟨b, rest, rfl⟩ := List.exists_cons_of_ne_nil (hin rfl)
    have hs : nest (b :: rest) s = some (b :: rest) := ihs (by simp)
    have ht : nest (b :: rest) t = some (b :: rest) := iht (by simp)
    simp [hs, ht]
  | nil => rfl
  | @literal c s hc _ ih =>
    have hs : nest stack s = some stack := ih (by simp)
    simp [nestChar_literal hc, hs]
  | @group b t s _ _ iht ihs =>
    have ht : nest (b :: stack) t = some (b :: stack) := iht (by simp)
    have hs : nest stack s = some stack := ihs (by simp)
    simp [nest_enclose ht, hs]

/-- A text that closes all brackets of a stack, the innermost one first,
with alternatives before each closing bracket and a sequence at the end. -/
def Closes : List Bracket → Text → Prop
  | [], s => Derives .sequence s
  | b :: rest, s => ∃ t r, s = t ++ b.closing :: r ∧ Derives .alternatives t ∧ Closes rest r

theorem Derives.cons_literal {phrase : Phrase} {c : Char} (hc : isLiteral c = true)
    (h : Derives phrase s) : Derives phrase (c :: s) := by
  cases h with
  | last hs => exact .last (.literal hc hs)
  | bar hs ht => exact .bar (.literal hc hs) ht
  | nil => exact .literal hc .nil
  | literal hd hs => exact .literal hc (.literal hd hs)
  | group ht hs => exact .literal hc (.group ht hs)

theorem Derives.enclose_append {phrase : Phrase} {b : Bracket} (ht : Derives .alternatives t)
    (h : Derives phrase s) : Derives phrase (b.enclose t ++ s) := by
  cases h with
  | last hs => exact .last (.group ht hs)
  | bar hs hr =>
    rw [← List.append_assoc]
    exact .bar (.group ht hs) hr
  | nil => exact .group ht .nil
  | literal hc hs => exact .group ht (.literal hc hs)
  | group hr hs => exact .group ht (.group hr hs)

theorem Closes.cons_literal {c : Char} (hc : isLiteral c = true) (h : Closes stack s) :
    Closes stack (c :: s) := by
  cases stack with
  | nil => exact Derives.cons_literal hc h
  | cons b rest =>
    obtain ⟨t, r, rfl, ht, hr⟩ := h
    exact ⟨c :: t, r, rfl, ht.cons_literal hc, hr⟩

theorem Closes.enclose_append {b : Bracket} (ht : Derives .alternatives t)
    (h : Closes stack s) : Closes stack (b.enclose t ++ s) := by
  cases stack with
  | nil => exact Derives.enclose_append ht h
  | cons b' rest =>
    obtain ⟨t', r, rfl, ht', hr⟩ := h
    exact ⟨b.enclose t ++ t', r, by simp, Derives.enclose_append ht ht', hr⟩

/-- A text after which no bracket is open closes those that were. -/
theorem closes_of_nest (h : nest stack s = some []) : Closes stack s := by
  induction s generalizing stack with
  | nil =>
    obtain rfl : stack = [] := by simpa using h
    exact Derives.nil
  | cons c s ih =>
    rw [nest_cons, Option.bind_eq_some_iff] at h
    obtain ⟨after, hc, hs⟩ := h
    rcases nestChar_cases hc with
      ⟨hlit, rfl⟩ | ⟨b, rfl, rfl⟩ | ⟨rfl, hne, rfl⟩ | ⟨b, rfl, rfl⟩
    · exact (ih hs).cons_literal hlit
    · -- the group that begins here ends where its bracket is closed
      obtain ⟨t, r, rfl, ht, hr⟩ := ih hs
      have hgroup : b.opening :: (t ++ b.closing :: r) = b.enclose t ++ r := by
        simp [Bracket.enclose]
      rw [hgroup]
      exact hr.enclose_append ht
    · obtain ⟨b, rest, rfl⟩ := List.exists_cons_of_ne_nil hne
      obtain ⟨t, r, rfl, ht, hr⟩ := ih hs
      exact ⟨'|' :: t, r, rfl, .bar .nil ht, hr⟩
    · exact ⟨[], s, rfl, .last .nil, ih hs⟩

/-- **The reader accepts what the grammar derives.** -/
theorem derives_sequence_iff : Derives .sequence s ↔ nest [] s = some [] :=
  ⟨fun h => h.nest_eq (by simp), closes_of_nest⟩

/-! ## Fragments -/

/-- A fragment without dollar signs and placeholders, and what the reader
says about it. -/
structure ReadsAs (outcome : Option (List Bracket)) (f : Text) : Prop where
  dollar_notMem : '$' ∉ f
  slot_notMem : '<' ∉ f
  nest_eq : nest [] f = outcome

/-- **Splitting a group changes nothing for the reader.** -/
theorem ReadsAs.successors {outcome : Option (List Bracket)} {vars : Variables} {f g : Text}
    (hf : ReadsAs outcome f) (h : g ∈ (Fragment.classify f).successors vars) :
    ReadsAs outcome g := by
  obtain ⟨hdollar, hslot, rfl⟩ := hf
  rcases Fragment.mem_successors h with
    ⟨u, name, v, rfl, -⟩ | ⟨b, u, w, v, x, rfl, hw, hx, rfl⟩
  · simp at hdollar
  have hsub := (Bracket.infix_of_mem_choices hx).subset
  have hbar := Bracket.bar_notMem_of_mem_choices hx
  have hslotw : '<' ∉ w := fun hm => hslot (by simp [Bracket.enclose, hm])
  have hchars := hw.forall_mem hslotw
  -- inside a bracket the text of the group is skipped, and so is a choice anywhere
  have hinside : ∀ stack, nest stack (b.enclose w) = some stack := by
    intro stack
    refine nest_enclose (nest_of_forall fun c hc => ?_)
    have hgroup := hchars c hc
    simp only [Fragment.isGroupChar, Bool.or_eq_true, beq_iff_eq] at hgroup
    rcases hgroup with hlit | rfl
    · exact nestChar_literal hlit
    · exact nestChar_bar b
  have hchoice : ∀ stack, nest stack x = some stack := by
    intro stack
    refine nest_of_forall fun c hc => nestChar_literal ?_
    have hgroup := hchars c (hsub hc)
    simp only [Fragment.isGroupChar, Bool.or_eq_true, beq_iff_eq] at hgroup
    rcases hgroup with hlit | rfl
    · exact hlit
    · exact absurd hc hbar
  simp only [List.mem_append, not_or] at hdollar hslot
  refine ⟨?_, ?_, ?_⟩
  · simp [hdollar.1.1, hdollar.2, Bracket.dollar_notMem_of_mem_choices hw hx]
  · have hslotx : '<' ∉ x := fun hm => hslotw (hsub hm)
    simp [hslot.1.1, hslot.2, hslotx]
  · simp [hinside, hchoice]

/-- A text with a group in it that can be split. -/
def HasGroup (s : Text) : Prop :=
  ∃ b u w v, s = u ++ Bracket.enclose b w ++ v ∧ IsPlain Fragment.isGroupChar w

theorem HasGroup.append (h : HasGroup s) (p q : Text) : HasGroup (p ++ s ++ q) := by
  obtain ⟨b, u, w, v, rfl, hw⟩ := h
  exact ⟨b, p ++ u, w, v ++ q, by simp, hw⟩

/-- **What the grammar derives is plain or has a group that can be split**:
an innermost one. -/
theorem Derives.isPlain_or_hasGroup {phrase : Phrase} (h : Derives phrase s) :
    IsPlain (match phrase with
      | .alternatives => Fragment.isGroupChar
      | .sequence => isLiteral) s ∨ HasGroup s := by
  induction h with
  | last _ ih => exact ih.imp_left IsPlain.of_literal
  | @bar s t _ _ ihs iht =>
    rcases ihs with hs | hs
    · rcases iht with ht | ht
      · exact .inl (hs.of_literal.append (.char (by decide) ht))
      · have hgroup := ht.append (s ++ ['|']) []
        exact .inr (by simpa using hgroup)
    · exact .inr (hs.append [] ('|' :: t))
  | nil => exact .inl .nil
  | @literal c s hc _ ih =>
    rcases ih with hs | hs
    · exact .inl (.char hc hs)
    · have hgroup := hs.append [c] []
      exact .inr (by simpa using hgroup)
  | @group b t s _ _ iht _ =>
    rcases iht with ht | ht
    · exact .inr ⟨b, [], t, s, by simp, ht⟩
    · have hgroup := ht.append [b.opening] (b.closing :: s)
      exact .inr (by simpa [Bracket.enclose] using hgroup)

/-- A well nested fragment is not stuck. -/
theorem Derives.classify_ne_stuck (h : Derives .sequence s) : Fragment.classify s ≠ .stuck := by
  intro hstuck
  rcases h.isPlain_or_hasGroup with hplain | ⟨b, u, w, v, rfl, hw⟩
  · rw [Fragment.classify_of_isPlain hplain] at hstuck
    cases hstuck
  · rcases Fragment.classify_cases (u ++ b.enclose w ++ v) with
      ⟨hc, -⟩ | ⟨_, _, _, hc, -⟩ | ⟨b', _, _, _, hc, -⟩ | ⟨-, -, -, hnone⟩
    · rw [hstuck] at hc; cases hc
    · rw [hstuck] at hc; cases hc
    · rw [hstuck] at hc; cases b' <;> cases hc
    · exact Fragment.leftmost?_group?_ne_none hw (hnone b)

/-! ## Templates between their brackets -/

/-- A template that closes the bracket before it and opens the one behind
it again, well nested on both sides and in between. -/
def Reopens (s : Text) : Prop :=
  ∃ p m q, s = p ++ ')' :: (m ++ '(' :: q) ∧ Derives .alternatives p ∧ Derives .sequence m ∧
    Derives .alternatives q

/-- A sequence that ends with a closing bracket ends with its group. -/
theorem Derives.eq_append_enclose {b : Bracket} (h : Derives .sequence (s ++ [b.closing])) :
    ∃ m q, s = m ++ b.opening :: q ∧ Derives .sequence m ∧ Derives .alternatives q := by
  obtain ⟨phrase, hphrase⟩ : ∃ phrase, phrase = Phrase.sequence := ⟨_, rfl⟩
  obtain ⟨text, htext⟩ : ∃ text, text = s ++ [b.closing] := ⟨_, rfl⟩
  rw [← hphrase, ← htext] at h
  induction h generalizing s with
  | last _ _ => cases hphrase
  | bar _ _ _ _ => cases hphrase
  | nil => simp at htext
  | @literal c r hc hr ih =>
    cases s with
    | nil =>
      obtain ⟨rfl, -⟩ := List.cons.inj htext
      exact absurd hc (by cases b <;> decide)
    | cons d s =>
      obtain ⟨rfl, hrest⟩ := List.cons.inj htext
      obtain ⟨m, q, rfl, hm, hq⟩ := ih rfl hrest
      exact ⟨c :: m, q, rfl, .literal hc hm, hq⟩
  | @group b' t r ht hr _ ih =>
    rcases List.eq_nil_or_concat' r with rfl | ⟨r', d, rfl⟩
    · have hends : b'.opening :: t ++ [b'.closing] = s ++ [b.closing] := by
        simpa [Bracket.enclose] using htext
      obtain ⟨rfl, hclose⟩ := List.append_inj' hends rfl
      obtain rfl : b' = b := by
        cases b <;> cases b' <;> simp_all [Bracket.closing]
      exact ⟨[], t, rfl, .nil, ht⟩
    · have hends : b'.enclose t ++ r' ++ [d] = s ++ [b.closing] := by simpa using htext
      obtain ⟨rfl, hclose⟩ := List.append_inj' hends rfl
      obtain rfl : d = b.closing := by simpa using hclose
      obtain ⟨m, q, rfl, hm, hq⟩ := ih rfl rfl
      exact ⟨b'.enclose t ++ m, q, by simp, .group ht hm, hq⟩

/-- **What is well nested between round brackets**: the grammar, and the
templates that close these brackets and open them again. -/
theorem derives_seed_iff : Derives .sequence (seed s) ↔ Derives .alternatives s ∨ Reopens s := by
  constructor
  · intro h
    obtain ⟨text, htext⟩ : ∃ text, text = seed s := ⟨_, rfl⟩
    rw [← htext] at h
    cases h with
    | nil => cases htext
    | literal hc _ =>
      obtain ⟨rfl, -⟩ := List.cons.inj htext
      exact absurd hc (by decide)
    | @group b p r hp hr =>
      obtain ⟨hopen, hin⟩ := List.cons.inj htext
      obtain rfl : b = .round := by
        cases b
        · rfl
        · exact absurd hopen (by decide)
      have hin : p ++ ')' :: r = s ++ [')'] := by simpa [Bracket.closing] using hin
      rcases List.eq_nil_or_concat' r with rfl | ⟨r', d, rfl⟩
      · obtain ⟨rfl, -⟩ := List.append_inj' hin rfl
        exact .inl hp
      · have hends : (p ++ ')' :: r') ++ [d] = s ++ [')'] := by simpa using hin
        obtain ⟨rfl, hclose⟩ := List.append_inj' hends rfl
        obtain rfl : d = ')' := by simpa using hclose
        obtain ⟨m, q, rfl, hm, hq⟩ := Derives.eq_append_enclose (b := .round) hr
        exact .inr ⟨p, m, q, rfl, hp, hm, hq⟩
  · rintro (h | ⟨p, m, q, rfl, hp, hm, hq⟩)
    · have hgroup : Derives .sequence (Bracket.round.enclose s ++ []) := .group h .nil
      simpa [seed_eq] using hgroup
    · -- the two groups and what stands between them
      have hshape : seed (p ++ ')' :: (m ++ '(' :: q)) =
          Bracket.round.enclose p ++ (m ++ Bracket.round.enclose q) := by
        simp [seed, Bracket.enclose, Bracket.opening, Bracket.closing]
      have hlast : nest [] (Bracket.round.enclose q) = some [] :=
        nest_enclose (hq.nest_eq (by simp))
      have hrest : Derives .sequence (m ++ Bracket.round.enclose q) := by
        rw [derives_sequence_iff, nest_append, derives_sequence_iff.1 hm]
        exact hlast
      rw [hshape]
      exact .group hp hrest

variable {template : Template} {vars : Variables} {slots : Option (List Slot)}
  {collection : Option Text} {run : Run} {outcome : Option (List Bracket)}

/-- A well nested fragment gives no reason for a report. -/
theorem ReadsAs.findings_eq_nil {f : Text} (h : ReadsAs (some []) f) :
    (Visit.of f).findings vars slots = [] := by
  obtain ⟨hdollar, hslot, hread⟩ := h
  rcases Fragment.classify_cases f with
    ⟨hc, -⟩ | ⟨u, name, v, -, rfl, -⟩ | ⟨b, u, w, v, hc, -⟩ | ⟨hc, -⟩
  · cases slots with
    | none => simp [Visit.findings, Visit.of, hc]
    | some slots =>
      simp [Visit.findings, Visit.of, hc, Slot.undeclared, Sentence.slotNames_of_notMem hslot]
  · simp at hdollar
  · cases b <;> simp [Visit.findings, Visit.of, hc, Shape.ofGroup]
  · exact absurd hc (derives_sequence_iff.2 hread).classify_ne_stuck

/-- A concrete fragment is well nested. -/
theorem ReadsAs.eq_of_isPlain {f : Text} (h : ReadsAs outcome f) (hf : IsPlain isLiteral f) :
    outcome = some [] := by
  rw [← h.nest_eq]
  exact nest_of_forall fun c hc => nestChar_literal (hf.forall_mem h.slot_notMem c hc)

/-- What is well nested between its brackets comes through without a report. -/
theorem Template.ExpandsTo.diagnostics_eq_nil
    (h : template.ExpandsTo vars slots collection run)
    (hseed : ReadsAs (some []) (seed template.text)) : run.diagnostics = [] := by
  obtain ⟨depth, visits, hbranch, rfl⟩ := expandsTo_iff.1 h
  have hnone : visits.flatMap (Visit.findings vars slots) = [] := by
    rw [List.flatMap_eq_nil_iff]
    intro visit hv
    obtain ⟨hvisit, hreads⟩ :=
      forall_mem_branch (fun _ hf _ hg => hf.successors hg) hbranch hseed visit hv
    rw [hvisit]
    exact hreads.findings_eq_nil
  rw [Run.diagnostics_eq, Run.findings, hnone]
  rfl

/-- What is not is rejected. -/
theorem Template.ExpandsTo.rejects_of_reads (h : template.ExpandsTo vars slots collection run)
    (hseed : ReadsAs outcome (seed template.text)) (hne : outcome ≠ some []) :
    run.sentences = [] ∧ ∃ f, run.Rejects f := by
  obtain ⟨hsentences, hex, -⟩ := h.rejects hseed (fun _ hf _ hg => hf.successors hg)
    fun _ hf hplain => hne (hf.eq_of_isPlain hplain)
  exact ⟨hsentences, hex⟩

/-- **A template comes through as a whole or not at all.** One without
dollar signs and opening angle brackets expands without any report if the
grammar derives it, or if it closes the bracket it is put into and opens it
again. If neither, there is no sentence and something is reported. -/
theorem Template.accepts_nested {template : Template} (hdollar : '$' ∉ template.text)
    (hslot : '<' ∉ template.text) (vars : Variables) (slots : Option (List Slot))
    (collection : Option Text) :
    ∃ run, template.ExpandsTo vars slots collection run ∧
      (Derives .alternatives template.text → run.diagnostics = []) ∧
      (Reopens template.text → run.diagnostics = []) ∧
      (¬ Derives .alternatives template.text → ¬ Reopens template.text →
        run.sentences = [] ∧ ∃ f, run.Rejects f) := by
  have hreads : ReadsAs (nest [] (seed template.text)) (seed template.text) :=
    ⟨by simpa [seed] using hdollar, by simpa [seed] using hslot, rfl⟩
  obtain ⟨depth, visits, hbranch⟩ : Ends vars (seed template.text) :=
    ends_of_notMem hreads.dollar_notMem
  have hexpands : template.ExpandsTo vars slots collection _ :=
    expandsTo_iff.2 ⟨depth, visits, hbranch, rfl⟩
  have haccept : Derives .alternatives template.text ∨ Reopens template.text →
      nest [] (seed template.text) = some [] :=
    fun h => derives_sequence_iff.1 (derives_seed_iff.2 h)
  refine ⟨_, hexpands, fun h => ?_, fun h => ?_, fun hno hno' => ?_⟩
  · rw [haccept (.inl h)] at hreads
    exact hexpands.diagnostics_eq_nil hreads
  · rw [haccept (.inr h)] at hreads
    exact hexpands.diagnostics_eq_nil hreads
  · refine hexpands.rejects_of_reads hreads fun h => ?_
    rcases derives_seed_iff.1 (derives_sequence_iff.2 h) with h | h
    · exact hno h
    · exact hno' h

/-- Brackets that cross, beside brackets that do not. -/
theorem Template.accepts_nested_crossed :
    let template : Template := { text := "(a|[b)] (c|d)".toList }
    '$' ∉ template.text ∧ '<' ∉ template.text ∧
      ¬ Derives .alternatives template.text ∧ ¬ Reopens template.text ∧
      ∃ run, template.ExpandsTo (.ofList []) none none run ∧
        run.sentences = [] ∧ ∃ f, run.Rejects f := by
  intro template
  have hdollar : '$' ∉ template.text := by decide
  have hslot : '<' ∉ template.text := by decide
  have hseed : ¬ Derives .sequence (seed template.text) := by
    rw [derives_sequence_iff]
    decide
  rw [derives_seed_iff, not_or] at hseed
  obtain ⟨hno, hno'⟩ := hseed
  obtain ⟨run, hrun, -, -, hreject⟩ :=
    Template.accepts_nested hdollar hslot (.ofList []) none none
  exact ⟨hdollar, hslot, hno, hno', run, hrun, hreject hno hno'⟩

/-- **A template that is not well nested may come through**: this one closes
the bracket it is put into and opens it again. -/
theorem Template.accepts_unopened :
    let template : Template := { text := "a)(b".toList }
    ¬ Derives .alternatives template.text ∧
      ∃ run, template.ExpandsTo (.ofList []) none none run ∧
        run.sentences = ["ab".toList] ∧ run.diagnostics = [] := by
  intro template
  have hno : ¬ Derives .alternatives template.text := by
    intro h
    -- its first bracket does not close the square one that is open
    have hread : nest [.square] template.text = some [.square] := h.nest_eq (by simp)
    exact absurd hread (by decide)
  have hrun : (Run.of 10 (.ofList []) none none template).map
      (fun run => (run.sentences, run.findings)) = some (["ab".toList], []) := by
    decide +kernel
  obtain ⟨run, hof, hyields⟩ := Option.map_eq_some_iff.1 hrun
  obtain ⟨hsentences, hfindings⟩ := Prod.mk.inj hyields
  refine ⟨hno, run, ⟨10, hof⟩, hsentences, ?_⟩
  rw [Run.diagnostics_eq, hfindings]
  rfl

end Utterance
