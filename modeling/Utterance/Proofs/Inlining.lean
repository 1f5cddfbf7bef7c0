import Utterance.Proofs.Recursion
import Utterance.Proofs.Firsts
import Utterance.Proofs.Usage

/-!
# Inlining — a reference may give way to its definition wherever it stands

The expansion always resolves the leftmost reference, and so a reference in
the middle of a text waits for those before it and for all that their
definitions bring in. Until then nothing depends on what it is: the same
references come first in the text with the reference and in the text with the
definition between round brackets (`Fragment.leftmost?_reference?_append`). So
the one expansion stays a single step behind the other one, until the
reference is the leftmost and makes way, and the two fragments are the same
(`Traversal.expand_inline`). Nothing is asked of the text around the reference,
but that the name does not run on (`Template.inline_reference`).
-/

namespace Utterance

/-! ## The leftmost reference -/

namespace Fragment

/-- A reference that begins in a text ends in it, if no name runs on. -/
theorem reference?_append {s t : Text} (hs : s ≠ []) (ht : continuesIdentifier t = false) :
    reference? (s ++ t) = (reference? s).map fun (name, rest) => (name, rest ++ t) := by
  cases s with
  | nil => exact absurd rfl hs
  | cons c s =>
    by_cases hc : c = '$'
    · subst hc
      exact identifier?_append ht
    · simp [reference?, hc]

/-- **The leftmost reference of two texts** is that of the first one, if it has
one, and that of the second one if not. -/
theorem leftmost?_reference?_append {s t : Text} (ht : continuesIdentifier t = false) :
    Text.leftmost? reference? (s ++ t) =
      match Text.leftmost? reference? s with
      | some (u, name, v) => some (u, name, v ++ t)
      | none => (Text.leftmost? reference? t).map fun (u, found) => (s ++ u, found) := by
  induction s with
  | nil => simp [Text.leftmost?_nil, reference?]
  | cons c s ih =>
    rw [List.cons_append, Text.leftmost?_cons, Text.leftmost?_cons, ← List.cons_append,
      reference?_append (List.cons_ne_nil c s) ht, ih]
    cases reference? (c :: s) with
    | some found => rfl
    | none =>
      cases Text.leftmost? reference? s with
      | some found => rfl
      | none => cases Text.leftmost? reference? t <;> rfl

/-- The leftmost reference is the construct that comes next. -/
theorem classify_of_leftmost? {f u name v : Text}
    (h : Text.leftmost? reference? f = some (u, name, v)) :
    classify f = .reference u name v := by
  have hconcrete : isConcrete f = false := by
    obtain ⟨rest, rfl, hr, -⟩ := Text.leftmost?_eq_some.1 h
    obtain ⟨rfl, -⟩ := reference?_eq_some.1 hr
    rw [Bool.eq_false_iff, Ne, isConcrete_iff]
    exact fun hplain => hplain.of_literal.dollar_notMem (by simp)
  rw [classify, hconcrete, h]
  rfl

/-- A reference in the first of two texts comes before all that is in the
second one. -/
theorem classify_append_of_leftmost? {s t u name v : Text}
    (hs : Text.leftmost? reference? s = some (u, name, v)) (ht : continuesIdentifier t = false) :
    classify (s ++ t) = .reference u name (v ++ t) :=
  classify_of_leftmost? (by rw [leftmost?_reference?_append ht, hs])

/-- Where there is none before it, a reference is the next construct. -/
theorem classify_append_reference {s name t : Text} (hs : Text.leftmost? reference? s = none)
    (hn : IsIdentifier name) (ht : continuesIdentifier t = false) :
    classify (s ++ ('$' :: name ++ t)) = .reference s name t := by
  have hhead : Text.leftmost? reference? ('$' :: name ++ t) = some ([], name, t) := by
    rw [List.cons_append, Text.leftmost?_cons, ← List.cons_append,
      reference?_eq_some.2 ⟨rfl, hn, ht⟩]
  refine classify_of_leftmost? ?_
  rw [leftmost?_reference?_append rfl, hs, hhead]
  simp

end Fragment

/-! ## A single step behind -/

/-- What is found when a reference to a name is resolved. -/
def Variables.unknown (vars : Variables) (name : Text) : List Finding :=
  match vars.get? name with
  | some _ => []
  | none => [.undefinedVariable name]

namespace Traversal

/-- A traversal after some more findings. -/
def tell (found : List Finding) (t : Traversal) : Traversal where
  sentences := t.sentences
  findings := found ++ t.findings

theorem map_tell_map_tell (first second : List Finding) (t : Option Traversal) :
    (t.map (tell second)).map (tell first) = t.map (tell (first ++ second)) := by
  cases t <;> simp [tell]

/-- **To resolve a reference** is to go on with its definition in its place. -/
theorem expand_reference {vars : Variables} {slots : Option (List Slot)} {f u name v : Text}
    (h : Fragment.classify f = .reference u name v) (depth : Nat) :
    expand vars slots (depth + 1) f =
      (expand vars slots depth
        (u ++ (Bracket.round.enclose ((vars.get? name).getD []) ++ v))).map
        (tell (vars.unknown name)) := by
  have hshape (d : Text) : u ++ '(' :: d ++ ')' :: v = u ++ (Bracket.round.enclose d ++ v) := by
    simp [Bracket.enclose, Bracket.opening, Bracket.closing]
  have hempty : u ++ '(' :: ')' :: v = u ++ (Bracket.round.enclose [] ++ v) := hshape [] ▸ by simp
  simp only [expand, h, Variables.unknown]
  cases vars.get? name with
  | some definition =>
    simp only [Option.getD_some, hshape]
    exact Option.map_id'.symm
  | none =>
    simp only [Option.getD_none, hempty]
    rfl

/-- One traversal is another one with something more that is found on the
way. -/
structure Tells (told : List Finding) (t t' : Traversal) : Prop where
  /-- The sentences are the same. -/
  sentences : t.sentences = t'.sentences
  /-- The findings are the same but for those that are told. -/
  findings : ∃ before after, t.findings = before ++ told ++ after ∧ t'.findings = before ++ after

/-- What both find first makes no difference. -/
theorem Tells.rel_map_tell {told : List Finding} {t t' : Option Traversal}
    (h : Option.Rel (Tells told) t t') (found : List Finding) :
    Option.Rel (Tells told) (t.map (tell found)) (t'.map (tell found)) := by
  cases h with
  | none => exact .none
  | some h =>
    obtain ⟨before, after, hfindings, hfindings'⟩ := h.findings
    exact .some ⟨h.sentences, found ++ before, after, by simp [tell, hfindings],
      by simp [tell, hfindings']⟩

variable {vars : Variables} {slots : Option (List Slot)} {name q : Text}

/-- A fragment finds more than what it leaves when its next construct is a
reference. -/
theorem rel_expand_reference {f u v : Text} (h : Fragment.classify f = .reference u name v)
    (depth : Nat) :
    Option.Rel (Tells (vars.unknown name)) (expand vars slots (depth + 1) f)
      (expand vars slots depth
        (u ++ (Bracket.round.enclose ((vars.get? name).getD []) ++ v))) := by
  rw [expand_reference h]
  cases expand vars slots depth _ with
  | none => exact .none
  | some t => exact .some ⟨rfl, [], t.findings, rfl, rfl⟩

/-- **The two expansions keep in step**, the one with the reference a single
step behind the one with the definition in its place. The induction is on the
depth, over all texts before the reference: while there is a reference in that
text, both resolve it, and then another text stands before the reference. -/
theorem expand_inline (vars : Variables) (slots : Option (List Slot)) (hn : IsIdentifier name)
    (hq : continuesIdentifier q = false) (depth : Nat) (p : Text) :
    Option.Rel (Tells (vars.unknown name))
      (expand vars slots (depth + 1) (p ++ ('$' :: name ++ q)))
      (expand vars slots depth
        (p ++ (Bracket.round.enclose ((vars.get? name).getD []) ++ q))) := by
  induction depth generalizing p with
  | zero =>
    cases hp : Text.leftmost? Fragment.reference? p with
    | none => exact rel_expand_reference (Fragment.classify_append_reference hp hn hq) 0
    | some found =>
      rw [expand_reference (Fragment.classify_append_of_leftmost? hp rfl)]
      exact .none
  | succ depth ih =>
    cases hp : Text.leftmost? Fragment.reference? p with
    | none => exact rel_expand_reference (Fragment.classify_append_reference hp hn hq) (depth + 1)
    | some found =>
      obtain ⟨u, other, v⟩ := found
      have hrest := ih (u ++ (Bracket.round.enclose ((vars.get? other).getD []) ++ v))
      rw [expand_reference (Fragment.classify_append_of_leftmost? hp rfl),
        expand_reference (Fragment.classify_append_of_leftmost? hp rfl)]
      simp only [List.append_assoc] at hrest ⊢
      exact Tells.rel_map_tell hrest _

/-- A greater depth never changes a finished traversal. -/
theorem expand_mono {depth deeper : Nat} {f : Text} {t : Traversal}
    (h : expand vars slots depth f = some t) (hle : depth ≤ deeper) :
    expand vars slots deeper f = some t := by
  rw [expand_eq, Option.map_eq_some_iff] at h ⊢
  obtain ⟨visits, hvisits, ht⟩ := h
  exact ⟨visits, Worklist.branch_mono hvisits hle, ht⟩

end Traversal

/-! ## Templates -/

/-- What a run lists. -/
def Run.traversal (run : Run) : Traversal where
  sentences := run.sentences
  findings := run.findings

variable {vars : Variables} {slots : Option (List Slot)} {collection : Option Text}

/-- A run lists what the recursion from its template lists. -/
theorem Template.ExpandsTo.traversal {template : Template} {run : Run}
    (h : template.ExpandsTo vars slots collection run) :
    ∃ depth, Traversal.expand vars slots depth (Worklist.seed template.text) =
      some run.traversal := by
  obtain ⟨depth, visits, hvisits, rfl⟩ := expandsTo_iff.1 h
  exact ⟨depth, by rw [Traversal.expand_eq, hvisits]; rfl⟩

/-- Where the recursion from a template ends, so does the expansion. -/
theorem Template.exists_expandsTo_of_expand {template : Template} {depth : Nat} {t : Traversal}
    (collection : Option Text)
    (h : Traversal.expand vars slots depth (Worklist.seed template.text) = some t) :
    ∃ run, template.ExpandsTo vars slots collection run ∧ run.traversal = t := by
  rw [Traversal.expand_eq, Option.map_eq_some_iff] at h
  obtain ⟨visits, hvisits, rfl⟩ := h
  exact ⟨_, expandsTo_iff.2 ⟨depth, visits, hvisits, rfl⟩, rfl⟩

/-- If one recursion keeps a step behind another one, the expansions of the two
templates end alike, and the one finds more than the other. -/
theorem Template.tells_of_behind {template template' : Template} {told : List Finding}
    (collection : Option Text) (h : ∀ depth, Option.Rel (Traversal.Tells told)
      (Traversal.expand vars slots (depth + 1) (Worklist.seed template.text))
      (Traversal.expand vars slots depth (Worklist.seed template'.text))) :
    ((∃ run, template.ExpandsTo vars slots collection run) ↔
      ∃ run, template'.ExpandsTo vars slots collection run) ∧
    ∀ run run', template.ExpandsTo vars slots collection run →
      template'.ExpandsTo vars slots collection run' →
      Traversal.Tells told run.traversal run'.traversal := by
  refine ⟨⟨?_, ?_⟩, ?_⟩
  · rintro ⟨run, hrun⟩
    obtain ⟨depth, ht⟩ := hrun.traversal
    have hrel := h depth
    rw [Traversal.expand_mono ht (Nat.le_succ depth)] at hrel
    cases hother : Traversal.expand vars slots depth (Worklist.seed template'.text) with
    | none => rw [hother] at hrel; cases hrel
    | some t' => exact (exists_expandsTo_of_expand collection hother).imp fun _ h => h.1
  · rintro ⟨run, hrun⟩
    obtain ⟨depth, ht'⟩ := hrun.traversal
    have hrel := h depth
    rw [ht'] at hrel
    cases hother : Traversal.expand vars slots (depth + 1) (Worklist.seed template.text) with
    | none => rw [hother] at hrel; cases hrel
    | some t => exact (exists_expandsTo_of_expand collection hother).imp fun _ h => h.1
  · intro run run' hrun hrun'
    obtain ⟨depth, ht⟩ := hrun.traversal
    obtain ⟨depth', ht'⟩ := hrun'.traversal
    have hrel := h (max depth depth')
    rw [Traversal.expand_mono ht (by omega), Traversal.expand_mono ht' (by omega)] at hrel
    cases hrel with
    | some htells => exact htells

/-- A finding that is told is reported, and all others are reported as they
were. -/
theorem Run.diagnostics_of_tells {run run' : Run} {finding : Finding}
    (h : Traversal.Tells [finding] run.traversal run'.traversal) :
    finding ∈ run.diagnostics.map Diagnostic.finding ∧
      (run.diagnostics.map Diagnostic.finding).filter (· ≠ finding) =
        (run'.diagnostics.map Diagnostic.finding).filter (· ≠ finding) := by
  obtain ⟨before, after, hrun, hrun'⟩ := h.findings
  change run.findings = _ at hrun
  change run'.findings = _ at hrun'
  rw [map_finding_diagnostics, map_finding_diagnostics, hrun, hrun', ← eraseDups_filter,
    ← eraseDups_filter]
  exact ⟨List.mem_eraseDups.2 (by simp), by simp⟩

/-- **A reference may be inlined anywhere.** The template with the reference
expands as the template with the definition between round brackets does,
whatever stands before the reference and after its name, and whatever the
definition is. If the variable is not defined, it expands as the template with
an empty group does, but for the report of the variable. -/
theorem Template.inline_reference (template : Template) (p : Text) {name q : Text}
    (hn : IsIdentifier name) (hq : continuesIdentifier q = false) (vars : Variables)
    (slots : Option (List Slot)) (collection : Option Text) :
    let reference : Template := { template with text := p ++ '$' :: name ++ q }
    let inlined (definition : Text) : Template :=
      { template with text := p ++ '(' :: definition ++ ')' :: q }
    (∀ definition, vars.get? name = some definition →
      reference.ExpandsAs (inlined definition) vars slots collection) ∧
    (vars.get? name = none →
      ((∃ run, reference.ExpandsTo vars slots collection run) ↔
        ∃ run, (inlined []).ExpandsTo vars slots collection run) ∧
      ∀ run run', reference.ExpandsTo vars slots collection run →
        (inlined []).ExpandsTo vars slots collection run' →
        run.sentences = run'.sentences ∧
          .undefinedVariable name ∈ run.diagnostics.map Diagnostic.finding ∧
          (run.diagnostics.map Diagnostic.finding).filter (· ≠ .undefinedVariable name) =
            (run'.diagnostics.map Diagnostic.finding).filter (· ≠ .undefinedVariable name)) := by
  intro reference inlined
  have hclosed : continuesIdentifier (q ++ [')']) = false := continuesIdentifier_append hq rfl
  have hbehind (definition : Text) (hd : (vars.get? name).getD [] = definition) (depth : Nat) :
      Option.Rel (Traversal.Tells (vars.unknown name))
        (Traversal.expand vars slots (depth + 1) (Worklist.seed reference.text))
        (Traversal.expand vars slots depth (Worklist.seed (inlined definition).text)) := by
    have h := Traversal.expand_inline vars slots hn hclosed depth ('(' :: p)
    simpa [hd, reference, inlined, Worklist.seed, Bracket.enclose, Bracket.opening,
      Bracket.closing] using h
  constructor
  · intro definition hdefined
    obtain ⟨hends, hsame⟩ := tells_of_behind collection
      (hbehind definition (by rw [hdefined]; rfl))
    refine ⟨hends, fun run run' hrun hrun' => ?_⟩
    obtain ⟨hsentences, before, after, hfindings, hfindings'⟩ := hsame run run' hrun hrun'
    rw [Variables.unknown, hdefined, List.append_nil] at hfindings
    rw [Run.map_finding_diagnostics, Run.map_finding_diagnostics]
    exact ⟨hsentences, congrArg List.eraseDups (hfindings.trans hfindings'.symm)⟩
  · intro hunknown
    obtain ⟨hends, hsame⟩ := tells_of_behind collection
      (hbehind [] (by rw [hunknown]; rfl))
    rw [Variables.unknown, hunknown] at hsame
    exact ⟨hends, fun run run' hrun hrun' => ⟨(hsame run run' hrun hrun').sentences,
      Run.diagnostics_of_tells (hsame run run' hrun hrun')⟩⟩

/-- Behind a stray dollar sign, which makes references of the variants of the
definition, and behind a reference that is undefined as well. -/
theorem Template.inline_reference_stray :
    let vars := Variables.ofList [("x".toList, "u|v".toList), ("U".toList, "1".toList)]
    let expands (text : String) : Template := { text := text.toList }
    vars.get? "X".toList = some "u|v".toList ∧ vars.get? "W".toList = none ∧
      (expands "g|$$X h").ExpandsAs (expands "g|$(u|v) h") vars none none ∧
      (∃ run, (expands "g|$$X h").ExpandsTo vars none none run ∧
        run.sentences = [" h", "g", "1 h", "g"].map String.toList ∧
        run.findings = [.undefinedVariable "v".toList]) ∧
      ∃ run run', (expands "[g|$v]$W h").ExpandsTo vars none none run ∧
        (expands "[g|$v]() h").ExpandsTo vars none none run' ∧ run.sentences = run'.sentences ∧
        .undefinedVariable "W".toList ∈ run.diagnostics.map Diagnostic.finding := by
  intro vars expands
  have hx : IsIdentifier "X".toList := isIdentifier_singleton (by decide)
  have hw : IsIdentifier "W".toList := isIdentifier_singleton (by decide)
  have hq : continuesIdentifier " h".toList = false := by decide
  obtain ⟨hdefined, -⟩ := inline_reference (expands "") "g|$".toList hx hq vars none none
  obtain ⟨-, hundefined⟩ := inline_reference (expands "") "[g|$v]".toList hw hq vars none none
  have hyields : (Run.of 20 vars none none (expands "g|$$X h")).map
      (fun run => (run.sentences, run.findings)) =
        some ([" h", "g", "1 h", "g"].map String.toList, [.undefinedVariable "v".toList]) := by
    decide +kernel
  obtain ⟨run, hrun, hlists⟩ := Option.map_eq_some_iff.1 hyields
  obtain ⟨hsentences, hfindings⟩ := Prod.mk.inj hlists
  have hunknown : vars.get? "W".toList = none := by decide +kernel
  have hends : (Run.of 20 vars none none (expands "[g|$v]() h")).isSome = true := by
    decide +kernel
  obtain ⟨run₂, hrun₂⟩ := Option.isSome_iff_exists.1 hends
  obtain ⟨hiff, hsame⟩ := hundefined hunknown
  obtain ⟨run₁, hrun₁⟩ := hiff.2 ⟨run₂, 20, hrun₂⟩
  obtain ⟨halike, hreported, -⟩ := hsame run₁ run₂ hrun₁ ⟨20, hrun₂⟩
  exact ⟨by decide +kernel, hunknown, hdefined "u|v".toList (by decide +kernel),
    ⟨run, ⟨20, hrun⟩, hsentences, hfindings⟩, run₁, run₂, hrun₁, ⟨20, hrun₂⟩, halike, hreported⟩

end Utterance
