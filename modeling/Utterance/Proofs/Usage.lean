import Utterance.Proofs.Meaning
import Utterance.Proofs.Names
import Mathlib.Data.List.TakeWhile

/-!
# Usage — which declared variables can be used

A line may declare a variable under any name of letters, digits, underscores
and hyphens, and a reference reads an identifier, which begins with a letter
or an underscore. A template that is the one reference to a declared
identifier becomes its definition between round brackets in its first step,
and expands as that does from there on (`Template.expandsAs_reference`). A
dollar sign in front of any other name is no reference, and the template is
stuck at once (`Template.rejects_stray`). So a declared variable can be used
exactly if its name is an identifier (`Workspace.usable_iff_identifier`).
-/

namespace Utterance

/-! ## Declared variables -/

/-- **After some sources the last definition of a name counts**, wherever it
was declared. -/
theorem Model.lookup_foldl_extend (key : Text) (sources : List Source) (m : Model) :
    (sources.foldl Model.extend m).vars.entries.lookup key =
      ((sources.flatMap Source.declarations).filterMap fun d => d.line.defines? key).getLast?.or
        (m.vars.entries.lookup key) := by
  induction sources generalizing m with
  | nil => rfl
  | cons s rest ih =>
    have hfirst := extendFrom_last (fun m => m.vars.entries.lookup key) _ (lookup_effect key)
      s.name none s.declarations m
    rw [List.foldl_cons, ih, extend, hfirst, List.flatMap_cons, List.filterMap_append,
      List.getLast?_append, Option.or_assoc]

/-! ## References to them -/

/-- **Two templates expand alike**: the expansion of the one ends if that of
the other does, and then they yield the same sentences and report the same
findings, each in the same order. -/
def Template.ExpandsAs (t t' : Template) (vars : Variables) (slots : Option (List Slot))
    (collection : Option Text) : Prop :=
  ((∃ run, t.ExpandsTo vars slots collection run) ↔
    ∃ run, t'.ExpandsTo vars slots collection run) ∧
  ∀ run run', t.ExpandsTo vars slots collection run → t'.ExpandsTo vars slots collection run' →
    run.sentences = run'.sentences ∧
      run.diagnostics.map Diagnostic.finding = run'.diagnostics.map Diagnostic.finding

variable {vars : Variables} {slots : Option (List Slot)} {collection : Option Text}
  {t t' : Template} {name definition : Text}

theorem Run.map_finding_diagnostics (run : Run) :
    run.diagnostics.map Diagnostic.finding = run.findings.eraseDups := by
  rw [diagnostics_eq, List.map_map]
  exact List.map_id _

/-- A template expands as another one if its expansion is a first visit that
yields and finds nothing, and then that of the other. -/
theorem Template.expandsAs_of_next
    (hnext : (Visit.of (Worklist.seed t.text)).next vars = [Worklist.seed t'.text])
    (hsentence : (Visit.of (Worklist.seed t.text)).sentence? = none)
    (hfindings : (Visit.of (Worklist.seed t.text)).findings vars slots = []) :
    t.ExpandsAs t' vars slots collection := by
  have hbranch (depth : Nat) : Worklist.branch vars (depth + 1) (Worklist.seed t.text) =
      (Worklist.branch vars depth (Worklist.seed t'.text)).map
        (Visit.of (Worklist.seed t.text) :: ·) := by
    rw [Worklist.branch_eq, hnext, Worklist.branches_singleton]
  constructor
  · constructor
    · rintro ⟨run, hrun⟩
      obtain ⟨depth, visits, hvisits, -⟩ := expandsTo_iff.1 hrun
      have hmore := Worklist.branch_mono hvisits (Nat.le_succ depth)
      rw [hbranch] at hmore
      obtain ⟨rest, hrest, -⟩ := Option.map_eq_some_iff.1 hmore
      exact ⟨_, expandsTo_iff.2 ⟨depth, rest, hrest, rfl⟩⟩
    · rintro ⟨run, hrun⟩
      obtain ⟨depth, visits, hvisits, -⟩ := expandsTo_iff.1 hrun
      exact ⟨_, expandsTo_iff.2 ⟨depth + 1, _, by rw [hbranch, hvisits]; rfl, rfl⟩⟩
  · intro run run' hrun hrun'
    obtain ⟨depth, visits, hvisits, rfl⟩ := expandsTo_iff.1 hrun'
    have hfirst : t.ExpandsTo vars slots collection _ :=
      expandsTo_iff.2 ⟨depth + 1, _, by rw [hbranch, hvisits]; rfl, rfl⟩
    rw [hrun.unique hfirst]
    constructor
    · simp [Run.sentences, hsentence]
    · rw [Run.map_finding_diagnostics, Run.map_finding_diagnostics]
      simp [Run.findings, hfindings]

/-- **A reference alone expands as its definition between round brackets.** -/
theorem Template.expandsAs_reference (hn : IsIdentifier name)
    (hdefined : vars.get? name = some definition) (ht : t.text = '$' :: name)
    (ht' : t'.text = '(' :: definition ++ [')']) : t.ExpandsAs t' vars slots collection := by
  have hseed : Worklist.seed t.text = ['('] ++ '$' :: name ++ [')'] := by simp [Worklist.seed, ht]
  have hclass : Fragment.classify (Worklist.seed t.text) = .reference ['('] name [')'] := by
    rw [hseed]
    exact Fragment.classify_reference (by decide) hn rfl
  apply Template.expandsAs_of_next
  · rw [Visit.next, Visit.of, hclass, Shape.successors_reference, hdefined, ht']
    simp [Worklist.seed, Bracket.enclose, Bracket.opening, Bracket.closing]
  · rw [Visit.sentence?, Visit.of, hclass]
  · simp only [Visit.findings, Visit.of, hclass, hdefined]

/-- Nothing can be resolved in a name that is no identifier, behind a dollar
sign and between brackets. -/
theorem Fragment.classify_stray (hchars : ∀ c ∈ name, isIdentChar c = true)
    (hn : ¬ IsIdentifier name) : classify (Worklist.seed ('$' :: name)) = .stuck := by
  have hdollar : '$' ∉ name := fun hd => absurd (hchars _ hd) (by decide)
  have hseed : Worklist.seed ('$' :: name) = '(' :: '$' :: (name ++ [')']) := rfl
  have hreferences : references (Worklist.seed ('$' :: name)) = [] := by
    have hnone : identifier? (name ++ [')']) = none := by
      refine identifier?_eq_none.2 ?_
      cases name with
      | nil => rfl
      | cons c name =>
        rw [Bool.eq_false_iff]
        exact fun hstart => hn ⟨by simpa using hstart, fun d hd => hchars d (by simp [hd])⟩
    rw [hseed, references_cons_of_ne (by decide), references_dollar, hnone,
      references_of_notMem (by simp [hdollar])]
    rfl
  rcases classify_cases (Worklist.seed ('$' :: name)) with
    ⟨-, hplain⟩ | ⟨u, other, v, -, heq, hother, hv⟩ | ⟨b, u, w, v, -, heq, hw, -⟩ | ⟨hstuck, -⟩
  · exact absurd hplain.of_literal.dollar_notMem (by simp [hseed])
  · rw [heq, references_append_reference hother hv] at hreferences
    simp at hreferences
  · -- the only opening bracket is the first one, and the dollar sign comes next
    exfalso
    rw [hseed, Bracket.enclose] at heq
    cases u with
    | nil =>
      have hinside : '$' :: (name ++ [')']) = w ++ b.closing :: v := by
        simpa using (List.cons.inj heq).2
      cases w with
      | nil => cases b <;> simp [Bracket.closing] at hinside
      | cons c w =>
        obtain rfl := (List.cons.inj hinside).1
        exact hw.dollar_notMem (by simp)
    | cons c u =>
      have hopening : b.opening ∈ '$' :: (name ++ [')']) := by
        rw [(List.cons.inj heq).2]
        simp
      have hname : b.opening ∉ name := fun hb => absurd (hchars _ hb) (by cases b <;> decide)
      have hsigns : b.opening ≠ '$' ∧ b.opening ≠ ')' := by cases b <;> decide
      simp [hname, hsigns] at hopening
  · exact hstuck

/-- **A dollar sign before any other name** is stuck in its first step. -/
theorem Template.rejects_stray (hchars : ∀ c ∈ name, isIdentChar c = true)
    (hn : ¬ IsIdentifier name) (ht : t.text = '$' :: name) :
    ∃ run, t.ExpandsTo vars slots collection run ∧ run.sentences = [] ∧
      run.diagnostics.map Diagnostic.finding =
        [.stuckFragment ('(' :: '$' :: name ++ [')'])] := by
  have hclass : Fragment.classify (Worklist.seed t.text) = .stuck := by
    rw [ht]
    exact Fragment.classify_stray hchars hn
  have hvisit : Visit.of (Worklist.seed t.text) = ⟨Worklist.seed t.text, .stuck⟩ := by
    rw [Visit.of, hclass]
  have hbranch : Worklist.branch vars 1 (Worklist.seed t.text) =
      some [⟨Worklist.seed t.text, .stuck⟩] := by
    rw [Worklist.branch_eq, hvisit]
    rfl
  refine ⟨_, expandsTo_iff.2 ⟨1, _, hbranch, rfl⟩, rfl, ?_⟩
  rw [Run.map_finding_diagnostics]
  simp [Run.findings, Visit.findings, Worklist.seed, ht, List.eraseDups_cons]

/-! ## Declared variables -/

/-- **A declared variable can be used exactly if its name is an
identifier.** Among the declarations of the accepted sources, take the last
one of a name, however the name is written. The reference to an identifier
expands as the definition does between round brackets; where the name begins
with a digit or a hyphen, the expansion of the reference ends with no
sentence and reports one stuck fragment. -/
theorem Workspace.usable_iff_identifier (w : Workspace) (sources : List Source)
    {before after : List Declaration} {name gap : Text} {definition : Spaced} {span : Span}
    (hsources : (accepted w.limit sources).flatMap Source.declarations =
      before ++ ⟨.definition name gap definition, span⟩ :: after)
    (hlast : ∀ d ∈ after, d.line.defines? name.lower = none) (template : Template)
    (slots : Option (List Slot)) (collection : Option Text) :
    let vars := (w.addAll sources).2.model.vars
    let reference : Template := { template with text := '$' :: name }
    let enclosed : Template := { template with text := '(' :: definition.text ++ [')'] }
    (IsIdentifier name → reference.ExpandsAs enclosed vars slots collection) ∧
      (¬ IsIdentifier name →
        ∃ run, reference.ExpandsTo vars slots collection run ∧ run.sentences = [] ∧
          run.diagnostics.map Diagnostic.finding =
            [.stuckFragment ('(' :: '$' :: name ++ [')'])]) := by
  intro vars reference enclosed
  constructor
  · intro hn
    have hrest : (after.filterMap fun d => d.line.defines? name.lower) = [] :=
      List.filterMap_eq_nil_iff.2 hlast
    have hdefined : vars.get? name = some definition.text := by
      change (w.addAll sources).2.model.vars.entries.lookup name.lower = _
      rw [addAll_eq, Model.lookup_foldl_extend, hsources, List.filterMap_append,
        List.filterMap_cons, hrest]
      simp [Line.defines?]
    exact Template.expandsAs_reference hn hdefined rfl rfl
  · intro hn
    obtain ⟨s, -, hs⟩ := List.mem_flatMap.1 (hsources ▸ List.mem_append_right before
      (List.mem_cons_self ..) : ⟨.definition name gap definition, span⟩ ∈
        (accepted w.limit sources).flatMap Source.declarations)
    obtain ⟨-, hchars⟩ : name ≠ [] ∧ ∀ c ∈ name, isIdentChar c = true :=
      Source.wellNamed_of_mem_declarations hs
    exact Template.rejects_stray hchars hn rfl

/-- A variable that is defined anew in another source, in another spelling,
and one whose name begins with a digit. -/
theorem Workspace.usable_iff_identifier_redefined :
    let first : Source := ⟨"Room = attic\n2nd = floor".toList, "first".toList⟩
    let second : Source := ⟨"INTENT: Go\nROOM = kitchen|$hall\n$room\nhall = big hall".toList,
      "second".toList⟩
    let vars := (({} : Workspace).addAll [first, second]).2.model.vars
    let expands (text : String) : Template := { text := text.toList }
    vars.get? "room".toList = some "kitchen|$hall".toList ∧
      (expands "$ROOM").ExpandsAs (expands "(kitchen|$hall)") vars none none ∧
      ∃ run, (expands "$2nd").ExpandsTo vars none none run ∧ run.sentences = [] ∧
        run.diagnostics.map Diagnostic.finding = [.stuckFragment "($2nd)".toList] := by
  intro first second vars expands
  let declared := (accepted ({} : Workspace).limit [first, second]).flatMap Source.declarations
  have hroom : declared = declared.take 3 ++
      ⟨.definition "ROOM".toList [' '] ⟨[' '], "kitchen|$hall".toList⟩, ⟨11, 31, 2, 1⟩⟩ ::
        declared.drop 4 := by
    decide +kernel
  have hsecond : declared = declared.take 1 ++
      ⟨.definition "2nd".toList [' '] ⟨[' '], "floor".toList⟩, ⟨13, 24, 2, 1⟩⟩ ::
        declared.drop 2 := by
    decide +kernel
  obtain ⟨hused, -⟩ := usable_iff_identifier {} [first, second] hroom (by decide +kernel)
    (expands "") none none
  obtain ⟨-, hstray⟩ := usable_iff_identifier {} [first, second] hsecond (by decide +kernel)
    (expands "") none none
  exact ⟨by decide +kernel, hused (identifier?_eq_self_iff.1 (by decide +kernel)),
    hstray (mt identifier?_eq_self_iff.2 (by decide +kernel))⟩

/-- **A variable may be declared that cannot be used**: a source that defines
`1st` is accepted, and yet the reference yields nothing and is reported,
where the definition between round brackets yields a sentence. -/
theorem Workspace.unusable_definition :
    let source : Source := ⟨"1st = a".toList, "s".toList⟩
    let loaded := ({} : Workspace).addAll [source]
    let vars := loaded.2.model.vars
    let reference : Template := { text := "$1st".toList }
    let enclosed : Template := { text := "(a)".toList }
    loaded.1 = [.ok ()] ∧
      source.declarations.map Declaration.line =
        [.definition "1st".toList [' '] ⟨[' '], "a".toList⟩] ∧
      vars.get? "1st".toList = some "a".toList ∧
      (∃ run, reference.ExpandsTo vars none none run ∧ run.sentences = [] ∧
        run.findings = [.stuckFragment "($1st)".toList]) ∧
      (∃ run, enclosed.ExpandsTo vars none none run ∧ run.sentences = ["a".toList] ∧
        run.findings = []) ∧
      ¬ reference.ExpandsAs enclosed vars none none := by
  intro source loaded vars reference enclosed
  have hloaded : loaded.1 = [.ok ()] := by
    have hsize : ¬ ({} : Workspace).limit < source.text.byteSize := by decide +kernel
    have herrors : source.errors = [] := by decide +kernel
    rw [show loaded = _ from addAll_eq .., List.map_singleton, Source.verdict, if_neg hsize,
      herrors]
  have hreference : (Run.of 10 vars none none reference).map
      (fun run => (run.sentences, run.findings)) =
        some ([], [.stuckFragment "($1st)".toList]) := by
    decide +kernel
  have henclosed : (Run.of 10 vars none none enclosed).map
      (fun run => (run.sentences, run.findings)) = some (["a".toList], []) := by
    decide +kernel
  obtain ⟨run, hof, hyields⟩ := Option.map_eq_some_iff.1 hreference
  obtain ⟨hsentences, hfindings⟩ := Prod.mk.inj hyields
  obtain ⟨run', hof', hyields'⟩ := Option.map_eq_some_iff.1 henclosed
  obtain ⟨hsentences', hfindings'⟩ := Prod.mk.inj hyields'
  refine ⟨hloaded, by decide +kernel, by decide +kernel, ⟨run, ⟨10, hof⟩, hsentences, hfindings⟩,
    ⟨run', ⟨10, hof'⟩, hsentences', hfindings'⟩, fun halike => ?_⟩
  have hsame := (halike.2 run run' ⟨10, hof⟩ ⟨10, hof'⟩).1
  rw [hsentences, hsentences'] at hsame
  cases hsame

end Utterance
