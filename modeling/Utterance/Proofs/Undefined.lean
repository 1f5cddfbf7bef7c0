import Utterance.Proofs.Inlining

/-!
# Undefined variables — reported in reading order

A template is read from left to right, and at each reference to a variable
with a definition the reading goes down into the definition. The names without
a definition that are met in this way are the ones that an expansion reports
(`Variables.Meets`). The expansion has no reading: it puts in the definition of
the leftmost reference and searches the new text from its beginning. But
while no dollar sign is left behind, all that stands before the leftmost
reference has been read, so that the next one found is the next one met
(`Traversal.exists_resolves`). The groups are split when all references
are gone, and then no more variables are reported
(`Template.reports_undefined`).
-/

namespace Utterance

open Relation

/-! ## Reading references -/

theorem DollarsRefer.of_append {s t : Text} (h : DollarsRefer (s ++ t)) : DollarsRefer t :=
  fun p q ht => h (s ++ p) q (by rw [ht, List.append_assoc])

theorem dollar_notMem_of_references {s : Text} (hs : DollarsRefer s) (hnone : references s = []) :
    '$' ∉ s := by
  have h := strays_add_length s
  rw [dollarsRefer_iff.1 hs, hnone] at h
  exact List.count_eq_zero.1 h.symm

/-- Before the first reference of a text stands no dollar sign, if every dollar
sign begins a reference. -/
theorem exists_eq_of_references_cons {s name : Text} {names : List Text} (hs : DollarsRefer s)
    (h : references s = name :: names) :
    ∃ u v, s = u ++ ('$' :: name ++ v) ∧ '$' ∉ u ∧ IsIdentifier name ∧
      continuesIdentifier v = false ∧ references v = names := by
  induction s with
  | nil => cases h
  | cons c r ih =>
    by_cases hc : c = '$'
    · subst hc
      have hstart : r.head?.any isIdentStart = true := hs [] r rfl
      obtain ⟨⟨first, v⟩, hr⟩ : ∃ found, identifier? r = some found := by
        rw [← Option.ne_none_iff_exists', Ne, identifier?_eq_none, hstart]
        simp
      obtain ⟨rfl, hfirst, hv⟩ := identifier?_eq_some.1 hr
      rw [references_dollar, hr,
        references_append_of_notMem (dollar_notMem_of_isIdentifier hfirst)] at h
      obtain ⟨rfl, rfl⟩ := List.cons.inj h
      exact ⟨[], v, rfl, by simp, hfirst, hv, rfl⟩
    · rw [references_cons_of_ne hc] at h
      obtain ⟨u, v, rfl, hu, hrest⟩ := ih (hs.of_append (s := [c])) h
      exact ⟨c :: u, v, rfl, by simp [hu, Ne.symm hc], hrest⟩

namespace Variables

variable {vars : Variables}

/-- **The names without a definition that are met** when some references are
read from left to right, and the definition of each one that has a definition
is read where the reference stands. -/
inductive Meets (vars : Variables) : List Text → List Text → Prop
  /-- There is nothing to read. -/
  | nil : Meets vars [] []
  /-- A name without a definition is met. -/
  | unknown {name : Text} {names met : List Text} :
      vars.get? name = none → Meets vars names met → Meets vars (name :: names) (name :: met)
  /-- A definition is read first, and then what follows its name. -/
  | known {name definition : Text} {names inner met : List Text} :
      vars.get? name = some definition → Meets vars (references definition) inner →
      Meets vars names met → Meets vars (name :: names) (inner ++ met)

/-- Some references can be read if the definitions of their names can. -/
theorem exists_meets_of {names : List Text} (h : ∀ name ∈ names, ∀ definition,
      vars.get? name = some definition → ∃ inner, vars.Meets (references definition) inner) :
    ∃ met, vars.Meets names met := by
  induction names with
  | nil => exact ⟨[], .nil⟩
  | cons name names ih =>
    obtain ⟨met, hmet⟩ := ih fun other hother => h other (by simp [hother])
    cases hname : vars.get? name with
    | none => exact ⟨_, .unknown hname hmet⟩
    | some definition =>
      obtain ⟨inner, hinner⟩ := h name (by simp) definition hname
      exact ⟨_, .known hname hinner hmet⟩

/-- **Every reading comes to an end** if no variable leads back to itself. -/
theorem exists_meets (hacyclic : vars.Acyclic) (names : List Text) :
    ∃ met, vars.Meets names met := by
  have hreads (x : Text) : ∀ definition, vars.entries.lookup x = some definition →
      ∃ inner, vars.Meets (references definition) inner := by
    induction x using (wellFounded_refers hacyclic).induction with
    | _ x ih =>
      intro definition hx
      exact exists_meets_of fun other hother =>
        ih other.lower ⟨definition, hx, other, hother, rfl⟩
  exact exists_meets_of fun name _ => hreads name.lower

/-- What the definition of a reference reaches, the text with the reference
reaches. -/
theorem Reaches.of_definition {s name definition reached : Text} (hname : name ∈ references s)
    (hdef : vars.get? name = some definition) (h : vars.Reaches definition reached) :
    vars.Reaches s reached := by
  obtain ⟨other, hother, x, hx, hl⟩ := h
  exact ⟨name, hname, x, hx.head ⟨definition, hdef, other, hother, rfl⟩, hl⟩

theorem Reaches.mono {s t reached : Text} (hsub : references t ⊆ references s)
    (h : vars.Reaches t reached) : vars.Reaches s reached := by
  obtain ⟨name, hname, hreached⟩ := h
  exact ⟨name, hsub hname, hreached⟩

end Variables

/-! ## Putting in the definitions -/

namespace Traversal

variable {vars : Variables} {slots : Option (List Slot)} {s s' t t' : Text}
  {found found' : List Finding}

/-- In some number of steps one text makes way for another one without dollar
signs, and on the way this is found. No reference stands before the text, and
its last name does not run on. -/
def Resolves (vars : Variables) (slots : Option (List Slot)) (s s' : Text)
    (found : List Finding) : Prop :=
  '$' ∉ s' ∧ ∃ steps, ∀ u v depth, '$' ∉ u → continuesIdentifier v = false →
    expand vars slots (depth + steps) (u ++ (s ++ v)) =
      (expand vars slots depth (u ++ (s' ++ v))).map (tell found)

theorem resolves_of_notMem (hs : '$' ∉ s) : Resolves vars slots s s [] :=
  ⟨hs, 0, fun _ _ _ _ _ => Option.map_id'.symm⟩

/-- One text is resolved and then the one after it. -/
theorem Resolves.append (h : Resolves vars slots s s' found) (h' : Resolves vars slots t t' found')
    (ht : continuesIdentifier t = false) :
    Resolves vars slots (s ++ t) (s' ++ t') (found ++ found') := by
  obtain ⟨hs', steps, hstep⟩ := h
  obtain ⟨ht', steps', hstep'⟩ := h'
  refine ⟨by simp [hs', ht'], steps' + steps, fun u v depth hu hv => ?_⟩
  have htv := continuesIdentifier_append ht hv
  calc expand vars slots (depth + (steps' + steps)) (u ++ (s ++ t ++ v))
    _ = (expand vars slots (depth + steps') (u ++ s' ++ (t ++ v))).map (tell found) := by
      rw [← Nat.add_assoc, List.append_assoc s, hstep u _ _ hu htv, List.append_assoc u]
    _ = ((expand vars slots depth (u ++ s' ++ (t' ++ v))).map (tell found')).map
          (tell found) := by
      rw [hstep' (u ++ s') v depth (by simp [hu, hs']) hv]
    _ = (expand vars slots depth (u ++ (s' ++ t' ++ v))).map (tell (found ++ found')) := by
      rw [map_tell_map_tell, List.append_assoc u, ← List.append_assoc s']

/-- A reference is resolved with all that its definition refers to. -/
theorem Resolves.reference {name definition definition' : Text} (hn : IsIdentifier name)
    (hdef : (vars.get? name).getD [] = definition)
    (h : Resolves vars slots definition definition' found) :
    Resolves vars slots ('$' :: name) (Bracket.round.enclose definition')
      (vars.unknown name ++ found) := by
  obtain ⟨hd, steps, hstep⟩ := h
  refine ⟨by simpa using hd, steps + 1, fun u v depth hu hv => ?_⟩
  have hclass := Fragment.classify_reference hu hn hv
  have hinside := hstep (u ++ ['(']) (')' :: v) depth (by simp [hu]) rfl
  rw [List.append_assoc u] at hclass
  rw [← Nat.add_assoc, expand_reference hclass, hdef]
  simp only [Bracket.enclose, Bracket.opening, Bracket.closing, List.append_assoc,
    List.cons_append, List.nil_append] at hinside ⊢
  rw [hinside, map_tell_map_tell]

/-- **The expansion reads**: when the references of a text have made way, what
was found are the names that are met. -/
theorem exists_resolves (slots : Option (List Slot)) {names met : List Text}
    (hmeets : vars.Meets names met)
    (hs : DollarsRefer s) (hnames : references s = names)
    (hdefs : ∀ definition, vars.Reaches s definition → DollarsRefer definition) :
    ∃ s', Resolves vars slots s s' (met.map .undefinedVariable) := by
  induction hmeets generalizing s with
  | nil => exact ⟨s, resolves_of_notMem (dollar_notMem_of_references hs hnames)⟩
  | @unknown name names met hname _ ih =>
    obtain ⟨u, v, rfl, hu, hn, hv, hrest⟩ := exists_eq_of_references_cons hs hnames
    obtain ⟨v', hv'⟩ := ih (hs.of_append.of_append) hrest fun definition h =>
      hdefs definition (h.mono (by rw [hnames, hrest]; exact List.subset_cons_self ..))
    have hempty : Resolves vars slots ('$' :: name) _ (vars.unknown name ++ []) :=
      .reference hn (by rw [hname]; rfl) (resolves_of_notMem (s := []) (by simp))
    rw [Variables.unknown, hname] at hempty
    exact ⟨_, (resolves_of_notMem hu).append (hempty.append hv' hv) rfl⟩
  | @known name definition names inner met hname _ _ ihd ihr =>
    obtain ⟨u, v, rfl, hu, hn, hv, hrest⟩ := exists_eq_of_references_cons hs hnames
    have hmem : name ∈ references (u ++ ('$' :: name ++ v)) := hnames ▸ List.mem_cons_self
    obtain ⟨d', hd'⟩ := ihd (hdefs definition ⟨name, hmem, name.lower, .refl, hname⟩) rfl
      fun inside h => hdefs inside (h.of_definition hmem hname)
    obtain ⟨v', hv'⟩ := ihr (hs.of_append.of_append) hrest fun inside h =>
      hdefs inside (h.mono (by rw [hnames, hrest]; exact List.subset_cons_self ..))
    have hgroup : Resolves vars slots ('$' :: name) _ _ := hd'.reference hn (by rw [hname]; rfl)
    rw [Variables.unknown, hname] at hgroup
    rw [List.map_append]
    exact ⟨_, (resolves_of_notMem hu).append (hgroup.append hv' hv) rfl⟩

end Traversal

/-- Only a visit of a reference finds an undefined variable. -/
theorem Visit.dollar_mem_of_undefinedVariable {vars : Variables} {slots : Option (List Slot)}
    {f name : Text} (h : .undefinedVariable name ∈ (Visit.of f).findings vars slots) :
    '$' ∈ f := by
  rcases Fragment.classify_cases f with
    ⟨hf, -⟩ | ⟨u, other, v, -, rfl, -⟩ | ⟨b, u, w, v, hf, -⟩ | ⟨hf, -⟩
  · cases slots <;> simp [Visit.of, Visit.findings, hf] at h
  · simp
  · cases b <;> simp [Visit.of, Visit.findings, hf, Shape.ofGroup] at h
  · simp [Visit.of, Visit.findings, hf] at h

/-- **Without dollar signs no undefined variable is reported.** -/
theorem Traversal.undefinedVariable_notMem {vars : Variables} {slots : Option (List Slot)}
    {f : Text} (hf : '$' ∉ f) {depth : Nat} {t : Traversal}
    (h : expand vars slots depth f = some t) (name : Text) :
    .undefinedVariable name ∉ t.findings := by
  rw [expand_eq, Option.map_eq_some_iff] at h
  obtain ⟨visits, hvisits, rfl⟩ := h
  intro hmem
  obtain ⟨visit, hvisit, hfound⟩ := List.mem_flatMap.1 hmem
  obtain ⟨heq, hnone⟩ := Worklist.forall_mem_branch (P := ('$' ∉ ·))
    (fun f hf g hg => (Worklist.dollar_notMem_successors hf hg).1) hvisits hf visit hvisit
  rw [heq] at hfound
  exact hnone (Visit.dollar_mem_of_undefinedVariable hfound)

/-! ## Templates -/

/-- The expansion of a template ends, and it finds the names that are met before
anything else. -/
theorem Template.exists_expandsTo_of_meets {template : Template} {vars : Variables}
    {met : List Text} (hmet : vars.Meets (references template.text) met)
    (htext : DollarsRefer template.text)
    (hdefs : ∀ definition, vars.Reaches template.text definition → DollarsRefer definition)
    (slots : Option (List Slot)) (collection : Option Text) :
    ∃ run rest, template.ExpandsTo vars slots collection run ∧
      run.findings = met.map .undefinedVariable ++ rest ∧
      ∀ name, .undefinedVariable name ∉ rest := by
  obtain ⟨s, hs, steps, hstep⟩ := Traversal.exists_resolves slots hmet htext rfl hdefs
  have hseed : '$' ∉ ['('] ++ (s ++ [')']) := by simp [hs]
  obtain ⟨depth, visits, hvisits⟩ : Worklist.Ends vars _ := Worklist.ends_of_notMem hseed
  have hsplit : Traversal.expand vars slots depth (['('] ++ (s ++ [')'])) =
      some (Traversal.ofVisits vars slots visits) := by
    rw [Traversal.expand_eq, hvisits, Option.map_some]
  have hall := hstep ['('] [')'] depth (by decide) rfl
  rw [hsplit, Option.map_some] at hall
  obtain ⟨run, hrun, hlists⟩ := exists_expandsTo_of_expand collection hall
  exact ⟨run, _, hrun, congrArg Traversal.findings hlists,
    Traversal.undefinedVariable_notMem hseed hsplit⟩

/-- **Undefined variables are all reported, once, in reading order.** If every
dollar sign of a template and of the definitions it reaches begins a reference,
and no variable leads back to itself, the expansion ends. It first reports the
names without a definition that are met when the template is read from left to
right, each spelling once, where it is first met, and afterwards it reports no
undefined variable. -/
theorem Template.reports_undefined (template : Template) (vars : Variables)
    (slots : Option (List Slot)) (collection : Option Text)
    (htext : DollarsRefer template.text)
    (hdefs : ∀ definition, vars.Reaches template.text definition → DollarsRefer definition)
    (hacyclic : vars.Acyclic) :
    ∃ run, template.ExpandsTo vars slots collection run ∧
      (∃ met, vars.Meets (references template.text) met) ∧
      ∀ met, vars.Meets (references template.text) met →
        ∃ rest, run.diagnostics.map Diagnostic.finding =
            met.eraseDups.map .undefinedVariable ++ rest ∧
          ∀ name, .undefinedVariable name ∉ rest := by
  have hlists {met : List Text} (hmet : vars.Meets (references template.text) met) :=
    exists_expandsTo_of_meets hmet htext hdefs slots collection
  obtain ⟨met, hmet⟩ := Variables.exists_meets hacyclic (references template.text)
  obtain ⟨run, -, hrun, -⟩ := hlists hmet
  refine ⟨run, hrun, ⟨met, hmet⟩, fun met hmet => ?_⟩
  obtain ⟨run', rest, hrun', hfindings, hrest⟩ := hlists hmet
  obtain rfl := hrun.unique hrun'
  refine ⟨(rest.removeAll (met.map .undefinedVariable)).eraseDups, ?_, fun name hmem => ?_⟩
  · have hinjective : Function.Injective Finding.undefinedVariable := fun _ _ h => by simpa using h
    rw [Run.map_finding_diagnostics, hfindings, List.eraseDups_append, eraseDups_map hinjective]
  · exact hrest name (List.mem_filter.1 (List.mem_eraseDups.1 hmem)).1

/-- Definitions inside definitions, two spellings of one name, a repeated name,
and a name in a variant that is not taken; the slot is reported afterwards. -/
theorem Template.reports_undefined_nested :
    let vars := Variables.ofList
      [("A".toList, "x$B[$U]".toList), ("b".toList, "$nope($Nope)".toList)]
    let template : Template := { text := "$b [$A|$a]$MISSING<s>|$nope".toList }
    DollarsRefer template.text ∧
      (∀ definition, vars.Reaches template.text definition → DollarsRefer definition) ∧
      vars.Acyclic ∧
      ∃ run rest, template.ExpandsTo vars (some []) none run ∧
        run.diagnostics.map Diagnostic.finding =
          ["nope", "Nope", "U", "MISSING"].map (.undefinedVariable ·.toList) ++ rest ∧
        ∀ name, .undefinedVariable name ∉ rest := by
  intro vars template
  have htext : DollarsRefer template.text := by decide
  have hdefs : ∀ definition, vars.Reaches template.text definition → DollarsRefer definition := by
    have hentries : ∀ entry ∈ vars.entries, DollarsRefer entry.2 := by decide
    rintro definition ⟨_, -, x, -, hl⟩
    exact hentries _ (Variables.mem_entries_of_lookup hl)
  have hacyclic : vars.Acyclic :=
    Variables.acyclic_of_rank (fun x => if x = ['a'] then 2 else if x = ['b'] then 1 else 0)
      (by decide)
  -- the readings of the definitions, and of the template
  have hb : vars.Meets (references "$nope($Nope)".toList) ["nope".toList, "Nope".toList] := by
    have hnames : references "$nope($Nope)".toList = ["nope".toList, "Nope".toList] := by decide
    rw [hnames]
    exact .unknown (by decide) (.unknown (by decide) .nil)
  have ha : vars.Meets (references "x$B[$U]".toList)
      ["nope".toList, "Nope".toList, "U".toList] := by
    have hnames : references "x$B[$U]".toList = ["B".toList, "U".toList] := by decide
    rw [hnames]
    exact .known (by decide) hb (.unknown (by decide) .nil)
  let met := ["nope", "Nope", "nope", "Nope", "U", "nope", "Nope", "U", "MISSING", "nope"].map
    String.toList
  have hall : vars.Meets (references template.text) met := by
    have hnames : references template.text =
        ["b", "A", "a", "MISSING", "nope"].map String.toList := by decide
    rw [hnames]
    exact .known (by decide) hb (.known (by decide) ha (.known (by decide) ha
      (.unknown (by decide) (.unknown (by decide) .nil))))
  obtain ⟨run, hrun, -, hreports⟩ :=
    reports_undefined template vars (some []) none htext hdefs hacyclic
  obtain ⟨rest, hfindings, hrest⟩ := hreports met hall
  have hfirsts : met.eraseDups = ["nope", "Nope", "U", "MISSING"].map String.toList := by decide
  rw [hfirsts, List.map_map] at hfindings
  exact ⟨htext, hdefs, hacyclic, run, rest, hrun, hfindings, hrest⟩

end Utterance
