import Utterance.Proofs.Branches
import Utterance.Proofs.Groups
import Mathlib.Data.Multiset.Bind

/-!
# Leaves — the fragments in which a branch ends

A branch ends in fragments in which nothing can be resolved. Those that
are concrete and not empty are its sentences, and those that are not
concrete are reported (`sentences_eq_filter_leaves`,
`stuckFragment_mem_findings`). The leaves of a fragment in which a
construct is resolved are those of the fragments it leaves
(`leaves_of_successors`). Without dollar signs every step makes a fragment
shorter, so that every branch ends (`ends_of_notMem`).
-/

namespace Utterance

/-- The fragment of a visit that leaves nothing to visit. -/
def Visit.leaf? (visit : Visit) : Option Text :=
  match visit.shape with
  | .concrete | .stuck => some visit.fragment
  | _ => none

theorem Visit.fragment_of_leaf? {visit : Visit} {f : Text} (h : visit.leaf? = some f) :
    visit.fragment = f := by
  unfold leaf? at h
  split at h
  · exact Option.some.inj h
  · exact Option.some.inj h
  · cases h

/-- A leaf that is a sentence. -/
def IsSentence (f : Text) : Prop :=
  Fragment.isConcrete f = true ∧ f ≠ []

instance : DecidablePred IsSentence := fun _ => inferInstanceAs (Decidable (_ ∧ _))

/-- A run reports a fragment in which nothing can be resolved. -/
def Run.Rejects (run : Run) (f : Text) : Prop :=
  ∃ d ∈ run.diagnostics, d.finding = .stuckFragment f

theorem Run.rejects_iff {run : Run} {f : Text} :
    run.Rejects f ↔ .stuckFragment f ∈ run.findings := by
  simp [Run.Rejects, Run.diagnostics_eq, Diagnostic.of]

namespace Fragment

theorem isConcrete_of_classify {f : Text} (h : classify f = .concrete) : isConcrete f = true := by
  rcases classify_cases f with ⟨-, hf⟩ | ⟨_, _, _, hf, -⟩ | ⟨b, _, _, _, hf, -⟩ | ⟨hf, -⟩
  · exact isConcrete_iff.2 hf
  · rw [hf] at h; cases h
  · rw [hf] at h; cases b <;> cases h
  · rw [hf] at h; cases h

/-- A fragment that is no leaf leaves something to visit. -/
theorem leaf_or_mem_successors (vars : Variables) (f : Text) :
    (Visit.of f).leaf? = some f ∨ ∃ g, g ∈ (classify f).successors vars := by
  rcases classify_cases f with
    ⟨h, -⟩ | ⟨u, name, v, h, -⟩ | ⟨b, u, w, v, h, -⟩ | ⟨h, -⟩
  · exact .inl (by rw [Visit.leaf?, Visit.of, h])
  · rw [h, Shape.successors_reference]
    exact .inr ⟨_, List.mem_singleton_self _⟩
  · obtain ⟨x, hx⟩ := List.exists_mem_of_ne_nil _ (b.choices_ne_nil w)
    rw [h, Shape.successors_ofGroup]
    exact .inr ⟨_, List.mem_map_of_mem hx⟩
  · exact .inl (by rw [Visit.leaf?, Visit.of, h])

theorem isConcrete_of_stuck {f : Text} (h : classify f = .stuck) : isConcrete f = false := by
  rw [Bool.eq_false_iff]
  intro hc
  rw [classify_of_isPlain (isConcrete_iff.1 hc)] at h
  cases h

end Fragment

/-- **A visit finishes its fragment** if that is a sentence. -/
theorem Visit.sentence?_of (f : Text) :
    (Visit.of f).sentence? = if IsSentence f then some f else none := by
  unfold sentence?
  split
  · rename_i hc
    have hconcrete := Fragment.isConcrete_of_classify hc
    cases f <;> simp [Visit.of, IsSentence, hconcrete]
  · rename_i hc
    have hno : ¬ IsSentence f := fun h =>
      hc (Fragment.classify_of_isPlain (Fragment.isConcrete_iff.1 h.1))
    rw [if_neg hno]

namespace Worklist

variable {vars : Variables} {depth : Nat} {visits : List Visit} {f : Text}

/-- **The sentences of a branch are among its leaves**: those that are
concrete and not empty. -/
theorem sentences_eq_filter_leaves (h : branch vars depth f = some visits) :
    visits.filterMap Visit.sentence? =
      (visits.filterMap Visit.leaf?).filter fun g => IsSentence g := by
  rw [List.filter_filterMap]
  refine List.filterMap_congr fun visit hv => ?_
  rw [(forall_mem_branch (fun _ _ _ _ => trivial) h trivial visit hv).1, Visit.sentence?_of]
  generalize visit.fragment = g
  by_cases hg : IsSentence g
  · have hc := Fragment.classify_of_isPlain (Fragment.isConcrete_iff.1 hg.1)
    simp [Visit.of, Visit.leaf?, Option.filter, hc, hg]
  · cases hc : Fragment.classify g <;> simp [Visit.of, Visit.leaf?, Option.filter, hc, hg]

private theorem stuckFragment_mem_findings_of {slots : Option (List Slot)} (f g : Text) :
    .stuckFragment g ∈ (Visit.of f).findings vars slots ↔
      (Visit.of f).leaf? = some g ∧ Fragment.isConcrete g = false := by
  cases hf : Fragment.classify f with
  | concrete =>
    have hc := Fragment.isConcrete_of_classify hf
    have hleaf : (Visit.of f).leaf? = some f := by simp [Visit.of, Visit.leaf?, hf]
    have hno : .stuckFragment g ∉ (Visit.of f).findings vars slots := by
      cases slots <;> simp [Visit.of, Visit.findings, hf]
    rw [hleaf, Option.some.injEq]
    exact ⟨fun h => absurd h hno, fun ⟨heq, h⟩ => absurd (heq ▸ hc) (by simp [h])⟩
  | reference u name v =>
    cases hname : vars.get? name <;>
      simp [Visit.of, Visit.findings, Visit.leaf?, hf, hname]
  | stuck =>
    have hc := Fragment.isConcrete_of_stuck hf
    simp only [Visit.of, Visit.findings, Visit.leaf?, hf, List.mem_singleton,
      Finding.stuckFragment.injEq, Option.some.injEq]
    exact ⟨fun h => ⟨h.symm, h ▸ hc⟩, fun h => h.1.symm⟩
  | _ => simp [Visit.of, Visit.findings, Visit.leaf?, hf]

/-- **The reports of a branch are its other leaves.** -/
theorem stuckFragment_mem_findings {slots : Option (List Slot)} {g : Text}
    (h : branch vars depth f = some visits) :
    .stuckFragment g ∈ visits.flatMap (Visit.findings vars slots) ↔
      g ∈ visits.filterMap Visit.leaf? ∧ Fragment.isConcrete g = false := by
  have hvisit : ∀ visit ∈ visits, (.stuckFragment g ∈ visit.findings vars slots ↔
      visit.leaf? = some g ∧ Fragment.isConcrete g = false) := fun visit hv => by
    rw [(forall_mem_branch (fun _ _ _ _ => trivial) h trivial visit hv).1]
    exact stuckFragment_mem_findings_of _ g
  rw [List.mem_flatMap, List.mem_filterMap]
  constructor
  · rintro ⟨visit, hv, hg⟩
    obtain ⟨hleaf, hc⟩ := (hvisit visit hv).1 hg
    exact ⟨⟨visit, hv, hleaf⟩, hc⟩
  · rintro ⟨⟨visit, hv, hleaf⟩, hc⟩
    exact ⟨visit, hv, (hvisit visit hv).2 ⟨hleaf, hc⟩⟩

/-- What every step keeps, the leaves have. -/
theorem forall_leaves {P : Text → Prop}
    (hstep : ∀ f, P f → ∀ g ∈ (Fragment.classify f).successors vars, P g)
    (h : branch vars depth f = some visits) (hf : P f) :
    ∀ g ∈ visits.filterMap Visit.leaf?, P g := by
  intro g hg
  obtain ⟨visit, hv, hleaf⟩ := List.mem_filterMap.1 hg
  obtain ⟨hvisit, hP⟩ := forall_mem_branch hstep h hf visit hv
  rwa [Visit.fragment_of_leaf? hleaf] at hP

/-- **Every branch has a leaf.** -/
theorem exists_leaf (h : branch vars depth f = some visits) :
    ∃ g, g ∈ visits.filterMap Visit.leaf? := by
  induction depth generalizing f visits with
  | zero => simp [branch] at h
  | succ depth ih =>
    obtain ⟨rest, hrest, rfl⟩ := branch_succ.1 h
    rcases Fragment.leaf_or_mem_successors vars f with hleaf | ⟨g, hg⟩
    · exact ⟨f, List.mem_filterMap.2 ⟨_, List.mem_cons_self, hleaf⟩⟩
    · obtain ⟨part, hpart, hsub⟩ := subset_branches hrest (List.mem_reverse.2 hg)
      obtain ⟨x, hx⟩ := ih hpart
      obtain ⟨visit, hv, hleaf⟩ := List.mem_filterMap.1 hx
      exact ⟨x, List.mem_filterMap.2 ⟨visit, List.mem_cons_of_mem _ (hsub hv), hleaf⟩⟩

/-! ## The leaves of a fragment -/

open Classical in
/-- The leaves of the branch of a fragment, if it ends. -/
noncomputable def leaves (vars : Variables) (f : Text) : Multiset Text :=
  if h : Ends vars f then (h.choose_spec.choose.filterMap Visit.leaf? : List Text) else 0

/-- The leaves can be read off any branch that ends. -/
theorem leaves_eq (h : branch vars depth f = some visits) :
    leaves vars f = (visits.filterMap Visit.leaf? : List Text) := by
  have hends : Ends vars f := ⟨depth, visits, h⟩
  rw [leaves, dif_pos hends, branch_unique hends.choose_spec.choose_spec h]

theorem leaves_of_branches {stack : List Text} (h : branches vars depth stack = some visits) :
    (visits.filterMap Visit.leaf? : Multiset Text) =
      (stack : Multiset Text).bind (leaves vars) := by
  induction stack generalizing visits with
  | nil =>
    obtain rfl : [] = visits := by simpa using h
    rfl
  | cons g stack ih =>
    obtain ⟨first, rest, h1, h2, rfl⟩ := branches_cons.1 h
    rw [List.filterMap_append, ← Multiset.coe_add, ih h2, ← leaves_eq h1, ← Multiset.cons_coe,
      Multiset.cons_bind]

/-- **What is left after a step has the same leaves.** -/
theorem leaves_of_successors (hleaf : (Visit.of f).leaf? = none)
    (hends : ∀ g ∈ (Fragment.classify f).successors vars, Ends vars g) :
    leaves vars f =
      ((Fragment.classify f).successors vars : Multiset Text).bind (leaves vars) := by
  obtain ⟨depth, rest, hrest⟩ := exists_branches fun g hg => hends g (List.mem_reverse.1 hg)
  rw [leaves_eq (branch_succ.2 ⟨rest, hrest, rfl⟩), List.filterMap_cons_none hleaf,
    leaves_of_branches hrest, Multiset.coe_reverse]

/-- A leaf has no other leaf than itself. -/
theorem leaves_of_leaf (hleaf : (Visit.of f).leaf? = some f)
    (hnone : (Fragment.classify f).successors vars = []) : leaves vars f = {f} := by
  have hbranch : branch vars 1 f = some [Visit.of f] :=
    branch_succ.2 ⟨[], by simp [Visit.next, Visit.of, hnone], rfl⟩
  rw [leaves_eq hbranch, List.filterMap_cons_some hleaf]
  rfl

/-! ## Leaves without dollar signs -/

theorem dollar_notMem_successors {g : Text} (hf : '$' ∉ f)
    (hg : g ∈ (Fragment.classify f).successors vars) : '$' ∉ g ∧ g.length < f.length := by
  rcases Fragment.mem_successors hg with
    ⟨u, name, v, rfl, -⟩ | ⟨b, u, w, v, x, rfl, hw, hx, rfl⟩
  · simp at hf
  · have hlen := (Bracket.infix_of_mem_choices hx).length_le
    simp only [List.mem_append, not_or] at hf ⊢
    refine ⟨⟨⟨hf.1.1, Bracket.dollar_notMem_of_mem_choices hw hx⟩, hf.2⟩, ?_⟩
    simp only [List.length_append, Bracket.length_enclose]
    omega

/-- **Without dollar signs every expansion ends.** -/
theorem ends_of_notMem (hf : '$' ∉ f) : Ends vars f := by
  induction hn : f.length using Nat.strong_induction_on generalizing f with
  | _ n ih =>
    subst hn
    refine ends_of_successors fun g hg => ?_
    obtain ⟨hd, hlt⟩ := dollar_notMem_successors hf hg
    exact ih g.length hlt hd rfl

end Worklist

end Utterance
