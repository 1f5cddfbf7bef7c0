import Utterance.Proofs.Leaves
import Mathlib.Data.Set.Lattice

/-!
# Confluence — any group may be split first

A fragment may hold several groups that can be resolved, and the worklist
splits the leftmost round one, or the leftmost square one if no round one
is left. The order does not matter. Two such groups in one text are the
same or stand apart (`enclose_overlap`), so that splitting one leaves the
other where it is, and the leaves of a fragment are those of the fragments
that any of its groups is split into (`Worklist.leaves_append_enclose`).
-/

namespace Utterance

/-- A group either is the next one or ends before the next one begins. -/
private theorem enclose_append_cases {b b' : Bracket} {w v a w' v' : Text}
    (hw : IsPlain Fragment.isGroupChar w) (hw' : IsPlain Fragment.isGroupChar w')
    (h : b.enclose w ++ v = a ++ (b'.enclose w' ++ v')) :
    (a = [] ∧ b = b' ∧ w = w' ∧ v = v') ∨
      ∃ m, a = b.enclose w ++ m ∧ v = m ++ b'.enclose w' ++ v' := by
  have hne : b.closing ≠ b'.opening := by cases b <;> cases b' <;> decide
  have hinj : b.opening = b'.opening → b = b' := by cases b <;> cases b' <;> decide
  simp only [Bracket.enclose, List.cons_append, List.append_assoc, List.nil_append] at h ⊢
  cases a with
  | nil =>
    obtain ⟨hopen, hin⟩ := List.cons.inj h
    obtain rfl := hinj hopen
    obtain ⟨m, rfl, hm⟩ := exists_eq_append_of_notMem (hw.closing_notMem b) hin
    cases m with
    | nil => exact .inl ⟨rfl, rfl, by simp, (List.cons.inj hm).2⟩
    | cons c m =>
      obtain ⟨rfl, -⟩ := List.cons.inj hm
      exact absurd (by simp) (hw'.closing_notMem b)
  | cons c a =>
    obtain ⟨rfl, hin⟩ := List.cons.inj h
    obtain ⟨m, rfl, hm⟩ := exists_eq_append_of_notMem (hw.opening_notMem b') hin
    cases m with
    | nil => exact absurd (List.cons.inj hm).1 hne
    | cons c m =>
      obtain ⟨rfl, rfl⟩ := List.cons.inj hm
      exact .inr ⟨m, by simp, by simp⟩

/-- **Two groups that can be resolved are the same or stand apart**: the
inside of such a group holds no bracket. -/
theorem enclose_overlap {b b' : Bracket} {u w v u' w' v' : Text}
    (hw : IsPlain Fragment.isGroupChar w) (hw' : IsPlain Fragment.isGroupChar w')
    (h : u ++ b.enclose w ++ v = u' ++ b'.enclose w' ++ v') :
    (u = u' ∧ b = b' ∧ w = w' ∧ v = v') ∨
    (∃ m, u' = u ++ b.enclose w ++ m ∧ v = m ++ b'.enclose w' ++ v') ∨
    (∃ m, u = u' ++ b'.enclose w' ++ m ∧ v' = m ++ b.enclose w ++ v) := by
  rw [List.append_assoc, List.append_assoc] at h
  rcases List.append_eq_append_iff.1 h with ⟨a, rfl, ha⟩ | ⟨a, rfl, ha⟩
  · rcases enclose_append_cases hw hw' ha with ⟨rfl, hsame⟩ | ⟨m, rfl, hv⟩
    · exact .inl ⟨by simp, hsame⟩
    · exact .inr (.inl ⟨m, by simp, hv⟩)
  · rcases enclose_append_cases hw' hw ha with ⟨rfl, rfl, rfl, rfl⟩ | ⟨m, rfl, hv⟩
    · exact .inl ⟨by simp, rfl, rfl, rfl⟩
    · exact .inr (.inr ⟨m, by simp, hv⟩)

namespace Worklist

variable {vars : Variables}

theorem leaves_of_group {b : Bracket} {f u w v : Text} (hd : '$' ∉ f)
    (h : Fragment.classify f = .ofGroup b u w v) :
    leaves vars f = (b.choices w : Multiset Text).bind fun x => leaves vars (u ++ x ++ v) := by
  have hleaf : (Visit.of f).leaf? = none := by
    cases b <;> simp [Visit.of, Visit.leaf?, h, Shape.ofGroup]
  rw [leaves_of_successors hleaf fun g hg => ends_of_notMem (dollar_notMem_successors hd hg).1, h,
    Shape.successors_ofGroup, ← Multiset.map_coe, Multiset.bind_map]

/-- Any group of a fragment shorter than the bound may be split first. -/
private def SplitsBelow (vars : Variables) (bound : Nat) : Prop :=
  ∀ (b : Bracket) (u w v : Text), IsPlain Fragment.isGroupChar w → '$' ∉ u ++ b.enclose w ++ v →
    (u ++ b.enclose w ++ v).length < bound →
    leaves vars (u ++ b.enclose w ++ v) =
      (b.choices w : Multiset Text).bind fun x => leaves vars (u ++ x ++ v)

/-- Two groups that stand apart may be split in either order. -/
private theorem bind_leaves_comm (b b' : Bracket) (p m s : Text) {w w' : Text}
    (hw : IsPlain Fragment.isGroupChar w) (hw' : IsPlain Fragment.isGroupChar w')
    (hd : '$' ∉ p ++ b.enclose w ++ m ++ b'.enclose w' ++ s)
    (ih : SplitsBelow vars (p ++ b.enclose w ++ m ++ b'.enclose w' ++ s).length) :
    ((b'.choices w' : Multiset Text).bind fun y =>
        leaves vars (p ++ b.enclose w ++ m ++ y ++ s)) =
      (b.choices w : Multiset Text).bind fun x =>
        leaves vars (p ++ x ++ m ++ b'.enclose w' ++ s) := by
  simp only [List.mem_append, not_or] at hd
  obtain ⟨⟨⟨⟨hdp, hdw⟩, hdm⟩, hdw'⟩, hds⟩ := hd
  -- with either group split, the other one still stands in a shorter fragment
  have behind : ∀ y ∈ b'.choices w', leaves vars (p ++ b.enclose w ++ m ++ y ++ s) =
      (b.choices w : Multiset Text).bind fun x => leaves vars (p ++ x ++ m ++ y ++ s) := by
    intro y hy
    have hlen := (Bracket.infix_of_mem_choices hy).length_le
    have hdy := Bracket.dollar_notMem_of_mem_choices hw' hy
    have hsplit := ih b p w (m ++ y ++ s) hw (by simp [hdp, hdw, hdm, hdy, hds])
      (by simp only [List.length_append, Bracket.length_enclose]; omega)
    simpa only [List.append_assoc] using hsplit
  have before : ∀ x ∈ b.choices w, leaves vars (p ++ x ++ m ++ b'.enclose w' ++ s) =
      (b'.choices w' : Multiset Text).bind fun y => leaves vars (p ++ x ++ m ++ y ++ s) := by
    intro x hx
    have hlen := (Bracket.infix_of_mem_choices hx).length_le
    have hdx := Bracket.dollar_notMem_of_mem_choices hw hx
    exact ih b' (p ++ x ++ m) w' s hw' (by simp [hdp, hdx, hdm, hdw', hds])
      (by simp only [List.length_append, Bracket.length_enclose]; omega)
  rw [Multiset.bind_congr behind, Multiset.bind_bind]
  exact (Multiset.bind_congr before).symm

/-- **Any group may be split first**, wherever it stands. -/
theorem leaves_append_enclose {b : Bracket} {u w v : Text} (hw : IsPlain Fragment.isGroupChar w)
    (hd : '$' ∉ u ++ b.enclose w ++ v) :
    leaves vars (u ++ b.enclose w ++ v) =
      (b.choices w : Multiset Text).bind fun x => leaves vars (u ++ x ++ v) := by
  induction hn : (u ++ b.enclose w ++ v).length using Nat.strong_induction_on
    generalizing b u w v with
  | _ n ih =>
    subst hn
    have hbelow : SplitsBelow vars (u ++ b.enclose w ++ v).length :=
      fun _ _ _ _ hw₁ hd₁ hlt => ih _ hlt hw₁ hd₁ rfl
    obtain ⟨b', u', w', v', hclass, heq, hw'⟩ := Fragment.classify_append_enclose hw hd
    rw [leaves_of_group hd hclass]
    rcases enclose_overlap hw hw' heq with ⟨rfl, rfl, rfl, rfl⟩ | ⟨m, rfl, rfl⟩ | ⟨m, rfl, rfl⟩
    · rfl
    · -- the group that is split next stands behind
      have hcomm := bind_leaves_comm b b' u m v' hw hw' (by simpa using hd)
        (by simpa using hbelow)
      simpa using hcomm
    · -- the group that is split next stands before
      have hcomm := bind_leaves_comm b' b u' m v hw' hw (by simpa using hd)
        (by simpa using hbelow)
      simpa using hcomm.symm

theorem leaves_seed_enclose {b : Bracket} {u w v : Text} (hw : IsPlain Fragment.isGroupChar w)
    (hd : '$' ∉ u ++ b.enclose w ++ v) :
    leaves vars (seed (u ++ b.enclose w ++ v)) =
      (b.choices w : Multiset Text).bind fun x => leaves vars (seed (u ++ x ++ v)) := by
  have hseed : ∀ x, seed (u ++ x ++ v) = ('(' :: u) ++ x ++ (v ++ [')']) := by simp [seed]
  simp only [hseed]
  exact leaves_append_enclose hw (by simpa using hd)

end Worklist

/-! ## What a template means -/

/-- A template expands to these sentences, counted with repetition but in
no order, and the fragments that it reports to be stuck are these. -/
def Template.Yields (template : Template) (vars : Variables) (slots : Option (List Slot))
    (collection : Option Text) (sentences : Multiset Text) (rejected : Set Text) : Prop :=
  ∃ run, template.ExpandsTo vars slots collection run ∧
    (run.sentences : Multiset Text) = sentences ∧ {f | run.Rejects f} = rejected

namespace Template

variable {template : Template} {vars : Variables} {slots : Option (List Slot)}
  {collection : Option Text}

/-- What a template yields is determined. -/
theorem Yields.unique {sentences sentences' : Multiset Text} {rejected rejected' : Set Text}
    (h : template.Yields vars slots collection sentences rejected)
    (h' : template.Yields vars slots collection sentences' rejected') :
    sentences = sentences' ∧ rejected = rejected' := by
  obtain ⟨run, hrun, rfl, rfl⟩ := h
  obtain ⟨run', hrun', rfl, rfl⟩ := h'
  rw [hrun.unique hrun']
  exact ⟨rfl, rfl⟩

/-- **A template without dollar signs** yields the leaves of its first
fragment, the concrete ones as sentences. -/
theorem yields_iff_of_notMem (hd : '$' ∉ template.text) {sentences : Multiset Text}
    {rejected : Set Text} :
    template.Yields vars slots collection sentences rejected ↔
      sentences = (Worklist.leaves vars (Worklist.seed template.text)).filter IsSentence ∧
      rejected = {f | f ∈ Worklist.leaves vars (Worklist.seed template.text) ∧
        Fragment.isConcrete f = false} := by
  have hyields : template.Yields vars slots collection
      ((Worklist.leaves vars (Worklist.seed template.text)).filter IsSentence)
      {f | f ∈ Worklist.leaves vars (Worklist.seed template.text) ∧
        Fragment.isConcrete f = false} := by
    obtain ⟨depth, visits, h⟩ : Worklist.Ends vars (Worklist.seed template.text) :=
      Worklist.ends_of_notMem (by simpa [Worklist.seed] using hd)
    refine ⟨_, expandsTo_iff.2 ⟨depth, visits, h, rfl⟩, ?_, Set.ext fun f => ?_⟩
    · rw [Run.sentences, Worklist.sentences_eq_filter_leaves h, Worklist.leaves_eq h,
        Multiset.filter_coe]
    · rw [Set.mem_ofPred, Set.mem_ofPred, Run.rejects_iff, Run.findings,
        Worklist.stuckFragment_mem_findings h, Worklist.leaves_eq h, Multiset.mem_coe]
  constructor
  · exact fun h => h.unique hyields
  · rintro ⟨rfl, rfl⟩
    exact hyields

/-- **A group stands for its variants together**, wherever it stands. -/
theorem Yields.enclose {b : Bracket} {u w v : Text} (hu : '$' ∉ u) (hv : '$' ∉ v)
    (hw : IsPlain Fragment.isGroupChar w) {sentences : Text → Multiset Text}
    {rejected : Text → Set Text}
    (h : ∀ x ∈ b.choices w, { template with text := u ++ x ++ v }.Yields vars slots collection
      (sentences x) (rejected x)) :
    { template with text := u ++ b.enclose w ++ v }.Yields vars slots collection
      ((b.choices w : Multiset Text).bind sentences) (⋃ x ∈ b.choices w, rejected x) := by
  have hdx : ∀ x ∈ b.choices w, '$' ∉ u ++ x ++ v := fun x hx => by
    simp [hu, Bracket.dollar_notMem_of_mem_choices hw hx, hv]
  have hd : '$' ∉ u ++ b.enclose w ++ v := by simp [hu, hw.dollar_notMem, hv]
  rw [yields_iff_of_notMem hd, Worklist.leaves_seed_enclose hw hd, Multiset.filter_bind]
  have hpieces := fun x hx => (yields_iff_of_notMem (hdx x hx)).1 (h x hx)
  refine ⟨Multiset.bind_congr fun x hx => (hpieces x hx).1, Set.ext fun f => ?_⟩
  simp only [Set.mem_iUnion, Set.mem_ofPred, Multiset.mem_bind, Multiset.mem_coe, exists_prop]
  constructor
  · rintro ⟨x, hx, hf⟩
    rw [(hpieces x hx).2] at hf
    exact ⟨⟨x, hx, hf.1⟩, hf.2⟩
  · rintro ⟨⟨x, hx, hf⟩, hc⟩
    refine ⟨x, hx, ?_⟩
    rw [(hpieces x hx).2]
    exact ⟨hf, hc⟩

/-- **A group means the same wherever it stands**, and whichever groups are
split before it. Between texts without dollar signs a round group yields
what its variants yield together, and a square group yields that and what
the text without it yields, as does the round group with an empty variant. -/
theorem yields_groups {u w v : Text} (hu : '$' ∉ u) (hv : '$' ∉ v)
    (hw : IsPlain Fragment.isGroupChar w) (template : Template) (vars : Variables)
    (slots : Option (List Slot)) (collection : Option Text) :
    ∃ (sentences : Text → Multiset Text) (rejected : Text → Set Text),
      (∀ x ∈ [] :: w.splitOn '|', { template with text := u ++ x ++ v }.Yields vars slots
        collection (sentences x) (rejected x)) ∧
      { template with text := u ++ '(' :: w ++ ')' :: v }.Yields vars slots collection
        ((w.splitOn '|' : Multiset Text).bind sentences) (⋃ x ∈ w.splitOn '|', rejected x) ∧
      { template with text := u ++ '[' :: w ++ ']' :: v }.Yields vars slots collection
        ((w.splitOn '|' : Multiset Text).bind sentences + sentences [])
        ((⋃ x ∈ w.splitOn '|', rejected x) ∪ rejected []) ∧
      { template with text := u ++ '(' :: w ++ '|' :: ')' :: v }.Yields vars slots collection
        ((w.splitOn '|' : Multiset Text).bind sentences + sentences [])
        ((⋃ x ∈ w.splitOn '|', rejected x) ∪ rejected []) := by
  obtain ⟨sentences, rejected, hpieces⟩ : ∃ (sentences : Text → Multiset Text)
      (rejected : Text → Set Text), ∀ x ∈ Bracket.square.choices w,
      { template with text := u ++ x ++ v }.Yields vars slots collection
        (sentences x) (rejected x) := by
    refine ⟨_, _, fun x hx => (yields_iff_of_notMem ?_).2 ⟨rfl, rfl⟩⟩
    simp [hu, Bracket.dollar_notMem_of_mem_choices hw hx, hv]
  have hbar : IsPlain Fragment.isGroupChar (w ++ ['|']) := hw.append (.char (by decide) .nil)
  have hround := Yields.enclose (b := .round) hu hv hw fun x hx =>
    hpieces x (List.mem_append_left _ hx)
  have hsquare := Yields.enclose (b := .square) hu hv hw hpieces
  have hempty := Yields.enclose (b := .round) hu hv hbar fun x hx =>
    hpieces x (Bracket.choices_append_bar w ▸ hx)
  -- the variants of a square group and nothing at all
  have hbind : (Bracket.square.choices w : Multiset Text).bind sentences =
      (w.splitOn '|' : Multiset Text).bind sentences + sentences [] := by
    rw [Bracket.choices, Bracket.options, Fragment.variants, ← Multiset.coe_add, Multiset.add_bind,
      Multiset.coe_singleton, Multiset.singleton_bind]
  have hunion : (⋃ x ∈ Bracket.square.choices w, rejected x) =
      (⋃ x ∈ w.splitOn '|', rejected x) ∪ rejected [] := by
    simp [Bracket.choices, Bracket.options, Fragment.variants, Set.iUnion_or,
      Set.iUnion_union_distrib]
  rw [Bracket.choices_append_bar, hbind, hunion] at hempty
  rw [hbind, hunion] at hsquare
  refine ⟨sentences, rejected, fun x hx => hpieces x ?_, ?_, ?_, ?_⟩
  · simpa [Bracket.choices, Bracket.options, Fragment.variants, or_comm] using hx
  · simpa [Bracket.choices, Bracket.options, Fragment.variants, Bracket.enclose,
      Bracket.opening, Bracket.closing] using hround
  · simpa [Bracket.enclose, Bracket.opening, Bracket.closing] using hsquare
  · simpa [Bracket.enclose, Bracket.opening, Bracket.closing] using hempty

/-- A group in the name of a placeholder, inside a group that can only be
split after it, and before one that is never closed. -/
theorem yields_groups_nested :
    '$' ∉ "[say <".toList ∧ '$' ∉ ">|] (".toList ∧
      IsPlain Fragment.isGroupChar ['a', '|', 'b', ' ', '<', 'c', '>'] ∧
      ∃ sentences rejected,
        Template.Yields { text := "[say <[a|b <c>]>|] (".toList } (.ofList []) none none
          sentences rejected ∧
        Template.Yields { text := "[say <(a|b <c>|)>|] (".toList } (.ofList []) none none
          sentences rejected := by
  have hu : '$' ∉ "[say <".toList := by decide
  have hv : '$' ∉ ">|] (".toList := by decide
  have hw : IsPlain Fragment.isGroupChar ['a', '|', 'b', ' ', '<', 'c', '>'] := by
    have hslot : IsPlain Fragment.isGroupChar ('<' :: ['c'] ++ ['>']) :=
      .slot (isIdentifier_singleton (by decide)) .nil
    exact .char (by decide) (.char (by decide) (.char (by decide) (.char (by decide) hslot)))
  obtain ⟨_, _, -, -, hsquare, hempty⟩ :=
    yields_groups hu hv hw { text := [] } (.ofList []) none none
  exact ⟨hu, hv, hw, _, _, hsquare, hempty⟩

end Template

end Utterance
