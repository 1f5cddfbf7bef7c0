import Utterance.Proofs.Confluence
import Utterance.Proofs.Pattern

/-!
# Meaning — a well-formed template stands for its results

The engine first puts in the definitions, from left to right, and then
splits groups from the inside out. The first part inlines the pattern of
the template (`Pattern.Inlines.agree`). In the second part each group may
be split where it stands in the tree, since any group may be split first,
which makes the leaves of a text those of its outcomes
(`Pattern.leaves_text`). So the sentences of a well-formed template are
the results of its pattern that are not empty
(`Pattern.sentences_perm_results`).
-/

namespace Utterance

/-! ## Putting in the definitions -/

/-- Without a dollar sign before it, a reference is the next construct. -/
theorem Fragment.classify_reference {u name v : Text} (hu : '$' ∉ u) (hn : IsIdentifier name)
    (hv : continuesIdentifier v = false) :
    classify (u ++ '$' :: name ++ v) = .reference u name v := by
  have hconcrete : isConcrete (u ++ '$' :: name ++ v) = false := by
    rw [Bool.eq_false_iff, Ne, isConcrete_iff]
    exact fun h => h.of_literal.dollar_notMem (by simp)
  have hfound : Text.leftmost? reference? (u ++ '$' :: name ++ v) = some (u, name, v) := by
    have hr : reference? ('$' :: name ++ v) = some (name, v) :=
      reference?_eq_some.2 ⟨rfl, hn, hv⟩
    refine Text.leftmost?_eq_some.2 ⟨'$' :: name ++ v, by simp, hr, ?_⟩
    rintro p (_ | ⟨c, q⟩) rfl hne
    · exact absurd rfl hne
    · have hc : c ≠ '$' := by
        rintro rfl
        simp at hu
      simp [reference?, hc]
  rw [classify, hconcrete, hfound]
  rfl

namespace Worklist

variable {vars : Variables} {f g h : Text}

/-- One fragment leads to the same leaves as another one whose expansion
ends. -/
def SameLeaves (vars : Variables) (f g : Text) : Prop :=
  Ends vars g → Ends vars f ∧ leaves vars f = leaves vars g

theorem SameLeaves.trans (hfg : SameLeaves vars f g) (hgh : SameLeaves vars g h) :
    SameLeaves vars f h := by
  intro hends
  obtain ⟨hg, hgl⟩ := hgh hends
  obtain ⟨hf, hfl⟩ := hfg hg
  exact ⟨hf, hfl.trans hgl⟩

theorem sameLeaves_reference {u name v : Text} (hu : '$' ∉ u) (hn : IsIdentifier name)
    (hv : continuesIdentifier v = false) :
    SameLeaves vars (u ++ '$' :: name ++ v)
      (u ++ Bracket.round.enclose ((vars.get? name).getD []) ++ v) := by
  intro hends
  have hclass := Fragment.classify_reference hu hn hv
  have hsucc := Shape.successors_reference vars u name v
  rw [← hclass] at hsucc
  have hall : ∀ g ∈ (Fragment.classify (u ++ '$' :: name ++ v)).successors vars, Ends vars g := by
    rw [hsucc]
    simpa using hends
  have hleaf : (Visit.of (u ++ '$' :: name ++ v)).leaf? = none := by
    rw [Visit.leaf?, Visit.of, hclass]
  refine ⟨ends_of_successors hall, ?_⟩
  rw [leaves_of_successors hleaf hall, hsucc, Multiset.coe_singleton, Multiset.singleton_bind]

end Worklist

namespace Pattern

open Worklist

variable {vars : Variables} {p p' : Pattern}

/-- Two patterns lead to the same leaves, whatever stands around them,
while there is no reference before them and no name runs on. -/
def Agree (vars : Variables) (p p' : Pattern) : Prop :=
  ∀ u v, '$' ∉ u → continuesIdentifier v = false →
    SameLeaves vars (u ++ p.text ++ v) (u ++ p'.text ++ v)

theorem Agree.literal {s : Text} (hs : IsPlain isLiteral s) (h : Agree vars p p') :
    Agree vars (literal s p) (literal s p') := by
  intro u v hu hv
  have hus : '$' ∉ u ++ s := by simp [hu, hs.of_literal.dollar_notMem]
  simpa [text] using h (u ++ s) v hus hv

theorem Agree.bar (h : Agree vars p p') : Agree vars (bar p) (bar p') := by
  intro u v hu hv
  simpa [text] using h (u ++ ['|']) v (by simp [hu]) hv

theorem Agree.group {b : Bracket} {rest rest' : Pattern} (hd : '$' ∉ p'.text)
    (h : Agree vars p p') (hrest : Agree vars rest rest') :
    Agree vars (group b p rest) (group b p' rest') := by
  intro u v hu hv
  have hopen : '$' ∉ u ++ [b.opening] := by cases b <;> simp [hu, Bracket.opening]
  have hclose : continuesIdentifier (b.closing :: (rest.text ++ v)) = false := by
    cases b <;> rfl
  have hinside := h (u ++ [b.opening]) _ hopen hclose
  have hafter := hrest (u ++ b.enclose p'.text) v (by simp [hu, hd]) hv
  simp only [text, Bracket.enclose, List.append_assoc, List.cons_append, List.nil_append]
    at hinside hafter ⊢
  exact hinside.trans hafter

theorem Agree.reference {name : Text} (hn : IsIdentifier name)
    (hrest : continuesIdentifier p.text = false) (definition : Pattern)
    (hdef : definition.text = (vars.get? name).getD [])
    (h : Agree vars (Pattern.group .round definition p) p') :
    Agree vars (Pattern.reference name p) p' := by
  intro u v hu hv
  have hstep : SameLeaves vars _ _ :=
    sameLeaves_reference hu hn (continuesIdentifier_append hrest hv)
  have hgroup := h u v hu hv
  rw [← hdef] at hstep
  simp only [text, List.append_assoc, List.cons_append] at hstep hgroup ⊢
  exact hstep.trans hgroup

/-- **Putting in the definitions is inlining.** -/
theorem Inlines.agree (h : Inlines vars p p') (hp : p.WellFormed) : Agree vars p p' := by
  have notMem : ∀ {q q' : Pattern}, Inlines vars q q' → q.WellFormed → '$' ∉ q'.text :=
    fun hq hwf => dollar_notMem_text (hq.wellFormed hwf).1 (hq.wellFormed hwf).2
  induction h with
  | done => exact fun _ _ _ _ hends => ⟨hends, rfl⟩
  | literal _ ih => exact (ih hp.2).literal hp.1
  | bar _ ih => exact (ih hp).bar
  | group hinside _ ihi ihr => exact (ihi hp.1).group (notMem hinside hp.1) (ihr hp.2)
  | defined hname hdef hinlines _ ihd ihr =>
    refine Agree.reference hp.1 hp.2.1 _ (by rw [hname]; rfl) ?_
    exact (ihd hdef).group (notMem hinlines hdef) (ihr hp.2.2)
  | undefined hname _ ih =>
    have hdone : Agree vars Pattern.done Pattern.done := fun _ _ _ _ hends => ⟨hends, rfl⟩
    refine Agree.reference hp.1 hp.2.1 Pattern.done (by rw [hname]; rfl) ?_
    exact hdone.group (by simp [text]) (ih hp.2.2)

/-! ## Splitting the groups -/

private theorem intercalate_modifyHead {texts : List Text} (s : Text) (hne : texts ≠ []) :
    ['|'].intercalate (texts.modifyHead (s ++ ·)) = s ++ ['|'].intercalate texts := by
  match texts, hne with
  | [x], _ => simp
  | x :: y :: texts, _ => simp [List.intercalate_cons_cons]

private theorem intercalate_nil_cons {texts : List Text} (hne : texts ≠ []) :
    ['|'].intercalate ([] :: texts) = ['|'] ++ ['|'].intercalate texts := by
  match texts, hne with
  | x :: texts, _ => simp [List.intercalate_cons_cons]

/-- Plain alternatives with bars between them may stand in a group. -/
private theorem isPlain_intercalate {texts : List Text} (h : ∀ x ∈ texts, IsPlain isLiteral x) :
    IsPlain Fragment.isGroupChar (['|'].intercalate texts) := by
  induction texts with
  | nil => exact .nil
  | cons x texts ih =>
    have hx := (h x (by simp)).of_literal
    cases texts with
    | nil => simpa using hx
    | cons y texts =>
      rw [List.intercalate_cons_cons]
      exact (hx.append (.char (by decide) .nil)).append (ih fun z hz => h z (by simp [hz]))

/-- A group of plain alternatives stands for them. -/
private theorem leaves_enclose_intercalate {b : Bracket} {variants : List Text} {u v : Text}
    (hne : variants ≠ []) (hplain : ∀ x ∈ variants, IsPlain isLiteral x) (hu : '$' ∉ u)
    (hv : '$' ∉ v) :
    leaves vars (u ++ b.enclose (['|'].intercalate variants) ++ v) =
      (b.options variants : Multiset Text).bind fun x => leaves vars (u ++ x ++ v) := by
  have hw := isPlain_intercalate hplain
  have hd : '$' ∉ u ++ b.enclose (['|'].intercalate variants) ++ v := by
    simp [hu, hw.dollar_notMem, hv]
  rw [leaves_append_enclose hw hd,
    Bracket.choices_intercalate (fun x hx => (hplain x hx).bar_notMem) hne]

private theorem bind_map_outcomes {f : List Text → List Text} {s : Text}
    (hf : ∀ variants ∈ p.outcomes,
      ['|'].intercalate (f variants) = s ++ ['|'].intercalate variants) (u v : Text) :
    ((p.outcomes.map f : List (List Text)) : Multiset (List Text)).bind
        (fun variants => leaves vars (u ++ ['|'].intercalate variants ++ v)) =
      (p.outcomes : Multiset (List Text)).bind fun variants =>
        leaves vars (u ++ s ++ ['|'].intercalate variants ++ v) := by
  rw [← Multiset.map_coe, Multiset.bind_map]
  refine Multiset.bind_congr fun variants hv => ?_
  rw [hf variants hv, List.append_assoc u s]

/-- **A pattern without references has the leaves of its outcomes**: each
group is split where it stands, after the groups in it and before those
that follow. -/
theorem leaves_text (hp : p.WellFormed) (hn : p.names = []) {u v : Text} (hu : '$' ∉ u)
    (hv : '$' ∉ v) :
    leaves vars (u ++ p.text ++ v) = (p.outcomes : Multiset (List Text)).bind fun variants =>
      leaves vars (u ++ ['|'].intercalate variants ++ v) := by
  induction p generalizing u v with
  | done => simp [text, outcomes]
  | literal s rest ih =>
    have hus : '$' ∉ u ++ s := by simp [hu, hp.1.of_literal.dollar_notMem]
    have hhead := fun variants hvar =>
      intercalate_modifyHead s (forall_mem_outcomes hp.2 hn variants hvar).1
    rw [outcomes, bind_map_outcomes hhead, ← ih hp.2 hn hus hv, text, List.append_assoc u s]
  | reference name rest ih => simp [names] at hn
  | bar rest ih =>
    have hub : '$' ∉ u ++ ['|'] := by simp [hu]
    have hwf : rest.WellFormed := hp
    have hhead := fun variants hvar =>
      intercalate_nil_cons (forall_mem_outcomes hwf hn variants hvar).1
    rw [outcomes, bind_map_outcomes hhead, ← ih hp hn hub hv, text, List.append_assoc u ['|']]
    rfl
  | group b inside rest ihi ihr =>
    obtain ⟨hni, hnr⟩ := List.append_eq_nil_iff.1 hn
    have hrest : '$' ∉ rest.text ++ v := by simp [dollar_notMem_text hp.2 hnr, hv]
    have hopen : '$' ∉ u ++ [b.opening] := by cases b <;> simp [hu, Bracket.opening]
    have hclose : '$' ∉ b.closing :: (rest.text ++ v) := by
      cases b <;> simpa [Bracket.closing] using hrest
    -- the groups inside come first
    have hinside := ihi hp.1 hni hopen hclose
    have hshape : ∀ w : Text, u ++ [b.opening] ++ w ++ b.closing :: (rest.text ++ v) =
        u ++ b.enclose w ++ (rest.text ++ v) := by simp [Bracket.enclose]
    simp only [hshape] at hinside
    rw [text, ← List.append_assoc u, List.append_assoc _ rest.text, hinside, outcomes,
      ← Multiset.coe_bind, Multiset.bind_assoc]
    refine Multiset.bind_congr fun variants hvar => ?_
    -- then the group itself
    obtain ⟨hne, hplain⟩ := forall_mem_outcomes hp.1 hni variants hvar
    rw [leaves_enclose_intercalate hne hplain hu hrest, ← Multiset.coe_bind, Multiset.bind_assoc]
    refine Multiset.bind_congr fun x hx => ?_
    -- and then what follows it
    have hhead := fun variants hvar =>
      intercalate_modifyHead x (forall_mem_outcomes hp.2 hnr variants hvar).1
    have hx' := (Bracket.isPlain_of_mem_options hplain hx).of_literal
    have hux : '$' ∉ u ++ x := by simp [hu, hx'.dollar_notMem]
    rw [bind_map_outcomes hhead, ← ihr hp.2 hnr hux hv, List.append_assoc _ rest.text]

theorem isPlain_of_mem_results (hp : p.WellFormed) (hn : p.names = []) {x : Text}
    (hx : x ∈ p.results) : IsPlain isLiteral x := by
  obtain ⟨variants, hvar, hx⟩ := List.mem_flatten.1 hx
  exact (forall_mem_outcomes hp hn variants hvar).2 x hx

/-- The leaves of a whole template without references are its results. -/
theorem leaves_seed_text (hp : p.WellFormed) (hn : p.names = []) :
    leaves vars (seed p.text) = (p.results : Multiset Text) := by
  have hleaf : ∀ x ∈ p.results, leaves vars x = {x} := fun x hx => by
    have hclass := Fragment.classify_of_isPlain (isPlain_of_mem_results hp hn hx)
    exact leaves_of_leaf (by rw [Visit.leaf?, Visit.of, hclass]) (by rw [hclass, Shape.successors])
  -- the whole template is the only group of a larger one
  have hwhole : (group .round p done).outcomes = p.results.map ([·]) := by
    rw [outcomes, results, List.map_flatten, ← List.flatMap_def]
    refine List.flatMap_congr fun variants _ => ?_
    simp [outcomes, Bracket.options, List.map_eq_flatMap]
  have hwf : (group .round p done).WellFormed := ⟨hp, trivial⟩
  have hnames : (group .round p done).names = [] := by rw [names, hn]; rfl
  calc
    leaves vars (seed p.text) = leaves vars ([] ++ (group .round p done).text ++ []) := by
      simp [text, seed, Bracket.enclose, Bracket.opening, Bracket.closing]
    _ = (p.results : Multiset Text).bind fun x =>
        leaves vars ([] ++ ['|'].intercalate [x] ++ []) := by
      rw [leaves_text hwf hnames (by simp) (by simp), hwhole, ← Multiset.map_coe,
        Multiset.bind_map]
    _ = (p.results : Multiset Text).bind fun x => {x} :=
      Multiset.bind_congr fun x hx => by simpa using hleaf x hx
    _ = p.results := by rw [Multiset.bind_singleton, Multiset.map_id']

/-- **A well-formed template stands for its results**: if the definitions
it reaches are well-formed and no variable leads back to itself, its
expansion ends, and the sentences are the results of its inlined pattern,
each as often as it comes out, but for the empty one. -/
theorem sentences_perm_results {template : Template} (hp : p.WellFormed)
    (htext : p.text = template.text) (hacyclic : vars.Acyclic)
    (hdefs : ∀ definition, vars.Reaches template.text definition →
      ∃ q : Pattern, q.WellFormed ∧ q.text = definition)
    (slots : Option (List Slot)) (collection : Option Text) :
    ∃ run, template.ExpandsTo vars slots collection run ∧ (∃ p', Inlines vars p p') ∧
      ∀ p', Inlines vars p p' → run.sentences.Perm (p'.results.filter (· ≠ [])) := by
  rw [← htext] at hdefs
  have hleaves : ∀ {q}, Inlines vars p q → Ends vars (seed template.text) ∧
      leaves vars (seed template.text) = (q.results : Multiset Text) := fun {q} hq => by
    obtain ⟨hwf, hn⟩ := hq.wellFormed hp
    have hends : Ends vars (seed q.text) :=
      ends_of_notMem (by simpa [seed] using dollar_notMem_text hwf hn)
    have hsame := hq.agree hp ['('] [')'] (by decide) (by decide) hends
    rw [← leaves_seed_text hwf hn, ← htext]
    exact hsame
  obtain ⟨p', hp'⟩ := exists_inlines hp hacyclic hdefs
  obtain ⟨depth, visits, hbranch⟩ := (hleaves hp').1
  refine ⟨_, expandsTo_iff.2 ⟨depth, visits, hbranch, rfl⟩, ⟨p', hp'⟩, fun q hq => ?_⟩
  obtain ⟨hwf, hn⟩ := hq.wellFormed hp
  have hresults : (visits.filterMap Visit.leaf?).Perm q.results := by
    rw [← Multiset.coe_eq_coe, ← leaves_eq hbranch, (hleaves hq).2]
  have hfilter : q.results.filter (fun x => IsSentence x) = q.results.filter (· ≠ []) := by
    refine List.filter_congr fun x hx => ?_
    simp [IsSentence, Fragment.isConcrete_iff.2 (isPlain_of_mem_results hwf hn hx)]
  rw [Run.sentences, sentences_eq_filter_leaves hbranch, ← hfilter]
  exact hresults.filter _

/-- A definition that refers to another one, an undefined variable, and a
group that is chosen from even where the other alternative is taken. -/
theorem sentences_perm_results_chain :
    let vars := Variables.ofList [("A".toList, "x$B".toList), ("b".toList, "(y|z)".toList)]
    let template : Template := { text := "$A|[c]$d".toList }
    let p := reference ['A'] (bar (group .square (literal ['c'] done) (reference ['d'] done)))
    p.WellFormed ∧ p.text = template.text ∧ vars.Acyclic ∧
      (∀ definition, vars.Reaches template.text definition →
        ∃ q : Pattern, q.WellFormed ∧ q.text = definition) ∧
      ∃ run, template.ExpandsTo vars none none run ∧
        run.sentences.Perm (["xy", "c", "xy", "xz", "c", "xz"].map String.toList) := by
  intro vars template p
  have plain : ∀ c, isLiteral c = true → IsPlain isLiteral [c] := fun c hc => .char hc .nil
  have ident : ∀ c, isIdentStart c = true → IsIdentifier [c] := fun _ => isIdentifier_singleton
  have hp : p.WellFormed := ⟨ident 'A' (by decide), by decide,
    ⟨plain 'c' (by decide), trivial⟩, ident 'd' (by decide), by decide, trivial⟩
  have htext : p.text = template.text := by decide
  have hacyclic : vars.Acyclic :=
    Variables.acyclic_of_rank (fun x => if x = ['a'] then 1 else 0) (by decide)
  -- the definitions as patterns
  let a := literal ['x'] (reference ['B'] done)
  let b := group .round (literal ['y'] (bar (literal ['z'] done))) done
  have ha : a.WellFormed :=
    ⟨plain 'x' (by decide), ident 'B' (by decide), by decide, trivial⟩
  have hb : b.WellFormed := ⟨⟨plain 'y' (by decide), plain 'z' (by decide), trivial⟩, trivial⟩
  have hdefs : ∀ definition, vars.Reaches template.text definition →
      ∃ q : Pattern, q.WellFormed ∧ q.text = definition := by
    rintro definition ⟨_, -, x, -, hl⟩
    have hentries : vars.entries = [(['a'], a.text), (['b'], b.text)] := by decide
    have hmem := Variables.mem_entries_of_lookup hl
    rw [hentries] at hmem
    simp only [List.mem_cons, Prod.mk.injEq, List.not_mem_nil, or_false] at hmem
    rcases hmem with ⟨-, rfl⟩ | ⟨-, rfl⟩
    · exact ⟨a, ha, rfl⟩
    · exact ⟨b, hb, rfl⟩
  obtain ⟨run, hrun, -, hperm⟩ := sentences_perm_results hp htext hacyclic hdefs none none
  have hinlines : Inlines vars p (group .round (literal ['x'] (group .round b done))
      (bar (group .square (literal ['c'] done) (group .round done done)))) := by
    have hb' : Inlines vars b b := .group (.literal (.bar (.literal .done))) .done
    have ha' : Inlines vars a (literal ['x'] (group .round b done)) :=
      .literal (.defined (by decide) hb hb' .done)
    exact .defined (by decide) ha ha'
      (.bar (.group (.literal .done) (.undefined (by decide) .done)))
  exact ⟨hp, htext, hacyclic, hdefs, run, hrun, (hperm _ hinlines).trans (.of_eq (by decide))⟩

end Pattern

end Utterance
