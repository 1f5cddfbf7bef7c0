import Utterance.Proofs.References

/-!
# Patterns — well-formed templates as trees

The engine never parses a template. This file says what it would have to
parse: a well-formed template is the text of a tree (`Pattern.text`), in
which bars separate the alternatives, at the top and inside every group.
To inline a pattern is to put a round group with its definition where a
reference stands (`Pattern.Inlines`), which can be done wherever the
definitions that are reached are well-formed and none leads back to itself
(`exists_inlines`). What is left has no references, and its meaning is
read off the tree: every group is chosen from on its own, also where it
lies in an alternative that is not taken (`Pattern.outcomes`).
-/

namespace Utterance

open Relation

/-- A well-formed template, read from left to right. -/
inductive Pattern where
  /-- The end. -/
  | done
  /-- Literal characters and placeholders. -/
  | literal (s : Text) (rest : Pattern)
  /-- A reference to a variable. -/
  | reference (name : Text) (rest : Pattern)
  /-- The end of an alternative and the beginning of the next one. -/
  | bar (rest : Pattern)
  /-- Alternatives between brackets. -/
  | group (b : Bracket) (inside rest : Pattern)

/-- A definition that is looked up under one of the names that the text
leads to, over however many other definitions. -/
def Variables.Reaches (vars : Variables) (s definition : Text) : Prop :=
  ∃ name ∈ references s, ∃ x, ReflTransGen vars.Refers name.lower x ∧
    vars.entries.lookup x = some definition

namespace Pattern

/-- How a pattern is written. -/
def text : Pattern → Text
  | done => []
  | literal s rest => s ++ rest.text
  | reference name rest => '$' :: name ++ rest.text
  | bar rest => '|' :: rest.text
  | group b inside rest => b.enclose inside.text ++ rest.text

/-- The names that a pattern refers to. -/
def names : Pattern → List Text
  | done => []
  | literal _ rest => rest.names
  | reference name rest => name :: rest.names
  | bar rest => rest.names
  | group _ inside rest => inside.names ++ rest.names

/-- What is literal is made of literal characters and placeholders, and
what is a name is an identifier and does not run on. -/
def WellFormed : Pattern → Prop
  | done => True
  | literal s rest => IsPlain isLiteral s ∧ rest.WellFormed
  | reference name rest =>
    IsIdentifier name ∧ continuesIdentifier rest.text = false ∧ rest.WellFormed
  | bar rest => rest.WellFormed
  | group _ inside rest => inside.WellFormed ∧ rest.WellFormed

/-- The alternatives of a pattern once every group in it is replaced by one
of its own alternatives or omitted, for every combination of choices. -/
def outcomes : Pattern → List (List Text)
  | done => [[[]]]
  | literal s rest => rest.outcomes.map (List.modifyHead (s ++ ·))
  | reference name rest => rest.outcomes.map (List.modifyHead ('$' :: name ++ ·))
  | bar rest => rest.outcomes.map ([] :: ·)
  | group b inside rest =>
    inside.outcomes.flatMap fun variants => (b.options variants).flatMap fun x =>
      rest.outcomes.map (List.modifyHead (x ++ ·))

/-- What a pattern stands for: any one of its alternatives. -/
def results (p : Pattern) : List Text :=
  p.outcomes.flatten

/-- **Inlining**: every reference gives way to a round group that holds its
definition, inlined as well, or nothing if the variable is not defined. -/
inductive Inlines (vars : Variables) : Pattern → Pattern → Prop
  | done : Inlines vars done done
  | literal {s : Text} {rest rest' : Pattern} :
      Inlines vars rest rest' → Inlines vars (literal s rest) (literal s rest')
  | bar {rest rest' : Pattern} : Inlines vars rest rest' → Inlines vars (bar rest) (bar rest')
  | group {b : Bracket} {inside inside' rest rest' : Pattern} :
      Inlines vars inside inside' → Inlines vars rest rest' →
      Inlines vars (group b inside rest) (group b inside' rest')
  | defined {name : Text} {definition definition' rest rest' : Pattern} :
      vars.get? name = some definition.text → definition.WellFormed →
      Inlines vars definition definition' → Inlines vars rest rest' →
      Inlines vars (reference name rest) (group .round definition' rest')
  | undefined {name : Text} {rest rest' : Pattern} :
      vars.get? name = none → Inlines vars rest rest' →
      Inlines vars (reference name rest) (group .round done rest')

variable {vars : Variables} {p p' : Pattern}

/-- The names of a pattern are the references of its text. -/
theorem references_text (hp : p.WellFormed) : references p.text = p.names := by
  induction p with
  | done => rfl
  | literal s rest ih =>
    rw [text, names, references_append_of_notMem hp.1.of_literal.dollar_notMem, ih hp.2]
  | reference name rest ih =>
    rw [text, names, references_reference hp.1 hp.2.1, ih hp.2.2]
  | bar rest ih =>
    rw [text, names, references_cons_of_ne (by decide), ih hp]
  | group b inside rest ihi ihr =>
    have h := references_enclose b [] inside.text rest.text
    rw [List.nil_append] at h
    rw [text, names, h, ihi hp.1, ihr hp.2]
    rfl

theorem dollar_notMem_text (hp : p.WellFormed) (hn : p.names = []) : '$' ∉ p.text := by
  induction p with
  | done => simp [text]
  | literal s rest ih => simp [text, hp.1.of_literal.dollar_notMem, ih hp.2 hn]
  | reference name rest ih => simp [names] at hn
  | bar rest ih => simp [text, ih hp hn]
  | group b inside rest ihi ihr =>
    obtain ⟨hi, hr⟩ := List.append_eq_nil_iff.1 hn
    simp [text, ihi hp.1 hi, ihr hp.2 hr]

/-- An outcome is a list of at least one alternative, all of them plain. -/
theorem forall_mem_outcomes (hp : p.WellFormed) (hn : p.names = []) :
    ∀ variants ∈ p.outcomes, variants ≠ [] ∧ ∀ x ∈ variants, IsPlain isLiteral x := by
  have prepend : ∀ {s : Text} {rest : List Text}, IsPlain isLiteral s →
      (rest ≠ [] ∧ ∀ x ∈ rest, IsPlain isLiteral x) →
      rest.modifyHead (s ++ ·) ≠ [] ∧ ∀ x ∈ rest.modifyHead (s ++ ·), IsPlain isLiteral x := by
    rintro s (_ | ⟨x, rest⟩) hs ⟨hne, hrest⟩
    · exact absurd rfl hne
    · simpa using ⟨hs.append (hrest x (by simp)), fun y hy => hrest y (by simp [hy])⟩
  induction p with
  | done => simp [outcomes, IsPlain.nil]
  | literal s rest ih =>
    rw [outcomes, List.forall_mem_map]
    exact fun variants hv => prepend hp.1 (ih hp.2 hn variants hv)
  | reference name rest ih => simp [names] at hn
  | bar rest ih =>
    rw [outcomes, List.forall_mem_map]
    intro variants hv
    simpa [IsPlain.nil] using (ih hp hn variants hv).2
  | group b inside rest ihi ihr =>
    obtain ⟨hni, hnr⟩ := List.append_eq_nil_iff.1 hn
    intro variants hv
    simp only [outcomes, List.mem_flatMap, List.mem_map] at hv
    obtain ⟨inner, hinner, x, hx, outer, houter, rfl⟩ := hv
    have hplain := Bracket.isPlain_of_mem_options (ihi hp.1 hni inner hinner).2 hx
    exact prepend hplain (ihr hp.2 hnr outer houter)

/-! ## Inlining -/

theorem Inlines.wellFormed (h : Inlines vars p p') (hp : p.WellFormed) :
    p'.WellFormed ∧ p'.names = [] := by
  induction h with
  | done => exact ⟨trivial, rfl⟩
  | literal _ ih => exact ⟨⟨hp.1, (ih hp.2).1⟩, (ih hp.2).2⟩
  | bar _ ih => exact ih hp
  | group _ _ ihi ihr =>
    exact ⟨⟨(ihi hp.1).1, (ihr hp.2).1⟩, by rw [names, (ihi hp.1).2, (ihr hp.2).2]; rfl⟩
  | defined _ hd _ _ ihd ihr =>
    exact ⟨⟨(ihd hd).1, (ihr hp.2.2).1⟩, by rw [names, (ihd hd).2, (ihr hp.2.2).2]; rfl⟩
  | undefined _ _ ih => exact ⟨⟨trivial, (ih hp.2.2).1⟩, (ih hp.2.2).2⟩

/-- A pattern can be inlined if the definitions of its names can. -/
theorem exists_inlines_of (h : ∀ name ∈ p.names, ∀ definition, vars.get? name = some definition →
      ∃ q q' : Pattern, q.WellFormed ∧ q.text = definition ∧ Inlines vars q q') :
    ∃ p', Inlines vars p p' := by
  induction p with
  | done => exact ⟨_, .done⟩
  | literal s rest ih =>
    obtain ⟨rest', hrest⟩ := ih h
    exact ⟨_, .literal hrest⟩
  | reference name rest ih =>
    obtain ⟨rest', hrest⟩ := ih fun other hother => h other (by simp [names, hother])
    cases hname : vars.get? name with
    | none => exact ⟨_, .undefined hname hrest⟩
    | some definition =>
      obtain ⟨q, q', hq, rfl, hq'⟩ := h name (by simp [names]) definition hname
      exact ⟨_, .defined hname hq hq' hrest⟩
  | bar rest ih =>
    obtain ⟨rest', hrest⟩ := ih h
    exact ⟨_, .bar hrest⟩
  | group b inside rest ihi ihr =>
    obtain ⟨inside', hinside⟩ := ihi fun name hname => h name (by simp [names, hname])
    obtain ⟨rest', hrest⟩ := ihr fun name hname => h name (by simp [names, hname])
    exact ⟨_, .group hinside hrest⟩

/-- **Every well-formed template can be inlined**, by recursion on the
references from definition to definition. -/
theorem exists_inlines (hp : p.WellFormed) (hacyclic : vars.Acyclic)
    (hdefs : ∀ definition, vars.Reaches p.text definition →
      ∃ q : Pattern, q.WellFormed ∧ q.text = definition) :
    ∃ p', Inlines vars p p' := by
  -- whatever is reached from a definition that is reached is reached itself
  have hreach : ∀ x, (∃ name ∈ references p.text, ReflTransGen vars.Refers name.lower x) →
      ∀ definition, vars.entries.lookup x = some definition →
        ∃ q q' : Pattern, q.WellFormed ∧ q.text = definition ∧ Inlines vars q q' := by
    intro x
    induction x using (Variables.wellFounded_refers hacyclic).induction with
    | _ x ih =>
      rintro ⟨name, hname, hx⟩ definition hl
      obtain ⟨q, hq, rfl⟩ := hdefs definition ⟨name, hname, x, hx, hl⟩
      obtain ⟨q', hq'⟩ : ∃ q', Inlines vars q q' := by
        refine exists_inlines_of fun other hother => ?_
        rw [← references_text hq] at hother
        have hstep : vars.Refers x other.lower := ⟨q.text, hl, other, hother, rfl⟩
        exact ih _ hstep ⟨name, hname, hx.tail hstep⟩
      exact ⟨q, q', hq, rfl, hq'⟩
  refine exists_inlines_of fun name hname => ?_
  rw [← references_text hp] at hname
  exact hreach name.lower ⟨name, hname, .refl⟩

end Pattern

end Utterance
