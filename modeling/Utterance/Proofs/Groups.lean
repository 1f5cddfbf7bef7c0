import Utterance.Expansion.Worklist
import Mathlib.Data.List.Basic

/-!
# Groups — what the scans of a fragment find

The scans that look for a construct are functions on texts; this file
says what they find. A text is plain when it is made of characters of one
class and placeholders (`IsPlain`). The group at the head of a text is
its brackets with a plain text between them (`group?_eq_some`), a
fragment is concrete when it is plain in literal characters
(`isConcrete_iff`), and the next construct of a fragment that holds no
dollar sign is one of its groups, if it has any
(`classify_append_enclose`).
-/

namespace Utterance

/-- A character that a text does not hold stands behind it. -/
theorem exists_eq_append_of_notMem {c : Char} {w s a t : Text} (hc : c ∉ w)
    (h : w ++ s = a ++ c :: t) : ∃ m, a = w ++ m ∧ s = m ++ c :: t := by
  rcases List.append_eq_append_iff.1 h with ⟨m, ha, hs⟩ | ⟨m, rfl, hs⟩
  · exact ⟨m, ha, hs⟩
  · cases m with
    | nil => exact ⟨[], by simp, by simpa using hs.symm⟩
    | cons d m =>
      obtain ⟨rfl, -⟩ := List.cons.inj hs
      simp at hc

/-- A text made of characters of one class and placeholders. -/
inductive IsPlain (plain : Char → Bool) : Text → Prop
  /-- The empty text. -/
  | nil : IsPlain plain []
  /-- A character of the class. -/
  | char {c : Char} {rest : Text} :
      plain c = true → IsPlain plain rest → IsPlain plain (c :: rest)
  /-- A placeholder. -/
  | slot {name rest : Text} :
      IsIdentifier name → IsPlain plain rest → IsPlain plain ('<' :: name ++ '>' :: rest)

/-- An identifier is made of the characters it may go on with. -/
theorem isIdentChar_of_isIdentifier {name : Text} (h : IsIdentifier name) :
    ∀ c ∈ name, isIdentChar c = true := by
  cases name with
  | nil => exact h.elim
  | cons c rest =>
    have start : isIdentChar c = true := by
      have hc := h.1
      simp only [isIdentStart, Bool.or_eq_true] at hc
      rcases hc with hc | hc <;> simp [isIdentChar, Char.isAlphanum, hc]
    simpa [start] using h.2

theorem isIdentifier_singleton {c : Char} (h : isIdentStart c = true) : IsIdentifier [c] :=
  ⟨h, by simp⟩

namespace IsPlain

variable {plain : Char → Bool} {s t : Text}

theorem append (hs : IsPlain plain s) (ht : IsPlain plain t) : IsPlain plain (s ++ t) := by
  induction hs with
  | nil => exact ht
  | char hc _ ih => exact .char hc ih
  | slot hn _ ih => simpa using IsPlain.slot hn ih

/-- What is plain in a class is plain in every larger class. -/
theorem mono {wider : Char → Bool} (h : ∀ c, plain c = true → wider c = true)
    (hs : IsPlain plain s) : IsPlain wider s := by
  induction hs with
  | nil => exact .nil
  | char hc _ ih => exact .char (h _ hc) ih
  | slot hn _ ih => exact .slot hn ih

/-- A plain text holds characters of its class and of placeholders. -/
theorem mem (hs : IsPlain plain s) {c : Char} (hc : c ∈ s) :
    plain c = true ∨ c = '<' ∨ c = '>' ∨ isIdentChar c = true := by
  induction hs with
  | nil => simp at hc
  | char hp _ ih =>
    rcases List.mem_cons.1 hc with rfl | hc
    · exact .inl hp
    · exact ih hc
  | @slot name rest hn _ ih =>
    simp only [List.cons_append, List.mem_cons, List.mem_append] at hc
    rcases hc with rfl | hc | rfl | hc
    · exact .inr (.inl rfl)
    · exact .inr (.inr (.inr (isIdentChar_of_isIdentifier hn c hc)))
    · exact .inr (.inr (.inl rfl))
    · exact ih hc

/-- Without an angle bracket there is no placeholder. -/
theorem forall_mem (hs : IsPlain plain s) (hopen : '<' ∉ s) : ∀ c ∈ s, plain c = true := by
  induction hs with
  | nil => simp
  | char hc _ ih =>
    rw [List.mem_cons, not_or] at hopen
    exact List.forall_mem_cons.2 ⟨hc, ih hopen.2⟩
  | slot _ _ _ => simp at hopen

theorem dollar_notMem (hs : IsPlain Fragment.isGroupChar s) : '$' ∉ s :=
  fun h => absurd (hs.mem h) (by decide)

theorem opening_notMem (hs : IsPlain Fragment.isGroupChar s) (b : Bracket) : b.opening ∉ s :=
  fun h => absurd (hs.mem h) (by cases b <;> decide)

theorem closing_notMem (hs : IsPlain Fragment.isGroupChar s) (b : Bracket) : b.closing ∉ s :=
  fun h => absurd (hs.mem h) (by cases b <;> decide)

theorem bar_notMem (hs : IsPlain isLiteral s) : '|' ∉ s :=
  fun h => absurd (hs.mem h) (by decide)

/-- Literal texts may stand in a group. -/
theorem of_literal (hs : IsPlain isLiteral s) : IsPlain Fragment.isGroupChar s :=
  hs.mono fun c hc => by simp [Fragment.isGroupChar, hc]

end IsPlain

namespace Fragment

variable {plain : Char → Bool}

/-- The scan passes over a plain beginning. -/
theorem skipPlain_append {w : Text} (hp : plain '<' = false) (hw : IsPlain plain w) (s : Text) :
    skipPlain plain (w ++ s) = skipPlain plain s := by
  induction hw with
  | nil => rfl
  | @char c rest hc _ ih =>
    have hne : c ≠ '<' := by
      rintro rfl
      rw [hp] at hc
      cases hc
    rw [List.cons_append, skipPlain]
    split
    · rename_i h
      rw [placeholder?_cons_of_ne hne] at h
      cases h
    · simp only [hc, if_true, ih]
  | @slot name rest hn _ ih =>
    have hh : placeholder? ('<' :: name ++ '>' :: rest ++ s) = some (name, rest ++ s) :=
      placeholder?_eq_some.2 ⟨hn, by simp⟩
    rw [skipPlain]
    split
    · rename_i h
      obtain ⟨rfl, rfl⟩ := Prod.mk.inj (Option.some.inj (hh.symm.trans h))
      exact ih
    · rename_i h
      rw [hh] at h
      cases h

/-- The scan stops at a character outside the class that opens no
placeholder. -/
theorem skipPlain_stop {c : Char} (hc : plain c = false) (hne : c ≠ '<') (s : Text) :
    skipPlain plain (c :: s) = c :: s := by
  rw [skipPlain]
  split
  · rename_i h
    rw [placeholder?_cons_of_ne hne] at h
    cases h
  · simp [hc]

/-- What the scan passes over is plain. -/
theorem exists_eq_append_skipPlain (s : Text) :
    ∃ w, s = w ++ skipPlain plain s ∧ IsPlain plain w := by
  fun_induction skipPlain plain s with
  | case1 s name rest h ih =>
    obtain ⟨hn, rfl⟩ := placeholder?_eq_some.1 h
    obtain ⟨w, hw, hp⟩ := ih
    exact ⟨'<' :: name ++ '>' :: w, by simp [← hw], .slot hn hp⟩
  | case2 => exact ⟨[], rfl, .nil⟩
  | case3 c r _ hc ih =>
    obtain ⟨w, hw, hp⟩ := ih
    exact ⟨c :: w, by simp [← hw], .char hc hp⟩
  | case4 c r => exact ⟨[], rfl, .nil⟩

/-- **A concrete fragment** is made of literal characters and
placeholders. -/
theorem isConcrete_iff {s : Text} : isConcrete s = true ↔ IsPlain isLiteral s := by
  unfold isConcrete
  constructor
  · intro h
    obtain ⟨w, hs, hw⟩ : ∃ w, _ ∧ IsPlain isLiteral w := exists_eq_append_skipPlain s
    rw [List.isEmpty_iff.1 h, List.append_nil] at hs
    exact hs ▸ hw
  · intro h
    have hs := skipPlain_append (by decide) h []
    rw [List.append_nil] at hs
    rw [hs, skipPlain]
    rfl

end Fragment

/-- A text between brackets. -/
def Bracket.enclose (b : Bracket) (inside : Text) : Text :=
  b.opening :: inside ++ [b.closing]

/-- A template starts out as a round group. -/
theorem Worklist.seed_eq (template : Text) : seed template = Bracket.round.enclose template := rfl

/-- What a group with these variants may be replaced by: one of them, and
nothing at all when it is optional. -/
def Bracket.options (b : Bracket) (variants : List Text) : List Text :=
  match b with
  | .round => variants
  | .square => variants ++ [[]]

theorem Bracket.isPlain_of_mem_options {b : Bracket} {plain : Char → Bool} {variants : List Text}
    {x : Text} (h : ∀ y ∈ variants, IsPlain plain y) (hx : x ∈ b.options variants) :
    IsPlain plain x := by
  cases b with
  | round => exact h x hx
  | square =>
    rcases List.mem_append.1 hx with hx | hx
    · exact h x hx
    · rw [List.mem_singleton.1 hx]
      exact .nil

/-- What a group with this text between its brackets may be replaced by. -/
def Bracket.choices (b : Bracket) (inside : Text) : List Text :=
  b.options (Fragment.variants inside)

theorem Bracket.choices_intercalate {b : Bracket} {variants : List Text}
    (hbar : ∀ x ∈ variants, '|' ∉ x) (hne : variants ≠ []) :
    b.choices (['|'].intercalate variants) = b.options variants := by
  rw [choices, Fragment.variants, List.splitOn_intercalate '|' hbar hne]

private theorem infix_intercalate {sep x : Text} {texts : List Text} (hx : x ∈ texts) :
    x <:+: sep.intercalate texts := by
  induction texts with
  | nil => simp at hx
  | cons a texts ih =>
    cases texts with
    | nil => simp_all
    | cons b texts =>
      rw [List.intercalate_cons_cons]
      rcases List.mem_cons.1 hx with rfl | hx
      · exact ⟨[], sep ++ sep.intercalate (b :: texts), by simp⟩
      · exact (ih hx).trans (List.suffix_append _ _).isInfix

/-- What a group may be replaced by is a piece of its inside. -/
theorem Bracket.infix_of_mem_choices {b : Bracket} {w x : Text} (hx : x ∈ b.choices w) :
    x <:+: w := by
  have hvariant : ∀ {x}, x ∈ Fragment.variants w → x <:+: w := fun hx => by
    have h : _ <:+: ['|'].intercalate (Fragment.variants w) := infix_intercalate hx
    rwa [Fragment.variants, List.intercalate_splitOn] at h
  cases b with
  | round => exact hvariant hx
  | square =>
    rcases List.mem_append.1 hx with hx | hx
    · exact hvariant hx
    · rw [List.mem_singleton.1 hx]
      exact List.nil_infix

theorem notMem_of_mem_splitOn {c : Char} {s x : Text} (hx : x ∈ s.splitOn c) : c ∉ x := by
  induction s generalizing x with
  | nil =>
    obtain rfl : x = [] := by simpa using hx
    simp
  | cons d s ih =>
    rw [List.splitOn_cons_eq_if_modifyHead] at hx
    split at hx
    · rcases List.mem_cons.1 hx with rfl | hx
      · simp
      · exact ih hx
    · rename_i hd
      cases hsplit : s.splitOn c with
      | nil => exact absurd hsplit (List.splitOn_ne_nil c s)
      | cons y rest =>
        rw [hsplit, List.modifyHead_cons] at hx
        rcases List.mem_cons.1 hx with rfl | hx
        · have hy : c ∉ y := ih (by simp [hsplit])
          have hne : c ≠ d := fun h => hd (by simp [h])
          simp [hy, hne]
        · exact ih (by simp [hsplit, hx])

/-- What a group may be replaced by holds no bar. -/
theorem Bracket.bar_notMem_of_mem_choices {b : Bracket} {w x : Text} (hx : x ∈ b.choices w) :
    '|' ∉ x := by
  cases b with
  | round => exact notMem_of_mem_splitOn hx
  | square =>
    rcases List.mem_append.1 hx with hx | hx
    · exact notMem_of_mem_splitOn hx
    · simp [List.mem_singleton.1 hx]

/-- There is always something that a group may be replaced by. -/
theorem Bracket.choices_ne_nil (b : Bracket) (w : Text) : b.choices w ≠ [] := by
  cases b with
  | round => exact List.splitOn_ne_nil '|' w
  | square => exact List.concat_ne_nil _ _

/-- To omit a group is to take an empty variant. -/
theorem Bracket.choices_append_bar (w : Text) :
    Bracket.round.choices (w ++ ['|']) = Bracket.square.choices w :=
  List.splitOn_append_cons_self w []

theorem Bracket.dollar_notMem_of_mem_choices {b : Bracket} {w x : Text}
    (hw : IsPlain Fragment.isGroupChar w) (hx : x ∈ b.choices w) : '$' ∉ x :=
  fun h => hw.dollar_notMem ((infix_of_mem_choices hx).subset h)

@[simp] theorem Bracket.length_enclose (b : Bracket) (w : Text) :
    (b.enclose w).length = w.length + 2 := by
  simp [Bracket.enclose]

@[simp] theorem Bracket.dollar_mem_enclose {b : Bracket} {w : Text} :
    '$' ∈ b.enclose w ↔ '$' ∈ w := by
  cases b <;> simp [Bracket.enclose, Bracket.opening, Bracket.closing]

namespace Fragment

/-- **The group at the head of a text** is its brackets with a plain text
between them. -/
theorem group?_eq_some {b : Bracket} {s inside rest : Text} :
    group? b s = some (inside, rest) ↔
      s = b.enclose inside ++ rest ∧ IsPlain isGroupChar inside := by
  have hclose : isGroupChar b.closing = false ∧ b.closing ≠ '<' := by cases b <;> decide
  constructor
  · intro h
    obtain ⟨hs, hskip⟩ := eq_of_group? h
    obtain ⟨w, hw, hp⟩ : ∃ w, _ ∧ IsPlain isGroupChar w :=
      exists_eq_append_skipPlain (inside ++ b.closing :: rest)
    rw [hskip] at hw
    obtain rfl := List.append_cancel_right hw
    exact ⟨by simp [hs, Bracket.enclose], hp⟩
  · rintro ⟨rfl, hp⟩
    have hskip : skipPlain isGroupChar (inside ++ b.closing :: rest) = b.closing :: rest := by
      rw [skipPlain_append (by decide) hp, skipPlain_stop hclose.1 hclose.2]
    simp [Bracket.enclose, group?, hskip]

/-- A group can be resolved wherever it stands. -/
theorem leftmost?_group?_ne_none {b : Bracket} {u w v : Text} (hw : IsPlain isGroupChar w) :
    Text.leftmost? (group? b) (u ++ b.enclose w ++ v) ≠ none := by
  rw [Ne, Text.leftmost?_eq_none]
  intro h
  have hg := h (b.enclose w ++ v) (by simp)
  rw [group?_eq_some.2 ⟨rfl, hw⟩] at hg
  cases hg

/-- A fragment with a group in it is not concrete. -/
theorem isConcrete_append_enclose (b : Bracket) (u w v : Text) :
    isConcrete (u ++ b.enclose w ++ v) = false := by
  rw [Bool.eq_false_iff, Ne, isConcrete_iff]
  intro h
  exact h.of_literal.opening_notMem b (by simp [Bracket.enclose])

end Fragment

/-- The shape of a fragment whose next construct is a group. -/
def Shape.ofGroup (b : Bracket) (before inside after : Text) : Shape :=
  match b with
  | .round => .choice before (Fragment.variants inside) after
  | .square => .optional before (Fragment.variants inside) after

/-- A definition is put into the text as a round group. -/
theorem Shape.successors_reference (vars : Variables) (before name after : Text) :
    (Shape.reference before name after).successors vars =
      [before ++ Bracket.round.enclose ((vars.get? name).getD []) ++ after] := by
  simp [Shape.successors, Bracket.enclose, Bracket.opening, Bracket.closing]

@[simp] theorem Shape.successors_ofGroup (vars : Variables) (b : Bracket)
    (before inside after : Text) :
    (Shape.ofGroup b before inside after).successors vars =
      (b.choices inside).map fun x => before ++ x ++ after := by
  cases b <;> simp [Shape.ofGroup, Shape.successors, Bracket.choices, Bracket.options]

namespace Fragment

/-- **What the shape of a fragment says about it**: one case for each kind
of construct that comes next, and one for each way to end. -/
theorem classify_cases (f : Text) :
    (classify f = .concrete ∧ IsPlain isLiteral f) ∨
    (∃ u name v, classify f = .reference u name v ∧ f = u ++ '$' :: name ++ v ∧
      IsIdentifier name ∧ continuesIdentifier v = false) ∨
    (∃ b u w v, classify f = .ofGroup b u w v ∧ f = u ++ b.enclose w ++ v ∧
      IsPlain isGroupChar w ∧ Text.leftmost? reference? f = none) ∨
    (classify f = .stuck ∧ isConcrete f = false ∧ Text.leftmost? reference? f = none ∧
      ∀ b, Text.leftmost? (group? b) f = none) := by
  unfold classify
  split
  · rename_i h
    exact .inl ⟨rfl, isConcrete_iff.1 h⟩
  rename_i hconcrete
  split
  · rename_i u name v h
    obtain ⟨rest, rfl, hr, -⟩ := Text.leftmost?_eq_some.1 h
    obtain ⟨rfl, hn, hv⟩ := reference?_eq_some.1 hr
    exact .inr (.inl ⟨u, name, v, rfl, by simp, hn, hv⟩)
  rename_i href
  -- the two searches for a group differ in the bracket alone
  have found : ∀ {b u w v}, Text.leftmost? (group? b) f = some (u, w, v) →
      f = u ++ b.enclose w ++ v ∧ IsPlain isGroupChar w := by
    intro b u w v h
    obtain ⟨rest, rfl, hr, -⟩ := Text.leftmost?_eq_some.1 h
    obtain ⟨rfl, hw⟩ := group?_eq_some.1 hr
    exact ⟨by simp, hw⟩
  split
  · rename_i u w v h
    exact .inr (.inr (.inl ⟨.round, u, w, v, rfl, (found h).1, (found h).2, href⟩))
  rename_i hround
  split
  · rename_i u w v h
    exact .inr (.inr (.inl ⟨.square, u, w, v, rfl, (found h).1, (found h).2, href⟩))
  rename_i hsquare
  refine .inr (.inr (.inr ⟨rfl, Bool.eq_false_iff.2 hconcrete, href, fun b => ?_⟩))
  cases b
  · exact hround
  · exact hsquare

/-- **What a step does**: a reference makes way for its definition as a
round group, or a group for one of its choices. -/
theorem mem_successors {vars : Variables} {f g : Text} (h : g ∈ (classify f).successors vars) :
    (∃ u name v, f = u ++ '$' :: name ++ v ∧ IsIdentifier name ∧
      g = u ++ Bracket.round.enclose ((vars.get? name).getD []) ++ v) ∨
    (∃ b u w v x, f = u ++ Bracket.enclose b w ++ v ∧ IsPlain isGroupChar w ∧
      x ∈ b.choices w ∧ g = u ++ x ++ v) := by
  rcases classify_cases f with
    ⟨hf, -⟩ | ⟨u, name, v, hf, heq, hn, -⟩ | ⟨b, u, w, v, hf, heq, hw, -⟩ | ⟨hf, -⟩
  · simp [hf, Shape.successors] at h
  · rw [hf, Shape.successors_reference, List.mem_singleton] at h
    exact .inl ⟨u, name, v, heq, hn, h⟩
  · rw [hf, Shape.successors_ofGroup, List.mem_map] at h
    obtain ⟨x, hx, rfl⟩ := h
    exact .inr ⟨b, u, w, v, x, heq, hw, hx, rfl⟩
  · simp [hf, Shape.successors] at h

/-- A concrete fragment is seen to be one. -/
theorem classify_of_isPlain {f : Text} (h : IsPlain isLiteral f) : classify f = .concrete := by
  rw [classify, if_pos (isConcrete_iff.2 h)]

/-- **A fragment with a group in it is split next**, at that group or at
another one, unless it holds a dollar sign. -/
theorem classify_append_enclose {b : Bracket} {u w v : Text} (hw : IsPlain isGroupChar w)
    (hd : '$' ∉ u ++ b.enclose w ++ v) :
    ∃ b' u' w' v', classify (u ++ b.enclose w ++ v) = .ofGroup b' u' w' v' ∧
      u ++ b.enclose w ++ v = u' ++ b'.enclose w' ++ v' ∧ IsPlain isGroupChar w' := by
  rcases classify_cases (u ++ b.enclose w ++ v) with
    ⟨-, h⟩ | ⟨u', name, v', -, h, -⟩ | ⟨b', u', w', v', h, heq, hw', -⟩ | ⟨-, -, -, h⟩
  · exact absurd ((isConcrete_iff.2 h).symm.trans (isConcrete_append_enclose b u w v)) (by simp)
  · exact absurd (by rw [h]; simp) hd
  · exact ⟨b', u', w', v', h, heq, hw'⟩
  · exact absurd (h b) (leftmost?_group?_ne_none hw)

end Fragment

end Utterance
