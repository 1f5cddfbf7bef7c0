import Utterance.Proofs.Groups

/-!
# Placeholders — where a text names its slots

A placeholder is found wherever it is written. An opening angle bracket
begins a piece of its own (`Sentence.pieces_append_open`), so that the
names of a text are those before a placeholder, its own and those behind
it (`Sentence.slotNames_append_slot`), and a name is listed exactly when
the text holds its placeholder (`Sentence.mem_slotNames_iff`). In a plain
text every angle bracket belongs to a placeholder that is listed
(`IsPlain.opens_slot`, `IsPlain.closes_slot`).
-/

namespace Utterance

theorem opening_notMem_of_isIdentifier {name : Text} (h : IsIdentifier name) : '<' ∉ name :=
  fun hm => absurd (isIdentChar_of_isIdentifier h _ hm) (by decide)

theorem closing_notMem_of_isIdentifier {name : Text} (h : IsIdentifier name) : '>' ∉ name :=
  fun hm => absurd (isIdentChar_of_isIdentifier h _ hm) (by decide)

/-- A placeholder does not reach past an opening angle bracket. -/
theorem placeholder?_append_open {p r : Text} (h : placeholder? p = none) (hne : p ≠ []) :
    placeholder? (p ++ '<' :: r) = none := by
  cases hfound : placeholder? (p ++ '<' :: r) with
  | none => rfl
  | some found =>
    obtain ⟨name, rest⟩ := found
    obtain ⟨hn, heq⟩ := placeholder?_eq_some.1 hfound
    obtain ⟨c, p, rfl⟩ := List.exists_cons_of_ne_nil hne
    obtain ⟨rfl, hin⟩ := List.cons.inj heq
    obtain ⟨m, rfl, hm⟩ := exists_eq_append_of_notMem (opening_notMem_of_isIdentifier hn) hin.symm
    -- it closes before that bracket, and then it is there without it
    cases m with
    | nil => simp at hm
    | cons d m =>
      obtain ⟨rfl, -⟩ := List.cons.inj hm
      have hclosed : placeholder? ('<' :: name ++ '>' :: m) = some (name, m) :=
        placeholder?_eq_some.2 ⟨hn, rfl⟩
      rw [List.cons_append, h] at hclosed
      cases hclosed

namespace Sentence

/-- **An opening angle bracket begins a piece.** -/
theorem pieces_append_open (p r : Text) :
    pieces (p ++ '<' :: r) = pieces p ++ pieces ('<' :: r) := by
  fun_induction pieces p with
  | case1 p name rest h ih =>
    obtain ⟨hn, rfl⟩ := placeholder?_eq_some.1 h
    have hmore : placeholder? ('<' :: name ++ '>' :: rest ++ '<' :: r) =
        some (name, rest ++ '<' :: r) := placeholder?_eq_some.2 ⟨hn, by simp⟩
    rw [pieces_of_placeholder hmore, ih, List.cons_append]
  | case2 => simp
  | case3 c p h ih =>
    have hmore := placeholder?_append_open (r := r) h (by simp)
    rw [List.cons_append] at hmore ⊢
    rw [pieces_cons hmore, ih, List.cons_append]

/-- The names around a placeholder. -/
theorem slotNames_append_slot {name : Text} (hn : IsIdentifier name) (p rest : Text) :
    slotNames (p ++ '<' :: (name ++ '>' :: rest)) = slotNames p ++ name :: slotNames rest := by
  have hslot : placeholder? ('<' :: (name ++ '>' :: rest)) = some (name, rest) :=
    placeholder?_eq_some.2 ⟨hn, by simp⟩
  rw [slotNames, pieces_append_open, pieces_of_placeholder hslot, List.filterMap_append]
  rfl

/-- **A name is listed exactly when its placeholder occurs.** -/
theorem mem_slotNames_iff {s name : Text} :
    name ∈ slotNames s ↔ IsIdentifier name ∧ '<' :: name ++ ['>'] <:+: s := by
  constructor
  · intro h
    refine ⟨isIdentifier_of_mem_slotNames h, ?_⟩
    obtain ⟨piece, hpiece, hname⟩ := List.mem_filterMap.1 h
    obtain ⟨before, after, hsplit⟩ := List.append_of_mem hpiece
    have hs := flatMap_text_pieces s
    cases piece with
    | char c => cases hname
    | slot other =>
      obtain rfl : other = name := Option.some.inj hname
      rw [hsplit, List.flatMap_append, List.flatMap_cons] at hs
      exact ⟨before.flatMap Piece.text, after.flatMap Piece.text, by rw [← hs]; simp [Piece.text]⟩
  · rintro ⟨hn, p, q, rfl⟩
    have hshape : p ++ ('<' :: name ++ ['>']) ++ q = p ++ '<' :: (name ++ '>' :: q) := by simp
    rw [hshape, slotNames_append_slot hn]
    simp

theorem slotNames_of_notMem {s : Text} (h : '<' ∉ s) : slotNames s = [] := by
  rw [List.eq_nil_iff_forall_not_mem]
  intro name hname
  have hopen : '<' ∈ '<' :: name ++ ['>'] := by simp
  exact h ((mem_slotNames_iff.1 hname).2.subset hopen)

/-- The pieces of a plain text are characters of its class and
placeholders. -/
theorem mem_pieces_of_isPlain {plain : Char → Bool} (hp : plain '<' = false) {s : Text}
    (hs : IsPlain plain s) {piece : Piece} (h : piece ∈ pieces s) :
    (∃ c, plain c = true ∧ piece = .char c) ∨ ∃ name ∈ slotNames s, piece = .slot name := by
  have hclass : ∀ piece ∈ pieces s,
      (∃ c, plain c = true ∧ piece = .char c) ∨ ∃ name, piece = .slot name := by
    clear h
    induction hs with
    | nil => simp
    | @char c rest hc _ ih =>
      have hne : c ≠ '<' := by
        rintro rfl
        rw [hp] at hc
        cases hc
      rw [pieces_cons (placeholder?_cons_of_ne hne rest), List.forall_mem_cons]
      exact ⟨.inl ⟨c, hc, rfl⟩, ih⟩
    | @slot name rest hn _ ih =>
      rw [pieces_of_placeholder (placeholder?_eq_some.2 ⟨hn, rfl⟩), List.forall_mem_cons]
      exact ⟨.inr ⟨name, rfl⟩, ih⟩
  rcases hclass piece h with hchar | ⟨name, rfl⟩
  · exact .inl hchar
  · exact .inr ⟨name, List.mem_filterMap.2 ⟨_, h, rfl⟩, rfl⟩

end Sentence

namespace IsPlain

open Sentence

variable {plain : Char → Bool} {s p q : Text}

/-- **An opening angle bracket of a plain text opens a placeholder**, which
is listed. -/
theorem opens_slot (hp : plain '<' = false) (hs : IsPlain plain s) (h : s = p ++ '<' :: q) :
    ∃ name rest, q = name ++ '>' :: rest ∧
      slotNames s = slotNames p ++ name :: slotNames rest := by
  subst h
  cases hslot : placeholder? ('<' :: q) with
  | none =>
    have hmem : .char '<' ∈ pieces (p ++ '<' :: q) := by
      rw [pieces_append_open, pieces_cons hslot]
      simp
    rcases mem_pieces_of_isPlain hp hs hmem with ⟨c, hc, heq⟩ | ⟨name, -, heq⟩
    · obtain rfl := Piece.char.inj heq
      rw [hp] at hc
      cases hc
    · cases heq
  | some found =>
    obtain ⟨name, rest⟩ := found
    obtain ⟨hn, heq⟩ := placeholder?_eq_some.1 hslot
    obtain ⟨-, rfl⟩ := List.cons.inj heq
    exact ⟨name, rest, rfl, slotNames_append_slot hn p rest⟩

/-- **A closing angle bracket closes one.** -/
theorem closes_slot (hp : plain '>' = false) (hs : IsPlain plain s) (h : s = p ++ '>' :: q) :
    ∃ before name, p = before ++ '<' :: name ∧
      slotNames s = slotNames before ++ name :: slotNames q := by
  have hopened : ∃ before name, p = before ++ '<' :: name ∧ IsIdentifier name := by
    induction hs generalizing p with
    | nil => simp at h
    | @char c rest hc _ ih =>
      cases p with
      | nil =>
        obtain ⟨rfl, -⟩ := List.cons.inj h
        rw [hp] at hc
        cases hc
      | cons d p =>
        obtain ⟨rfl, hrest⟩ := List.cons.inj h
        obtain ⟨before, name, rfl, hn⟩ := ih hrest
        exact ⟨c :: before, name, rfl, hn⟩
    | @slot name rest hn _ ih =>
      have hno : '>' ∉ '<' :: name := by simp [closing_notMem_of_isIdentifier hn]
      obtain ⟨m, rfl, hm⟩ := exists_eq_append_of_notMem hno h
      cases m with
      | nil => exact ⟨[], name, by simp, hn⟩
      | cons d m =>
        obtain ⟨rfl, hrest⟩ := List.cons.inj hm
        obtain ⟨before, other, rfl, ho⟩ := ih hrest
        exact ⟨'<' :: name ++ '>' :: before, other, by simp, ho⟩
  obtain ⟨before, name, rfl, hn⟩ := hopened
  refine ⟨before, name, rfl, ?_⟩
  rw [h, List.append_assoc]
  exact slotNames_append_slot hn before q

end IsPlain

end Utterance
