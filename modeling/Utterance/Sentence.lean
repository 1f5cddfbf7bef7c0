import Utterance.Identifier

/-!
# Sentences — characters and slot placeholders

A sentence is read as a sequence of pieces, each a character or a
placeholder. Reading loses nothing (`flatMap_text_pieces`), and a
character is never the beginning of a placeholder, so the pieces are
determined by the text. The slots of a sentence are the names of its
placeholders in order (`slotNames`).
-/

namespace Utterance

/-- The characters that stand for themselves in a template: letters,
digits, the space, the apostrophe and the hyphen. -/
def isLiteral (c : Char) : Bool :=
  c.isAlphanum || c == ' ' || c == '\'' || c == '-'

/-- A piece of a sentence. -/
inductive Piece where
  /-- A character outside every placeholder. -/
  | char (c : Char)
  /-- A placeholder, by the slot it names. -/
  | slot (name : Text)
  deriving Repr, DecidableEq

namespace Piece

/-- The text of a piece. -/
def text : Piece → Text
  | .char c => [c]
  | .slot name => '<' :: name ++ ['>']

/-- The slot that a piece names. -/
def slot? : Piece → Option Text
  | .char _ => none
  | .slot name => some name

end Piece

namespace Sentence

/-- The pieces of a text, from left to right. -/
def pieces (s : Text) : List Piece :=
  match _h : placeholder? s with
  | some (name, rest) => .slot name :: pieces rest
  | none =>
    match s with
    | [] => []
    | c :: r => .char c :: pieces r
termination_by s.length
decreasing_by
  · exact length_lt_of_placeholder? _h
  · simp

@[simp] theorem pieces_nil : pieces [] = [] := by
  rw [pieces]; rfl

/-- A placeholder at the head is one piece. -/
theorem pieces_of_placeholder {s name rest : Text} (h : placeholder? s = some (name, rest)) :
    pieces s = .slot name :: pieces rest := by
  rw [pieces]; split <;> simp_all

/-- Any other head is a piece of its own. -/
theorem pieces_cons {c : Char} {r : Text} (h : placeholder? (c :: r) = none) :
    pieces (c :: r) = .char c :: pieces r := by
  rw [pieces]; split <;> simp_all

/-- **Reading loses nothing**: the pieces make up the text. -/
theorem flatMap_text_pieces (s : Text) : (pieces s).flatMap Piece.text = s := by
  fun_induction pieces s with
  | case1 s name rest h ih =>
    obtain ⟨-, rfl⟩ := placeholder?_eq_some.1 h
    simp [Piece.text, ih]
  | case2 => rfl
  | case3 c r h ih => simp [Piece.text, ih]

/-- The names in the placeholders of a sentence, in order and with
repetitions. -/
def slotNames (s : Text) : List Text :=
  (pieces s).filterMap Piece.slot?

/-- Every name in a placeholder is an identifier. -/
theorem isIdentifier_of_mem_slotNames {s name : Text} (h : name ∈ slotNames s) :
    IsIdentifier name := by
  unfold slotNames at h
  fun_induction pieces s with
  | case1 s n rest hp ih =>
    rcases List.mem_filterMap.1 h with ⟨p, hp', hn⟩
    rcases List.mem_cons.1 hp' with rfl | hm
    · exact Option.some.inj hn ▸ (placeholder?_eq_some.1 hp).1
    · exact ih (List.mem_filterMap.2 ⟨p, hm, hn⟩)
  | case2 => simp at h
  | case3 c r _ ih => exact ih (by simpa [Piece.slot?] using h)

end Sentence

end Utterance
