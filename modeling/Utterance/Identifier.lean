import Utterance.Text.Basic

/-!
# Identifiers and placeholders

An identifier is a letter or underscore followed by letters, digits,
underscores and hyphens, all of them ASCII. A placeholder is an identifier
between angle brackets and names a slot. Both are read at the head of a
text, with the rest: an identifier as far as it goes
(`identifier?_eq_some`), a placeholder as it is written
(`placeholder?_eq_some`).
-/

namespace Utterance

/-- The characters an identifier may begin with. -/
def isIdentStart (c : Char) : Bool :=
  c.isAlpha || c == '_'

/-- The characters an identifier may go on with. -/
def isIdentChar (c : Char) : Bool :=
  c.isAlphanum || c == '_' || c == '-'

/-- A whole text that is one identifier. -/
def IsIdentifier : Text → Prop
  | [] => False
  | c :: r => isIdentStart c = true ∧ ∀ d ∈ r, isIdentChar d = true

instance : DecidablePred IsIdentifier := fun s =>
  match s with
  | [] => inferInstanceAs (Decidable False)
  | _ :: _ => inferInstanceAs (Decidable (_ ∧ _))

/-- Whether a text goes on with a character of an identifier. -/
def continuesIdentifier (s : Text) : Bool :=
  s.head?.any isIdentChar

/-- The longest identifier at the head of a text, and the rest. -/
def identifier? : Text → Option (Text × Text)
  | [] => none
  | c :: r =>
    if isIdentStart c then some (c :: r.takeWhile isIdentChar, r.dropWhile isIdentChar) else none

private theorem continues_dropWhile (r : Text) :
    continuesIdentifier (r.dropWhile isIdentChar) = false := by
  induction r with
  | nil => rfl
  | cons c r ih =>
    rw [List.dropWhile_cons]
    split
    · exact ih
    · simp_all [continuesIdentifier]

private theorem span_ident {n rest : Text} (hn : ∀ d ∈ n, isIdentChar d = true)
    (hr : continuesIdentifier rest = false) :
    (n ++ rest).takeWhile isIdentChar = n ∧ (n ++ rest).dropWhile isIdentChar = rest := by
  induction n with
  | nil => cases rest <;> simp_all [continuesIdentifier]
  | cons c n ih => simp_all

/-- **What is read is the longest identifier.** -/
theorem identifier?_eq_some {s n rest : Text} :
    identifier? s = some (n, rest) ↔
      s = n ++ rest ∧ IsIdentifier n ∧ continuesIdentifier rest = false := by
  constructor
  · intro h
    cases s with
    | nil => simp [identifier?] at h
    | cons c r =>
      simp only [identifier?] at h
      split at h
      · rename_i hc
        obtain ⟨rfl, rfl⟩ := Prod.mk.inj (Option.some.inj h)
        exact ⟨by simp, ⟨hc, List.all_eq_true.1 List.all_takeWhile⟩,
          continues_dropWhile r⟩
      · simp at h
  · rintro ⟨rfl, hn, hr⟩
    cases n with
    | nil => exact hn.elim
    | cons c n => simp [identifier?, hn.1, (span_ident hn.2 hr).1, (span_ident hn.2 hr).2]

/-- Nothing is read exactly where no identifier can begin. -/
theorem identifier?_eq_none {s : Text} :
    identifier? s = none ↔ s.head?.any isIdentStart = false := by
  cases s <;> simp [identifier?]

/-- The placeholder at the head of a text: the slot it names, and the rest. -/
def placeholder? : Text → Option (Text × Text)
  | '<' :: r =>
    match identifier? r with
    | some (name, '>' :: rest) => some (name, rest)
    | _ => none
  | _ => none

/-- **A placeholder is an identifier between angle brackets.** -/
theorem placeholder?_eq_some {s name rest : Text} :
    placeholder? s = some (name, rest) ↔ IsIdentifier name ∧ s = '<' :: name ++ '>' :: rest := by
  constructor
  · intro h
    unfold placeholder? at h
    split at h
    · split at h
      · rename_i hid
        obtain ⟨rfl, rfl⟩ := Prod.mk.inj (Option.some.inj h)
        obtain ⟨rfl, hn, -⟩ := identifier?_eq_some.1 hid
        exact ⟨hn, rfl⟩
      · simp at h
    · simp at h
  · rintro ⟨hn, rfl⟩
    have : identifier? (name ++ '>' :: rest) = some (name, '>' :: rest) :=
      identifier?_eq_some.2 ⟨rfl, hn, rfl⟩
    simp [placeholder?, this]

/-- What follows a placeholder is shorter than the text. -/
theorem length_lt_of_placeholder? {s name rest : Text} (h : placeholder? s = some (name, rest)) :
    rest.length < s.length := by
  obtain ⟨-, rfl⟩ := placeholder?_eq_some.1 h
  simp only [List.cons_append, List.length_cons, List.length_append]
  omega

/-- A placeholder begins with an angle bracket. -/
theorem placeholder?_cons_of_ne {c : Char} (h : c ≠ '<') (r : Text) :
    placeholder? (c :: r) = none := by
  simp [placeholder?, h]

end Utterance
