import Utterance.Text.Basic
import Utterance.Text.LetterCase

/-!
# Lower case

The lower-case form of a text, by the full mapping of the Unicode
standard: a character outside the tables keeps its form, the capital I
with a dot above becomes two characters, and a capital sigma becomes the
final sigma at the end of a word. ASCII is decided first, so that the
form of an identifier needs no table (`lower_of_ascii`).
-/

namespace Utterance

namespace LetterCase

/-- Whether a character takes part in case, and is not skipped when the
neighbours of a sigma are looked up. -/
def isCased (c : Char) : Bool :=
  casedRanges.contains c.toNat

/-- Whether a character is skipped when the neighbours of a sigma are
looked up. -/
def isIgnorable (c : Char) : Bool :=
  ignorableRanges.contains c.toNat

/-- The entry of the table for a code point outside ASCII. -/
def ofTable (n : Nat) : Option Nat :=
  (lowerRanges.find? fun r => r.first ≤ n && n ≤ r.last && (n - r.first) % r.step == 0).map
    fun r => r.lower + (n - r.first)

/-- The lower-case form of one character, whatever stands around it. -/
def lowerChar (c : Char) : Text :=
  if c.toNat < 0x80 then [c.toLower]
  else if c.toNat = 0x130 then ['i', Char.ofNat 0x307]
  else [((ofTable c.toNat).map Char.ofNat).getD c]

/-- Whether the first character of a text that is not ignorable is cased. -/
def meetsCased (s : Text) : Bool :=
  (s.dropWhile isIgnorable).head?.any isCased

/-- Sigma ends a word when a cased character stands before it and none
after it. `before` is read from the sigma outwards. -/
def sigma (before after : Text) : Char :=
  if meetsCased before && !meetsCased after then 'ς' else 'σ'

end LetterCase

namespace Text

open LetterCase in
/-- The lower-case form of a text. -/
def lower (s : Text) : Text :=
  go [] s
where
  /-- The form of the rest, after the given text in reverse. -/
  go (before : Text) : Text → Text
    | [] => []
    | c :: r => (if c = 'Σ' then [sigma before r] else lowerChar c) ++ go (c :: before) r

private theorem lower_go (before s : Text) (h : ∀ c ∈ s, c.toNat < 0x80) :
    lower.go before s = s.map Char.toLower := by
  induction s generalizing before with
  | nil => rfl
  | cons c r ih =>
    have hc : c.toNat < 0x80 := h c (by simp)
    have hs : c ≠ 'Σ' := by rintro rfl; revert hc; decide
    simp [lower.go, hs, LetterCase.lowerChar, hc, ih _ fun d hd => h d (by simp [hd])]

/-- **In ASCII, letters are mapped one by one.** -/
theorem lower_of_ascii {s : Text} (h : ∀ c ∈ s, c.toNat < 0x80) :
    s.lower = s.map Char.toLower :=
  lower_go [] s h

end Text

end Utterance
