import Utterance.Text.Blank

/-!
# Keywords and cleaned lines

A line of a source is cleaned before it is read: what follows the first
`#` is a comment, the blanks at both ends go, and every run of blanks
becomes one space (`Line.clean`). A cleaned line that begins with a
keyword, in upper or lower case, is a declaration of that keyword's form.
-/

namespace Utterance

/-- The keywords of declarations. -/
inductive Keyword where
  /-- `INVOCATION:` -/
  | invocation
  /-- `LANG:` -/
  | language
  /-- `INTENT:` -/
  | intent
  /-- `ENTITY:` -/
  | entity
  /-- `SLOT:` -/
  | slot
  deriving Repr, DecidableEq

namespace Keyword

/-- All keywords. -/
def all : List Keyword :=
  [invocation, language, intent, entity, slot]

/-- How a keyword is written. -/
def word : Keyword → Text
  | invocation => "INVOCATION:".toList
  | language => "LANG:".toList
  | intent => "INTENT:".toList
  | entity => "ENTITY:".toList
  | slot => "SLOT:".toList

/-- The form that a keyword's declaration should have. -/
def form : Keyword → String
  | invocation => "INVOCATION: invocation name"
  | language => "LANG: en-US"
  | intent => "INTENT: IntentName"
  | entity => "ENTITY: EntityName"
  | slot => "SLOT: name [:Type] [~ example]"

/-- Whether a line begins with a keyword, in whatever case. -/
def opens (line : Text) (k : Keyword) : Bool :=
  (line.take k.word.length).map Char.toUpper == k.word

/-- The keyword that a line begins with. -/
def leading? (line : Text) : Option Keyword :=
  all.find? (opens line)

/-- A line begins with a keyword when the word is a prefix of the line in
upper case. -/
theorem opens_iff {line : Text} {k : Keyword} :
    opens line k = true ↔ k.word <+: line.map Char.toUpper := by
  rw [opens, beq_iff_eq, List.prefix_iff_eq_take, List.map_take]
  exact eq_comm

private theorem eq_of_word_le {j k : Keyword} (h : j.word <+: k.word) : j = k := by
  revert h
  cases j <;> cases k <;> decide

/-- **A line begins with at most one keyword.** -/
theorem leading?_eq_some_iff {line : Text} {k : Keyword} :
    leading? line = some k ↔ opens line k = true := by
  refine ⟨fun h => List.find?_some h, fun h => ?_⟩
  cases hl : leading? line with
  | none =>
    have := List.find?_eq_none.1 hl k (by cases k <;> simp [all])
    exact absurd h this
  | some j =>
    have hj : opens line j = true := List.find?_some hl
    rcases List.prefix_or_prefix_of_prefix (opens_iff.1 hj) (opens_iff.1 h) with hp | hp
    · rw [eq_of_word_le hp]
    · rw [eq_of_word_le hp]

end Keyword

namespace Line

/-- The line without its comment, the blanks at both ends and all but one
space of every run of blanks. -/
def clean (raw : Text) : Text :=
  Text.squeeze (Text.trim (raw.takeWhile (· ≠ '#')))

end Line

end Utterance
