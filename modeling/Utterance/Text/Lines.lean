import Utterance.Text.Basic

/-!
# Lines — line ends made uniform, and the lines of a text

A carriage return that a line feed follows belongs to the line end and is
dropped (`unixLineEnds`); any other carriage return is an ordinary
character. The lines are then the pieces between line feeds, so that
every text has at least one line.
-/

namespace Utterance

namespace Text

/-- One character in front of the rest, which is kept together with
whether it begins with a line feed. -/
private def putBack (c : Char) (rest : Text × Bool) : Text × Bool :=
  (if c = '\r' ∧ rest.2 = true then rest.1 else c :: rest.1, decide (c = '\n'))

/-- The text with every carriage return dropped that a line feed follows. -/
def unixLineEnds (s : Text) : Text :=
  (s.foldr putBack ([], false)).1

private theorem foldr_putBack_snd (s : Text) :
    (s.foldr putBack ([], false)).2 = decide (s.head? = some '\n') := by
  cases s <;> simp [putBack]

@[simp] theorem unixLineEnds_nil : unixLineEnds [] = [] := rfl

theorem unixLineEnds_cons (c : Char) (r : Text) :
    unixLineEnds (c :: r) =
      if c = '\r' ∧ r.head? = some '\n' then unixLineEnds r else c :: unixLineEnds r := by
  simp only [unixLineEnds, List.foldr_cons, putBack, foldr_putBack_snd, decide_eq_true_eq]

/-- The lines of a text, without their line feeds. -/
def lines (s : Text) : List Text :=
  s.splitOn '\n'

/-- Joining the lines again gives the text. -/
theorem intercalate_lines (s : Text) : ['\n'].intercalate s.lines = s :=
  List.intercalate_splitOn '\n'

end Text

end Utterance
