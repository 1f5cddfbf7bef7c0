/-!
# Ranges of code points

The tables of the Unicode standard list classes of characters as ranges
of code points in ascending order. A look-up stops at the first range
that begins past the code point (`Ranges.contains`), so that no range
may begin before the one in front of it.
-/

namespace Utterance

/-- Ranges of code points, each given by its first and its last one, in
ascending order. -/
abbrev Ranges := List (Nat × Nat)

namespace Ranges

/-- Whether a code point lies in one of the ranges. -/
def contains : Ranges → Nat → Bool
  | [], _ => false
  | (first, last) :: rest, n => first ≤ n && (n ≤ last || contains rest n)

end Ranges

end Utterance
