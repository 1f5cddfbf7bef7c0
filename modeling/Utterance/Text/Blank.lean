import Utterance.Text.Basic

/-!
# Blanks — white space, trimming and squeezing

A blank is a character with the Unicode property White_Space. Trimming
drops the blanks at both ends (`trim`), squeezing turns every run of
blanks into one space (`squeeze`).
-/

namespace Utterance

/-- The characters with the Unicode property White_Space. -/
def isBlank (c : Char) : Bool :=
  let n := c.toNat
  (9 ≤ n && n ≤ 13) || n == 0x20 || n == 0x85 || n == 0xA0 || n == 0x1680 ||
    (0x2000 ≤ n && n ≤ 0x200A) || n == 0x2028 || n == 0x2029 || n == 0x202F ||
    n == 0x205F || n == 0x3000

namespace Text

/-- The text from its first character that is no blank. -/
def trimStart (s : Text) : Text :=
  s.dropWhile isBlank

/-- The text up to its last character that is no blank. -/
def trimEnd (s : Text) : Text :=
  (s.reverse.dropWhile isBlank).reverse

/-- The text without the blanks at both ends. -/
def trim (s : Text) : Text :=
  s.trimStart.trimEnd

/-- The blanks that a text begins with. -/
def indent (s : Text) : Text :=
  s.takeWhile isBlank

/-- Every run of blanks becomes one space. -/
def squeeze (s : Text) : Text :=
  s.foldr
    (fun c rest => if isBlank c then (if rest.head? = some ' ' then rest else ' ' :: rest)
      else c :: rest)
    []

@[simp] theorem squeeze_nil : squeeze [] = [] := rfl

theorem squeeze_cons (c : Char) (r : Text) :
    squeeze (c :: r) =
      if isBlank c then (if (squeeze r).head? = some ' ' then squeeze r else ' ' :: squeeze r)
      else c :: squeeze r := by
  rw [squeeze, List.foldr_cons, ← squeeze]

/-- The blanks in front and the trimmed text make up the text. -/
theorem indent_append_trimStart (s : Text) : s.indent ++ s.trimStart = s :=
  List.takeWhile_append_dropWhile

end Text

end Utterance
