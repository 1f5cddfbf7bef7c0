import Utterance.Sentence

/-!
# Fragments — the shape of a partly expanded template

A fragment is a template in which some constructs may already be
resolved. Its shape says which construct is resolved next (`classify`): a
concrete fragment has none left; otherwise the leftmost variable
reference comes first, so that the alternatives of a definition are
expanded inside the text around it, then the leftmost round group and
then the leftmost square group whose inside is plain. A fragment with
none of these is stuck. A shape carries the text before and after the
construct, so that resolving it is a concatenation; `text_classify` says
that nothing is lost on the way.
-/

namespace Utterance

/-- The two kinds of brackets. -/
inductive Bracket where
  /-- `( )`, one of the variants. -/
  | round
  /-- `[ ]`, one of the variants or nothing. -/
  | square
  deriving Repr, DecidableEq

namespace Bracket

/-- The opening bracket. -/
def opening : Bracket → Char
  | .round => '('
  | .square => '['

/-- The closing bracket. -/
def closing : Bracket → Char
  | .round => ')'
  | .square => ']'

end Bracket

/-- The shape of a fragment: the construct that is resolved next. -/
inductive Shape where
  /-- Only literal characters and placeholders. -/
  | concrete
  /-- The leftmost `$name`. -/
  | reference (before name after : Text)
  /-- The leftmost round group that can be resolved. -/
  | choice (before : Text) (variants : List Text) (after : Text)
  /-- The leftmost square group that can be resolved. -/
  | optional (before : Text) (variants : List Text) (after : Text)
  /-- Nothing can be resolved, and the fragment is not concrete. -/
  | stuck
  deriving Repr, DecidableEq

namespace Fragment

/-- The characters that may stand inside a group that can be resolved. -/
def isGroupChar (c : Char) : Bool :=
  isLiteral c || c == '|'

/-- What is left of a text after its longest beginning made of characters
of one class and placeholders. -/
def skipPlain (plain : Char → Bool) (s : Text) : Text :=
  match _h : placeholder? s with
  | some (_, rest) => skipPlain plain rest
  | none =>
    match s with
    | [] => []
    | c :: r => if plain c then skipPlain plain r else c :: r
termination_by s.length
decreasing_by
  · exact length_lt_of_placeholder? _h
  · simp

/-- Whether only literal characters and placeholders are left. -/
def isConcrete (s : Text) : Bool :=
  (skipPlain isLiteral s).isEmpty

/-- The reference at the head of a text: the variable, and the rest. -/
def reference? : Text → Option (Text × Text)
  | '$' :: r => identifier? r
  | _ => none

/-- The group at the head of a text, if its inside is plain: the inside,
and the rest. -/
def group? (b : Bracket) : Text → Option (Text × Text)
  | [] => none
  | c :: r =>
    if c = b.opening then
      match skipPlain isGroupChar r with
      | [] => none
      | d :: rest => if d = b.closing then some (r.take (r.length - (rest.length + 1)), rest) else none
    else none

/-- The variants of a group, which bars separate. -/
def variants (inside : Text) : List Text :=
  inside.splitOn '|'

/-- **The shape of a fragment.** -/
def classify (f : Text) : Shape :=
  if isConcrete f then .concrete
  else match f.leftmost? reference? with
  | some (before, name, after) => .reference before name after
  | none => match f.leftmost? (group? .round) with
    | some (before, inside, after) => .choice before (variants inside) after
    | none => match f.leftmost? (group? .square) with
      | some (before, inside, after) => .optional before (variants inside) after
      | none => .stuck

end Fragment

namespace Shape

/-- The word for a shape in the log. -/
def name : Shape → String
  | .concrete => "vanilla"
  | .reference .. => "variable"
  | .choice .. => "alternation"
  | .optional .. => "optional"
  | .stuck => "unrecognized"

/-- The text of the construct that is resolved next. -/
def construct? : Shape → Option Text
  | .concrete | .stuck => none
  | .reference _ name _ => some ('$' :: name)
  | .choice _ variants _ => some ('(' :: ['|'].intercalate variants ++ [')'])
  | .optional _ variants _ => some ('[' :: ['|'].intercalate variants ++ [']'])

/-- The text before the construct. -/
def before : Shape → Text
  | .concrete | .stuck => []
  | .reference before .. | .choice before .. | .optional before .. => before

/-- The text after the construct. -/
def after : Shape → Text
  | .concrete | .stuck => []
  | .reference _ _ after | .choice _ _ after | .optional _ _ after => after

/-- The first byte of the construct and the byte after its last one. -/
def range? (shape : Shape) : Option (Nat × Nat) :=
  shape.construct?.map fun c =>
    (shape.before.byteSize, shape.before.byteSize + c.byteSize)

end Shape

namespace Fragment

theorem skipPlain_suffix (plain : Char → Bool) (s : Text) : skipPlain plain s <:+ s := by
  fun_induction skipPlain plain s with
  | case1 s name rest h ih =>
    obtain ⟨-, rfl⟩ := placeholder?_eq_some.1 h
    exact ih.trans ⟨'<' :: name ++ ['>'], by simp⟩
  | case2 => exact List.suffix_rfl
  | case3 c r _ _ ih => exact ih.trans (List.suffix_cons c r)
  | case4 => exact List.suffix_rfl

/-- A reference is a dollar sign before an identifier. -/
theorem reference?_eq_some {s name rest : Text} :
    reference? s = some (name, rest) ↔
      s = '$' :: name ++ rest ∧ IsIdentifier name ∧ continuesIdentifier rest = false := by
  constructor
  · intro h
    unfold reference? at h
    split at h
    · obtain ⟨rfl, hn⟩ := identifier?_eq_some.1 h
      exact ⟨rfl, hn⟩
    · simp at h
  · rintro ⟨rfl, hn⟩
    exact identifier?_eq_some.2 ⟨rfl, hn⟩

/-- A group is its inside between its brackets. -/
theorem eq_of_group? {b : Bracket} {s inside rest : Text} (h : group? b s = some (inside, rest)) :
    s = b.opening :: inside ++ b.closing :: rest ∧
      skipPlain isGroupChar (inside ++ b.closing :: rest) = b.closing :: rest := by
  unfold group? at h
  split at h
  · simp at h
  · rename_i c r
    split at h
    · rename_i hc
      subst hc
      split at h
      · simp at h
      · rename_i d rest' hd
        split at h
        · rename_i hdc
          subst hdc
          obtain ⟨rfl, rfl⟩ := Prod.mk.inj (Option.some.inj h)
          obtain ⟨t, ht⟩ := hd ▸ skipPlain_suffix isGroupChar r
          have : r.take (r.length - (rest'.length + 1)) = t := by
            rw [← ht]; simp
          rw [this]
          exact ⟨by simp [ht], by rw [ht, hd]⟩
        · simp at h
    · simp at h

/-- **Nothing is lost**: the text before the construct, the construct and
the text after it make up the fragment. -/
theorem text_classify {f construct : Text} (h : (classify f).construct? = some construct) :
    f = (classify f).before ++ construct ++ (classify f).after := by
  revert h
  unfold classify
  split
  · simp [Shape.construct?]
  · split
    · rename_i before name after hl
      obtain ⟨rest, rfl, hr, -⟩ := Text.leftmost?_eq_some.1 hl
      obtain ⟨rfl, -⟩ := reference?_eq_some.1 hr
      rintro ⟨⟩
      simp [Shape.before, Shape.after]
    · split
      · rename_i before inside after hl
        obtain ⟨rest, rfl, hr, -⟩ := Text.leftmost?_eq_some.1 hl
        obtain ⟨rfl, -⟩ := eq_of_group? hr
        rintro ⟨⟩
        simp [Shape.before, Shape.after, variants, List.intercalate_splitOn, Bracket.opening,
          Bracket.closing]
      · split
        · rename_i before inside after hl
          obtain ⟨rest, rfl, hr, -⟩ := Text.leftmost?_eq_some.1 hl
          obtain ⟨rfl, -⟩ := eq_of_group? hr
          rintro ⟨⟩
          simp [Shape.before, Shape.after, variants, List.intercalate_splitOn, Bracket.opening,
            Bracket.closing]
        · simp [Shape.construct?]

end Fragment

end Utterance
