import Utterance.Proofs.Groups

/-!
# Shapes — what is resolved next, and where it stands

The shape of a fragment is found by scans from left to right. Said without
them, a fragment is concrete if it is made of literal characters and
placeholders; otherwise the first reference in it is resolved, if there is any,
otherwise the first round group with a plain inside, and otherwise the first
such square group (`Fragment.classify_eq_iff`). A construct is told by a range
of bytes, which cuts the fragment between characters whatever characters it is
made of, so that a text can be put in its place (`Text.splice?_append`). Both
together are what the expansion relies on (`Fragment.classify_spec`).
-/

namespace Utterance

/-! ## Ranges of bytes -/

namespace Text

/-- The text from one byte up to another, if both stand between two characters
or at an end. -/
def slice? (s : Text) (start stop : Nat) : Option Text :=
  match s.bytePrefix? start, s.bytePrefix? stop with
  | some before, some upTo => if start ≤ stop then some (upTo.drop before.length) else none
  | _, _ => none

/-- The text with another one in the place of a range of bytes. -/
def splice? (s : Text) (start stop : Nat) (replacement : Text) : Option Text :=
  (s.slice? 0 start).bind fun before =>
    (s.slice? stop s.byteSize).map fun after => before ++ replacement ++ after

/-- **A part of a text is the slice of its bytes.** -/
theorem slice?_append (u c v : Text) :
    slice? (u ++ c ++ v) u.byteSize (u.byteSize + c.byteSize) = some c := by
  have hstart : bytePrefix? u.byteSize (u ++ c ++ v) = some u := by
    rw [List.append_assoc]
    exact bytePrefix?_append u (c ++ v)
  have hstop : bytePrefix? (u.byteSize + c.byteSize) (u ++ c ++ v) = some (u ++ c) := by
    rw [← byteSize_append]
    exact bytePrefix?_append (u ++ c) v
  rw [slice?, hstart, hstop]
  simp

/-- **A part of a text gives way to another one.** -/
theorem splice?_append (u c v x : Text) :
    splice? (u ++ c ++ v) u.byteSize (u.byteSize + c.byteSize) x = some (u ++ x ++ v) := by
  have hbefore : slice? (u ++ c ++ v) 0 u.byteSize = some u := by
    simpa using slice?_append [] u (c ++ v)
  have hafter : slice? (u ++ c ++ v) (u.byteSize + c.byteSize) (u ++ c ++ v).byteSize = some v := by
    simpa [Nat.add_assoc] using slice?_append (u ++ c) v []
  rw [splice?, hbefore, hafter]
  rfl

/-- The search finds what stands where nothing stands further left. -/
theorem leftmost?_eq_some_iff_le {α : Type} {find : Text → Option α} {s before : Text} {found : α} :
    leftmost? find s = some (before, found) ↔
      (∃ rest, s = before ++ rest ∧ find rest = some found) ∧
        ∀ p q, s = p ++ q → find q ≠ none → before.length ≤ p.length := by
  rw [leftmost?_eq_some]
  constructor
  · rintro ⟨rest, rfl, hfind, hnone⟩
    refine ⟨⟨rest, rfl, hfind⟩, fun p q hpq hq => ?_⟩
    by_contra hlt
    obtain ⟨m, rfl⟩ : p <+: before := List.prefix_of_prefix_length_le
      ⟨q, hpq.symm⟩ (List.prefix_append before rest) (by omega)
    have hm : m ≠ [] := by
      rintro rfl
      simp at hlt
    rw [List.append_assoc] at hpq
    exact hq (List.append_cancel_left hpq ▸ hnone p m rfl hm)
  · rintro ⟨⟨rest, rfl, hfind⟩, hleast⟩
    refine ⟨rest, rfl, hfind, fun p q hpq hq => ?_⟩
    by_contra hsome
    have hle := hleast p (q ++ rest) (by rw [hpq, List.append_assoc]) hsome
    have hpos := List.length_pos_iff.2 hq
    rw [hpq, List.length_append] at hle
    omega

end Text

namespace Fragment

variable {f u v w name : Text} {b : Bracket} {variants : List Text} {shape : Shape}

/-! ## The constructs of a fragment -/

/-- Some dollar sign is directly followed by a character that an identifier may
begin with. -/
def HasReference (f : Text) : Prop :=
  ∃ u c v, f = u ++ '$' :: c :: v ∧ isIdentStart c = true

/-- **The first reference**: no dollar sign further left is followed by an
identifier, and the name goes on as far as it can. -/
structure FirstReference (f before name after : Text) : Prop where
  /-- It stands there. -/
  eq : f = before ++ '$' :: name ++ after
  /-- The name is an identifier. -/
  name : IsIdentifier name
  /-- The name is as long as it can be. -/
  longest : continuesIdentifier after = false
  /-- None stands further left. -/
  first : ∀ u c v, f = u ++ '$' :: c :: v → isIdentStart c = true → before.length ≤ u.length

/-- A group stands somewhere whose inside is made of literal characters, bars
and placeholders. -/
def HasGroup (b : Bracket) (f : Text) : Prop :=
  ∃ u w v, f = u ++ b.enclose w ++ v ∧ IsPlain isGroupChar w

/-- **The first group**: between its brackets stand variants with bars between
them, and no group with a plain inside stands further left. -/
structure FirstGroup (b : Bracket) (f before : Text) (variants : List Text) (after : Text) :
    Prop where
  /-- It stands there. -/
  eq : f = before ++ b.enclose (['|'].intercalate variants) ++ after
  /-- Its inside is plain. -/
  inside : IsPlain isGroupChar (['|'].intercalate variants)
  /-- There is a variant. -/
  ne_nil : variants ≠ []
  /-- A variant holds no bar. -/
  bar : ∀ x ∈ variants, '|' ∉ x
  /-- None stands further left. -/
  first : ∀ u w v, f = u ++ b.enclose w ++ v → IsPlain isGroupChar w → before.length ≤ u.length

/-! ## What the searches find -/

theorem reference?_ne_none_iff {s : Text} :
    reference? s ≠ none ↔ ∃ c v, s = '$' :: c :: v ∧ isIdentStart c = true := by
  constructor
  · intro h
    obtain ⟨⟨name, rest⟩, hs⟩ := Option.ne_none_iff_exists'.1 h
    obtain ⟨rfl, hn, -⟩ := reference?_eq_some.1 hs
    cases name with
    | nil => exact hn.elim
    | cons c name => exact ⟨c, name ++ rest, rfl, hn.1⟩
  · rintro ⟨c, v, rfl, hc⟩
    simp [reference?, identifier?, hc]

theorem leftmost?_reference?_eq_some_iff :
    f.leftmost? reference? = some (u, name, v) ↔ FirstReference f u name v := by
  rw [Text.leftmost?_eq_some_iff_le]
  constructor
  · rintro ⟨⟨rest, rfl, hrest⟩, hleast⟩
    obtain ⟨rfl, hn, hv⟩ := reference?_eq_some.1 hrest
    exact ⟨by simp, hn, hv, fun p c q hpq hc =>
      hleast p _ hpq (reference?_ne_none_iff.2 ⟨c, q, rfl, hc⟩)⟩
  · rintro ⟨rfl, hn, hv, hfirst⟩
    refine ⟨⟨'$' :: name ++ v, by simp, reference?_eq_some.2 ⟨rfl, hn, hv⟩⟩, fun p q hpq hq => ?_⟩
    obtain ⟨c, r, rfl, hc⟩ := reference?_ne_none_iff.1 hq
    exact hfirst p c r hpq hc

theorem leftmost?_reference?_eq_none_iff :
    f.leftmost? reference? = none ↔ ¬ HasReference f := by
  rw [Text.leftmost?_eq_none]
  constructor
  · rintro hnone ⟨u, c, v, rfl, hc⟩
    exact reference?_ne_none_iff.2 ⟨c, v, rfl, hc⟩ (hnone _ (List.suffix_append ..))
  · rintro hnone rest ⟨u, rfl⟩
    by_contra hsome
    obtain ⟨c, v, rfl, hc⟩ := reference?_ne_none_iff.1 hsome
    exact hnone ⟨u, c, v, rfl, hc⟩

theorem group?_ne_none_iff {s : Text} :
    group? b s ≠ none ↔ ∃ w v, s = b.enclose w ++ v ∧ IsPlain isGroupChar w := by
  rw [Option.ne_none_iff_exists']
  constructor
  · rintro ⟨⟨w, v⟩, hs⟩
    exact ⟨w, v, group?_eq_some.1 hs⟩
  · rintro ⟨w, v, hs⟩
    exact ⟨(w, v), group?_eq_some.2 hs⟩

/-- The search for a group finds the first one, and its inside falls into the
variants in one way only. -/
theorem leftmost?_group?_eq_some_iff :
    (∃ w, f.leftmost? (group? b) = some (u, w, v) ∧ Fragment.variants w = variants) ↔
      FirstGroup b f u variants v := by
  simp only [Text.leftmost?_eq_some_iff_le]
  constructor
  · rintro ⟨w, ⟨⟨rest, rfl, hrest⟩, hleast⟩, rfl⟩
    obtain ⟨rfl, hw⟩ := group?_eq_some.1 hrest
    have hjoin : ['|'].intercalate (Fragment.variants w) = w := List.intercalate_splitOn '|'
    refine ⟨by simp [hjoin], hjoin.symm ▸ hw, List.splitOn_ne_nil '|' w,
      fun x hx => notMem_of_mem_splitOn hx, fun p x q hpq hx => ?_⟩
    rw [List.append_assoc] at hpq
    exact hleast p _ hpq (group?_ne_none_iff.2 ⟨x, q, rfl, hx⟩)
  · rintro ⟨rfl, hinside, hne, hbar, hfirst⟩
    refine ⟨_, ⟨⟨_, List.append_assoc .., group?_eq_some.2 ⟨rfl, hinside⟩⟩, fun p q hpq hq => ?_⟩,
      List.splitOn_intercalate '|' hbar hne⟩
    obtain ⟨x, r, rfl, hx⟩ := group?_ne_none_iff.1 hq
    exact hfirst p x r (by rw [hpq, List.append_assoc]) hx

theorem leftmost?_group?_eq_none_iff : f.leftmost? (group? b) = none ↔ ¬ HasGroup b f := by
  rw [Text.leftmost?_eq_none]
  constructor
  · rintro hnone ⟨u, w, v, rfl, hw⟩
    refine group?_ne_none_iff.2 ⟨w, v, rfl, hw⟩ (hnone _ ⟨u, ?_⟩)
    rw [List.append_assoc]
  · rintro hnone rest ⟨u, rfl⟩
    by_contra hsome
    obtain ⟨w, v, rfl, hw⟩ := group?_ne_none_iff.1 hsome
    exact hnone ⟨u, w, v, by rw [List.append_assoc], hw⟩

/-! ## The shape of a fragment -/

/-- **The shape that a fragment has**, said without any search. -/
inductive HasShape (f : Text) : Shape → Prop
  /-- There are only literal characters and placeholders. -/
  | concrete : IsPlain isLiteral f → HasShape f .concrete
  /-- There is more, and there is a reference. -/
  | reference {before name after : Text} :
      ¬ IsPlain isLiteral f → FirstReference f before name after →
      HasShape f (.reference before name after)
  /-- There is no reference, and there is a round group. -/
  | choice {before : Text} {variants : List Text} {after : Text} :
      ¬ IsPlain isLiteral f → ¬ HasReference f → FirstGroup .round f before variants after →
      HasShape f (.choice before variants after)
  /-- There is no reference and no round group, and there is a square group. -/
  | optional {before : Text} {variants : List Text} {after : Text} :
      ¬ IsPlain isLiteral f → ¬ HasReference f → ¬ HasGroup .round f →
      FirstGroup .square f before variants after → HasShape f (.optional before variants after)
  /-- There is none of these. -/
  | stuck :
      ¬ IsPlain isLiteral f → ¬ HasReference f → (∀ b, ¬ HasGroup b f) → HasShape f .stuck

theorem hasShape_classify (f : Text) : HasShape f (classify f) := by
  unfold classify
  split
  · rename_i hconcrete
    exact .concrete (isConcrete_iff.1 hconcrete)
  rename_i hconcrete
  rw [isConcrete_iff] at hconcrete
  split
  · rename_i u name v hfound
    exact .reference hconcrete (leftmost?_reference?_eq_some_iff.1 hfound)
  rename_i hreference
  rw [leftmost?_reference?_eq_none_iff] at hreference
  split
  · rename_i u w v hfound
    exact .choice hconcrete hreference (leftmost?_group?_eq_some_iff.1 ⟨w, hfound, rfl⟩)
  rename_i hround
  rw [leftmost?_group?_eq_none_iff] at hround
  split
  · rename_i u w v hfound
    exact .optional hconcrete hreference hround (leftmost?_group?_eq_some_iff.1 ⟨w, hfound, rfl⟩)
  rename_i hsquare
  rw [leftmost?_group?_eq_none_iff] at hsquare
  refine .stuck hconcrete hreference fun b => ?_
  cases b
  · exact hround
  · exact hsquare

/-- **A fragment has one shape**, the one that the searches find. -/
theorem classify_eq_iff : classify f = shape ↔ HasShape f shape := by
  refine ⟨fun h => h ▸ hasShape_classify f, fun h => ?_⟩
  cases h with
  | concrete hplain => exact classify_of_isPlain hplain
  | reference hplain hfirst =>
    rw [classify, if_neg (mt isConcrete_iff.1 hplain), leftmost?_reference?_eq_some_iff.2 hfirst]
  | choice hplain hreference hfirst =>
    obtain ⟨w, hfound, rfl⟩ := leftmost?_group?_eq_some_iff.2 hfirst
    rw [classify, if_neg (mt isConcrete_iff.1 hplain),
      leftmost?_reference?_eq_none_iff.2 hreference, hfound]
  | optional hplain hreference hround hfirst =>
    obtain ⟨w, hfound, rfl⟩ := leftmost?_group?_eq_some_iff.2 hfirst
    rw [classify, if_neg (mt isConcrete_iff.1 hplain),
      leftmost?_reference?_eq_none_iff.2 hreference, leftmost?_group?_eq_none_iff.2 hround, hfound]
  | stuck hplain hreference hgroup =>
    rw [classify, if_neg (mt isConcrete_iff.1 hplain),
      leftmost?_reference?_eq_none_iff.2 hreference,
      leftmost?_group?_eq_none_iff.2 (hgroup .round),
      leftmost?_group?_eq_none_iff.2 (hgroup .square)]

theorem FirstReference.hasReference (h : FirstReference f u name v) : HasReference f := by
  obtain ⟨rfl, hn, -, -⟩ := h
  cases name with
  | nil => exact hn.elim
  | cons c name => exact ⟨u, c, name ++ v, by simp, hn.1⟩

theorem FirstGroup.hasGroup (h : FirstGroup b f u variants v) : HasGroup b f :=
  ⟨u, _, v, h.eq, h.inside⟩

/-- Which kind of construct is resolved next is told by the constructs that stand
in the fragment. -/
theorem HasShape.kind (h : HasShape f shape) :
    ((∃ before name after, shape = .reference before name after) ↔
      ¬ IsPlain isLiteral f ∧ HasReference f) ∧
    ((∃ before variants after, shape = .choice before variants after) ↔
      ¬ IsPlain isLiteral f ∧ ¬ HasReference f ∧ HasGroup .round f) ∧
    ((∃ before variants after, shape = .optional before variants after) ↔
      ¬ IsPlain isLiteral f ∧ ¬ HasReference f ∧ ¬ HasGroup .round f ∧ HasGroup .square f) := by
  cases h with
  | concrete hplain => simp [hplain]
  | reference hplain hfirst => simp [hplain, hfirst.hasReference]
  | choice hplain hreference hfirst => simp [hplain, hreference, hfirst.hasGroup]
  | optional hplain hreference hround hfirst =>
    simp [hplain, hreference, hround, hfirst.hasGroup]
  | stuck hplain hreference hgroup => simp [hreference, hgroup]

end Fragment

/-! ## The place of a construct -/

/-- What the construct of a shape may be replaced by. -/
def Shape.replacements (vars : Variables) : Shape → List Text
  | .concrete | .stuck => []
  | .reference _ name _ => [Bracket.round.enclose ((vars.get? name).getD [])]
  | .choice _ variants _ => Bracket.round.options variants
  | .optional _ variants _ => Bracket.square.options variants

/-- A replacement stands between the text before the construct and the text
after it. -/
theorem Shape.successors_eq_map (vars : Variables) (shape : Shape) :
    shape.successors vars =
      (shape.replacements vars).map fun x => shape.before ++ x ++ shape.after := by
  cases shape with
  | reference u name v => exact successors_reference vars u name v
  | _ => rfl

/-- **What is resolved next in a fragment.** A fragment has the shape that
`HasShape` says, and no other: it is concrete exactly if it is made of literal
characters and placeholders; otherwise it is a reference exactly if some dollar
sign is directly followed by an identifier; otherwise a choice exactly if a
round group with a plain inside stands in it; otherwise an optional group
exactly if such a square group does; otherwise it is stuck. If there is a
construct, its range of bytes lies within the fragment and between characters:
the slice of the fragment there is the construct, and each fragment that is left
is the fragment with a replacement spliced in there. -/
theorem Fragment.classify_spec (f : Text) :
    (∀ shape, classify f = shape ↔ HasShape f shape) ∧
    ((∃ before name after, classify f = .reference before name after) ↔
      ¬ IsPlain isLiteral f ∧ HasReference f) ∧
    ((∃ before variants after, classify f = .choice before variants after) ↔
      ¬ IsPlain isLiteral f ∧ ¬ HasReference f ∧ HasGroup .round f) ∧
    ((∃ before variants after, classify f = .optional before variants after) ↔
      ¬ IsPlain isLiteral f ∧ ¬ HasReference f ∧ ¬ HasGroup .round f ∧ HasGroup .square f) ∧
    ∀ construct, (classify f).construct? = some construct →
      ∃ start stop, (classify f).range? = some (start, stop) ∧
        f.slice? 0 start = some (classify f).before ∧ f.slice? start stop = some construct ∧
        start ≤ stop ∧ stop ≤ f.byteSize ∧
        ∀ vars, ((classify f).successors vars).map some =
          ((classify f).replacements vars).map (f.splice? start stop) := by
  obtain ⟨hreference, hchoice, hoptional⟩ := (hasShape_classify f).kind
  refine ⟨fun _ => classify_eq_iff, hreference, hchoice, hoptional, fun construct hconstruct => ?_⟩
  have hf : f = (classify f).before ++ construct ++ (classify f).after := text_classify hconstruct
  have hrange : (classify f).range? = some ((classify f).before.byteSize,
      (classify f).before.byteSize + construct.byteSize) := by
    rw [Shape.range?, hconstruct, Option.map_some]
  have hbefore := Text.slice?_append [] (classify f).before (construct ++ (classify f).after)
  have hslice := Text.slice?_append (classify f).before construct (classify f).after
  have hsplice := Text.splice?_append (classify f).before construct (classify f).after
  have hsize := congrArg Text.byteSize hf
  rw [List.nil_append, ← List.append_assoc, ← hf, Text.byteSize_nil, Nat.zero_add] at hbefore
  rw [← hf] at hslice hsplice
  refine ⟨_, _, hrange, hbefore, hslice, by omega, ?_, fun vars => ?_⟩
  · rw [Text.byteSize_append, Text.byteSize_append] at hsize
    omega
  · rw [Shape.successors_eq_map, List.map_map]
    exact List.map_congr_left fun x _ => (hsplice x).symm

/-- The bytes are counted, not the characters: the reference stands behind three
of the one and two of the other. -/
example :
    let f : Text := "é $fruit(ü)".toList
    (Fragment.classify f).range? = some (3, 9) ∧ f.slice? 3 9 = some "$fruit".toList ∧
      f.splice? 3 9 "(ö|$x)".toList = some "é (ö|$x)(ü)".toList ∧ f.slice? 1 9 = none := by
  decide +kernel

end Utterance
