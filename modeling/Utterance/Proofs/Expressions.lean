import Utterance.Line.Tree
import Utterance.Proofs.Forms

/-!
# Expressions — how rules are read

A rule is an expression over characters: a part is read behind the other, of
several alternatives the first that can be read is taken for good, a repetition
takes as much as it can, and nothing is ever given back (`Expression.read`). What
is read stands at the head of the text (`Expression.eq_append_of_read`), a class
of characters is read as far as it goes (`Expression.readMany_one`), and a text
that is read to its end has the parts of its parse tree
(`Expression.parts?_part`).
-/

namespace Utterance

/-- What the right-hand side of a rule is made of. -/
inductive Expression where
  /-- One character of a class. -/
  | one (p : Char → Bool)
  /-- A word, in whatever case. -/
  | word (w : Text)
  /-- The end of the text. -/
  | atEnd
  /-- Nothing, where something else cannot be read. -/
  | absent (e : Expression)
  /-- Something, or nothing where it cannot be read. -/
  | optional (e : Expression)
  /-- Something, as often as it can be read. -/
  | many (e : Expression)
  /-- One behind the other. -/
  | seq (a b : Expression)
  /-- The second, where the first cannot be read. -/
  | choice (a b : Expression)
  /-- A part of the parse tree. -/
  | part (rule : Rule) (e : Expression)

/-- What is read at the head of a text. -/
structure Taken where
  /-- The text that is read. -/
  text : Text
  /-- The parts that have a name. -/
  parts : List ParseTree
  /-- The text behind. -/
  rest : Text

namespace Taken

/-- What is read by two readings, the second one of what the first one left. -/
def append (x y : Taken) : Taken :=
  ⟨x.text ++ y.text, x.parts ++ y.parts, y.rest⟩

end Taken

namespace Expression

instance : Append Expression := ⟨seq⟩

instance : OrElse Expression := ⟨fun a b => choice a (b ())⟩

/-- Read again and again, as long as something is read. -/
def readMany (next : Nat → Text → Option Taken) (start : Nat) (s : Text) : Taken :=
  match next start s with
  | none => ⟨[], [], s⟩
  | some x =>
    if x.rest.length < s.length then
      x.append (readMany next (start + x.text.byteSize) x.rest)
    else ⟨[], [], s⟩
termination_by s.length

/-- **Read an expression at the head of a text**, which starts at a given
byte. -/
def read : Expression → Nat → Text → Option Taken
  | one _, _, [] => none
  | one p, _, c :: s => if p c then some ⟨[c], [], s⟩ else none
  | word w, _, s =>
    (s.bytePrefix? w.byteSize).bind fun cut =>
      if cut.map Char.toUpper = w then some ⟨cut, [], s.drop cut.length⟩ else none
  | atEnd, _, s => if s = [] then some ⟨[], [], []⟩ else none
  | absent e, start, s => if (e.read start s).isSome then none else some ⟨[], [], s⟩
  | optional e, start, s => some ((e.read start s).getD ⟨[], [], s⟩)
  | many e, start, s => some (readMany e.read start s)
  | seq a b, start, s =>
    (a.read start s).bind fun x => (b.read (start + x.text.byteSize) x.rest).map x.append
  | choice a b, start, s => (a.read start s).or (b.read start s)
  | part rule e, start, s =>
    (e.read start s).map fun x => ⟨x.text, [.node rule start x.text x.parts], x.rest⟩

/-- One or more characters of a class. -/
def oneOrMore (p : Char → Bool) : Expression :=
  one p ++ many (one p)

variable {a b e : Expression} {start : Nat} {s : Text}

theorem read_seq (a b : Expression) (start : Nat) (s : Text) :
    (a ++ b).read start s =
      (a.read start s).bind fun x => (b.read (start + x.text.byteSize) x.rest).map x.append := rfl

/-- Parts may be read one behind the other in any grouping. -/
theorem read_assoc (a b c : Expression) (start : Nat) (s : Text) :
    (a ++ b ++ c).read start s = (a ++ (b ++ c)).read start s := by
  rw [read_seq, read_seq, read_seq, Option.bind_assoc]
  congr 1
  funext x
  rw [read_seq]
  cases b.read (start + x.text.byteSize) x.rest with
  | none => rfl
  | some y =>
    have hstart : start + (x.append y).text.byteSize =
        start + x.text.byteSize + y.text.byteSize := by
      simp [Taken.append, Nat.add_assoc]
    have happend : (x.append y).append = x.append ∘ y.append := by
      funext z
      simp [Taken.append]
    simp only [Option.map_some, Option.bind_some, Option.map_map, hstart, happend]
    rfl

theorem read_choice (a b : Expression) (start : Nat) (s : Text) :
    (a <|> b).read start s = (a.read start s).or (b.read start s) := rfl

/-- What is read again and again stands at the head of the text. -/
theorem readMany_append {next : Nat → Text → Option Taken}
    (h : ∀ start s x, next start s = some x → s = x.text ++ x.rest) (start : Nat) (s : Text) :
    s = (readMany next start s).text ++ (readMany next start s).rest := by
  fun_induction readMany next start s with
  | case1 => rfl
  | case2 start s x hnext _ ih =>
    rw [h start s x hnext]
    simpa [Taken.append] using ih
  | case3 => rfl

/-- **What is read stands at the head of the text.** -/
theorem eq_append_of_read {x : Taken} (h : e.read start s = some x) : s = x.text ++ x.rest := by
  induction e generalizing start s x with
  | one p =>
    cases s with
    | nil => cases h
    | cons c s =>
      simp only [read] at h
      split at h
      · obtain rfl := Option.some.inj h
        rfl
      · cases h
  | word w =>
    obtain ⟨cut, hcut, htaken⟩ := Option.bind_eq_some_iff.1 h
    obtain ⟨⟨rest, rfl⟩, -⟩ := Text.bytePrefix?_spec hcut
    split at htaken
    · obtain rfl := Option.some.inj htaken
      rw [List.drop_left]
    · cases htaken
  | atEnd =>
    simp only [read] at h
    split at h
    · obtain rfl := Option.some.inj h
      assumption
    · cases h
  | absent e =>
    simp only [read] at h
    split at h
    · cases h
    · obtain rfl := Option.some.inj h
      rfl
  | optional e ih =>
    obtain rfl := Option.some.inj h
    cases hread : e.read start s with
    | none => rfl
    | some x => exact ih hread
  | many e ih =>
    obtain rfl := Option.some.inj h
    exact readMany_append (fun _ _ _ => ih) start s
  | seq a b iha ihb =>
    obtain ⟨first, hfirst, hboth⟩ := Option.bind_eq_some_iff.1 h
    obtain ⟨second, hsecond, rfl⟩ := Option.map_eq_some_iff.1 hboth
    rw [iha hfirst, ihb hsecond]
    simp [Taken.append]
  | choice a b iha ihb =>
    rcases Option.or_eq_some_iff.1 h with h | ⟨-, h⟩
    · exact iha h
    · exact ihb h
  | part rule e ih =>
    obtain ⟨inner, hinner, rfl⟩ := Option.map_eq_some_iff.1 h
    have hsplit : s = inner.text ++ inner.rest := ih hinner
    exact hsplit

theorem readMany_of_none {next : Nat → Text → Option Taken} (h : next start s = none) :
    readMany next start s = ⟨[], [], s⟩ := by
  rw [readMany, h]

theorem readMany_of_some {next : Nat → Text → Option Taken} {x : Taken}
    (h : next start s = some x) (hshorter : x.rest.length < s.length) :
    readMany next start s = x.append (readMany next (start + x.text.byteSize) x.rest) := by
  rw [readMany, h]
  exact if_pos hshorter

/-- A class is read as far as it goes. -/
theorem readMany_one (p : Char → Bool) (start : Nat) (s : Text) :
    readMany (one p).read start s = ⟨s.takeWhile p, [], s.dropWhile p⟩ := by
  induction s generalizing start with
  | nil => exact readMany_of_none rfl
  | cons c s ih =>
    cases hc : p c with
    | true =>
      have hone : (one p).read start (c :: s) = some ⟨[c], [], s⟩ := by simp [read, hc]
      rw [readMany_of_some hone (by simp), ih]
      simp [Taken.append, hc]
    | false =>
      have hone : (one p).read start (c :: s) = none := by simp [read, hc]
      rw [readMany_of_none hone]
      simp [hc]

theorem read_oneOrMore (p : Char → Bool) (start : Nat) (s : Text) :
    (oneOrMore p).read start s =
      if s.takeWhile p = [] then none else some ⟨s.takeWhile p, [], s.dropWhile p⟩ := by
  rw [oneOrMore, read_seq]
  cases s with
  | nil => rfl
  | cons c s =>
    cases hc : p c with
    | true => simp [read, hc, readMany_one, Taken.append]
    | false => simp [read, hc]

theorem read_many_true (start : Nat) (s : Text) :
    (many (one fun _ => true)).read start s = some ⟨s, [], []⟩ := by
  have hall : s.takeWhile (fun _ => true) = s := List.takeWhile_eq_self_iff.2 fun _ _ => rfl
  have hnone : s.dropWhile (fun _ => true) = [] := List.dropWhile_eq_nil_iff.2 fun _ _ => rfl
  rw [read, readMany_one, hall, hnone]

theorem read_oneOrMore_true (start : Nat) (s : Text) :
    (oneOrMore fun _ => true).read start s = if s = [] then none else some ⟨s, [], []⟩ := by
  cases s with
  | nil => rfl
  | cons c s =>
    rw [oneOrMore, read_seq, read, if_pos rfl, Option.bind_some, read_many_true]
    rfl

/-! ## Whole texts -/

/-- The parts of a text that is read to its end. -/
def parts? (e : Expression) (start : Nat) (s : Text) : Option (List ParseTree) :=
  (e.read start s).bind fun x => if x.rest = [] then some x.parts else none

theorem parts?_seq (a b : Expression) (start : Nat) (s : Text) :
    (a ++ b).parts? start s = (a.read start s).bind fun x =>
      (b.parts? (start + x.text.byteSize) x.rest).map (x.parts ++ ·) := by
  rw [parts?, read_seq, Option.bind_assoc]
  congr 1
  funext x
  cases h : b.read (start + x.text.byteSize) x.rest with
  | none => simp [parts?, h]
  | some y => by_cases hrest : y.rest = [] <;> simp [parts?, h, hrest, Taken.append]

theorem parts?_assoc (a b c : Expression) (start : Nat) (s : Text) :
    (a ++ b ++ c).parts? start s = (a ++ (b ++ c)).parts? start s := by
  rw [parts?, parts?, read_assoc]

/-- A part that is the whole text has it as its text. -/
theorem parts?_part (rule : Rule) (e : Expression) (start : Nat) (s : Text) :
    (part rule e).parts? start s =
      (e.parts? start s).map fun parts => [.node rule start s parts] := by
  rw [parts?, parts?, read]
  cases h : e.read start s with
  | none => rfl
  | some x =>
    by_cases hrest : x.rest = []
    · have htext : s = x.text := by simpa [hrest] using eq_append_of_read h
      simp [hrest, htext]
    · simp [hrest]

end Expression

end Utterance
