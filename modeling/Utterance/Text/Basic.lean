/-!
# Text — lists of characters, measured in bytes

Names, templates and sentences are handled as lists of characters, the
form that recursion and lemmas want; a `String` appears only where a
report or a document leaves the library. Positions are counted in bytes
of the UTF-8 encoding, so the measure `byteSize` is defined here with its
law for concatenation (`byteSize_append`), beside the cut after a number
of bytes (`bytePrefix?`), the search for the leftmost place where
something is found (`leftmost?`, `leftmost?_eq_some`) and the order in
which sentences are sorted (`ascending`), a total one.
-/

namespace Utterance

/-- A text is a list of characters. -/
abbrev Text := List Char

/-- The dictionary order of lists, over an order of their members: the
first place where two lists differ decides, and a list comes before those
that it begins. -/
def dictionaryOrder {α : Type} [DecidableEq α] (le : α → α → Bool) : List α → List α → Bool
  | [], _ => true
  | _ :: _, [] => false
  | a :: s, b :: t => if a = b then dictionaryOrder le s t else le a b

namespace Text

/-- The number of bytes of the UTF-8 encoding. -/
def byteSize (s : Text) : Nat :=
  s.foldl (fun n c => n + c.utf8Size) 0

private theorem foldl_size (s : Text) (n : Nat) :
    s.foldl (fun n c => n + c.utf8Size) n = n + byteSize s := by
  induction s generalizing n with
  | nil => rfl
  | cons c r ih =>
    simp only [byteSize, List.foldl_cons] at ih ⊢
    rw [ih, ih (0 + c.utf8Size)]
    omega

@[simp] theorem byteSize_nil : byteSize [] = 0 := rfl

@[simp] theorem byteSize_cons (c : Char) (r : Text) :
    byteSize (c :: r) = c.utf8Size + byteSize r := by
  simp only [byteSize, List.foldl_cons]
  rw [foldl_size]
  simp [byteSize]

/-- **Bytes add up.** -/
@[simp] theorem byteSize_append (s t : Text) : byteSize (s ++ t) = byteSize s + byteSize t := by
  induction s with
  | nil => simp
  | cons c r ih => simp only [List.cons_append, byteSize_cons, ih]; omega

/-- The first `n` bytes, when they end between two characters of the
text or at its end. -/
def bytePrefix? : Nat → Text → Option Text
  | 0, _ => some []
  | _ + 1, [] => none
  | n + 1, c :: r =>
    if c.utf8Size ≤ n + 1 then (bytePrefix? (n + 1 - c.utf8Size) r).map (c :: ·) else none
termination_by structural _ s => s

/-- A cut after `n` bytes is a beginning of the text that takes `n` bytes. -/
theorem bytePrefix?_spec {n : Nat} {s p : Text} (h : bytePrefix? n s = some p) :
    p <+: s ∧ p.byteSize = n := by
  induction s generalizing n p with
  | nil => cases n <;> simp_all [bytePrefix?]
  | cons c r ih =>
    cases n with
    | zero => simp_all [bytePrefix?]
    | succ n =>
      simp only [bytePrefix?] at h
      split at h
      · obtain ⟨q, hq, rfl⟩ := Option.map_eq_some_iff.1 h
        have ⟨hp, hs⟩ := ih hq
        exact ⟨List.cons_prefix_cons.2 ⟨rfl, hp⟩, by simp only [byteSize_cons, hs]; omega⟩
      · simp at h

/-- A cut between two parts of a text gives the first of them. -/
theorem bytePrefix?_append (u v : Text) : bytePrefix? u.byteSize (u ++ v) = some u := by
  induction u with
  | nil => cases v <;> rfl
  | cons c u ih =>
    obtain ⟨n, hn⟩ : ∃ n, c.utf8Size + byteSize u = n + 1 :=
      ⟨_, (Nat.succ_pred_eq_of_pos (by have := c.utf8Size_pos; omega)).symm⟩
    have hle : c.utf8Size ≤ n + 1 := by omega
    have hrest : n + 1 - c.utf8Size = byteSize u := by omega
    rw [byteSize_cons, hn, List.cons_append, bytePrefix?, if_pos hle, hrest, ih, Option.map_some]

/-- The leftmost place of a text at which `find` finds something in the
rest: the text before that place, and what was found. -/
def leftmost? {α : Type} (find : Text → Option α) (s : Text) : Option (Text × α) :=
  go [] s
where
  /-- The search, with the text already passed in reverse. -/
  go (passed : Text) : Text → Option (Text × α)
    | [] => (find []).map (passed.reverse, ·)
    | c :: r =>
      match find (c :: r) with
      | some found => some (passed.reverse, found)
      | none => go (c :: passed) r

private theorem leftmost?_go {α : Type} (find : Text → Option α) (passed s : Text) :
    leftmost?.go find passed s = (leftmost? find s).map fun (b, a) => (passed.reverse ++ b, a) := by
  induction s generalizing passed with
  | nil => cases h : find [] <;> simp [leftmost?, leftmost?.go, h]
  | cons c r ih =>
    cases h : find (c :: r) with
    | some a => simp [leftmost?, leftmost?.go, h]
    | none =>
      simp only [leftmost?, leftmost?.go, h]
      rw [ih, ih [c]]
      simp [Function.comp_def]

/-- At the end of the text the search looks once more. -/
theorem leftmost?_nil {α : Type} (find : Text → Option α) :
    leftmost? find [] = (find []).map ([], ·) := rfl

/-- The search looks at the whole text first and then past its head. -/
theorem leftmost?_cons {α : Type} (find : Text → Option α) (c : Char) (r : Text) :
    leftmost? find (c :: r) =
      match find (c :: r) with
      | some found => some ([], found)
      | none => (leftmost? find r).map fun (b, a) => (c :: b, a) := by
  cases h : find (c :: r) with
  | some a => simp [leftmost?, leftmost?.go, h]
  | none =>
    simp only [leftmost?, leftmost?.go, h]
    rw [leftmost?_go]
    simp [leftmost?]

/-- **What the search returns**: the text splits at the place found, and
nothing is found at any place further left. -/
theorem leftmost?_eq_some {α : Type} {find : Text → Option α} {s before : Text} {found : α} :
    leftmost? find s = some (before, found) ↔
      ∃ rest, s = before ++ rest ∧ find rest = some found ∧
        ∀ p q, before = p ++ q → q ≠ [] → find (q ++ rest) = none := by
  induction s generalizing before found with
  | nil =>
    rw [leftmost?_nil]
    constructor
    · intro h
      obtain ⟨a, ha, hb⟩ := Option.map_eq_some_iff.1 h
      obtain ⟨rfl, rfl⟩ := Prod.mk.inj hb
      exact ⟨[], rfl, ha, by simp⟩
    · rintro ⟨rest, hs, hf, -⟩
      obtain ⟨rfl, rfl⟩ := List.append_eq_nil_iff.1 hs.symm
      simp [hf]
  | cons c r ih =>
    rw [leftmost?_cons]
    cases hc : find (c :: r) with
    | some a =>
      constructor
      · intro h
        obtain ⟨rfl, rfl⟩ := Prod.mk.inj (Option.some.inj h)
        exact ⟨c :: r, rfl, hc, by simp⟩
      · rintro ⟨rest, hs, hf, hn⟩
        cases before with
        | nil => simp_all
        | cons b bs =>
          have := hn [] (b :: bs) rfl (by simp)
          rw [← hs, hc] at this
          simp at this
    | none =>
      constructor
      · intro h
        obtain ⟨⟨b, a⟩, hba, heq⟩ := Option.map_eq_some_iff.1 h
        obtain ⟨rfl, rfl⟩ := Prod.mk.inj heq
        obtain ⟨rest, rfl, hf, hn⟩ := ih.1 hba
        refine ⟨rest, rfl, hf, fun p q hpq hq => ?_⟩
        cases p with
        | nil => rw [← List.nil_append q, ← hpq]; simpa using hc
        | cons x p => exact hn p q (by simpa using (List.cons.inj hpq).2) hq
      · rintro ⟨rest, hs, hf, hn⟩
        cases before with
        | nil => simp_all
        | cons b bs =>
          obtain ⟨rfl, rfl⟩ := List.cons.inj hs
          have : leftmost? find (bs ++ rest) = some (bs, found) :=
            ih.2 ⟨rest, rfl, hf, fun p q hpq hq => hn (c :: p) q (by simp [hpq]) hq⟩
          simp [this]

/-- Nothing is found exactly when nothing is found at any place. -/
theorem leftmost?_eq_none {α : Type} {find : Text → Option α} {s : Text} :
    leftmost? find s = none ↔ ∀ rest, rest <:+ s → find rest = none := by
  induction s with
  | nil => simp [leftmost?_nil]
  | cons c r ih =>
    rw [leftmost?_cons]
    cases hc : find (c :: r) with
    | some a =>
      simp only [reduceCtorEq, false_iff]
      exact fun h => by simp [h _ List.suffix_rfl] at hc
    | none =>
      simp only [Option.map_eq_none_iff, ih, List.suffix_cons_iff]
      exact ⟨fun h rest hr => hr.elim (fun e => e ▸ hc) (h rest), fun h rest hr => h rest (.inr hr)⟩

/-- The order of sorted sentences: by character, which is the order of
the bytes of the encoding. -/
def ascending (s t : Text) : Bool :=
  dictionaryOrder (fun c d => decide (c ≤ d)) s t

/-- Two texts that each come before the other are one text. -/
theorem ascending_antisymm : ∀ {s t : Text}, ascending s t = true → ascending t s = true → s = t
  | [], [], _, _ => rfl
  | [], _ :: _, _, h => by simp [ascending, dictionaryOrder] at h
  | _ :: _, [], h, _ => by simp [ascending, dictionaryOrder] at h
  | c :: s, d :: t, h, h' => by
    simp only [ascending, dictionaryOrder] at h h'
    by_cases hc : c = d
    · subst hc
      simp only [if_true] at h h'
      rw [ascending_antisymm h h']
    · simp only [if_neg hc, if_neg (Ne.symm hc), decide_eq_true_eq] at h h'
      exact absurd (Char.le_antisymm h h') hc

/-- Any two texts stand in one order or the other. -/
theorem ascending_total : ∀ s t : Text, (ascending s t || ascending t s) = true
  | [], _ => by simp [ascending, dictionaryOrder]
  | _ :: _, [] => by simp [ascending, dictionaryOrder]
  | c :: s, d :: t => by
    by_cases hc : c = d
    · subst hc
      simpa [ascending, dictionaryOrder] using ascending_total s t
    · simpa [ascending, dictionaryOrder, hc, Ne.symm hc] using Char.le_total c d

/-- A text that comes before a second one comes before all that the second
one comes before. -/
theorem ascending_trans : ∀ {s t u : Text},
    ascending s t = true → ascending t u = true → ascending s u = true
  | [], _, _, _, _ => by simp [ascending, dictionaryOrder]
  | _ :: _, [], _, h, _ => by simp [ascending, dictionaryOrder] at h
  | _ :: _, _ :: _, [], _, h => by simp [ascending, dictionaryOrder] at h
  | c :: s, d :: t, e :: u, h, h' => by
    simp only [ascending, dictionaryOrder] at h h' ⊢
    by_cases hcd : c = d
    · subst hcd
      by_cases hce : c = e
      · simp only [if_pos hce, if_true] at h h' ⊢
        exact ascending_trans h h'
      · simpa only [if_neg hce] using h'
    · by_cases hde : d = e
      · subst hde
        simpa only [if_neg hcd] using h
      · simp only [if_neg hcd, if_neg hde, decide_eq_true_eq] at h h'
        have hce : c ≠ e := by
          rintro rfl
          exact hcd (Char.le_antisymm h h')
        simpa only [if_neg hce, decide_eq_true_eq] using Char.le_trans h h'

/-- The text as it is printed. -/
def str (s : Text) : String :=
  String.ofList s

end Text

end Utterance
