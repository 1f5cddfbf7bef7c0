import Utterance.Text.Basic

/-!
# Bytes — the encoding of a text and its order

Texts are compared character by character, and the programs that read the
documents compare bytes. The two agree because the encoding of a smaller
character has the smaller byte where the two encodings first differ
(`Byte.below_encode`). So the order of sorted texts is the dictionary order
of their UTF-8 encodings (`Text.ascending_eq_bytes`).
-/

namespace Utterance

/-- The bytes of the UTF-8 encoding. -/
def Text.bytes (s : Text) : List UInt8 :=
  s.flatMap String.utf8EncodeChar

/-- Texts in ascending order of their encodings, byte by byte. -/
def Text.BytesAscend (s t : Text) : Prop :=
  dictionaryOrder (fun a b => decide (a ≤ b)) s.bytes t.bytes = true

instance (s t : Text) : Decidable (Text.BytesAscend s t) :=
  inferInstanceAs (Decidable (_ = true))

namespace Byte

/-- Two lists of bytes differ at some place, where the first one has the
smaller byte. -/
def Below : List UInt8 → List UInt8 → Prop
  | a :: x, b :: y => a < b ∨ a = b ∧ Below x y
  | _, _ => False

/-- What stands behind the place where two lists differ does not matter. -/
theorem dictionaryOrder_of_below : ∀ {x y : List UInt8} (u v : List UInt8), Below x y →
    dictionaryOrder (fun a b => decide (a ≤ b)) (x ++ u) (y ++ v) = true ∧
      dictionaryOrder (fun a b => decide (a ≤ b)) (y ++ v) (x ++ u) = false
  | [], _, _, _, h => by simp [Below] at h
  | _ :: _, [], _, _, h => by simp [Below] at h
  | a :: x, b :: y, u, v, h => by
    simp only [List.cons_append, dictionaryOrder]
    rcases h with hlt | ⟨rfl, hbelow⟩
    · have hne : a ≠ b := by rintro rfl; exact absurd hlt (UInt8.lt_irrefl a)
      rw [if_neg hne, if_neg hne.symm, decide_eq_true_eq, decide_eq_false_iff_not]
      exact ⟨UInt8.le_of_lt hlt, UInt8.not_le.2 hlt⟩
    · simpa using dictionaryOrder_of_below u v hbelow

/-- A list in front of both plays no part. -/
theorem dictionaryOrder_append_left (p u v : List UInt8) :
    dictionaryOrder (fun a b => decide (a ≤ b)) (p ++ u) (p ++ v) =
      dictionaryOrder (fun a b => decide (a ≤ b)) u v := by
  induction p with
  | nil => rfl
  | cons a p ih => simpa [dictionaryOrder] using ih

/-- **A smaller character has the smaller encoding.** The first bytes tell
how many there are, and the bytes after them are digits to the base 64. -/
theorem below_encode {c d : Char} (h : c < d) :
    Below (String.utf8EncodeChar c) (String.utf8EncodeChar d) := by
  have hlt : c.val.toNat < d.val.toNat := h
  have hmax : d.val.toNat < 0x110000 := by
    rcases d.valid with hd | ⟨-, hd⟩
    · exact Nat.lt_trans hd (by decide)
    · exact hd
  unfold String.utf8EncodeChar
  generalize c.val.toNat = m at *
  generalize d.val.toNat = n at *
  -- the digits to the base 64, from the last one
  have hlast : m / 64 < n / 64 ∨ m / 64 = n / 64 ∧ m % 64 < n % 64 := by omega
  have hsecond : m / 64 < n / 64 → m / 4096 < n / 4096 ∨
      m / 4096 = n / 4096 ∧ m / 64 % 64 < n / 64 % 64 := by omega
  have hthird : m / 4096 < n / 4096 → m / 262144 < n / 262144 ∨
      m / 262144 = n / 262144 ∧ m / 4096 % 64 < n / 4096 % 64 := by omega
  dsimp only
  -- one case for each pair of lengths
  repeat' split
  all_goals
    simp (disch := omega) only [Below, UInt8.lt_iff_toNat_lt, ← UInt8.toNat_inj,
      UInt8.toNat_ofNat', Nat.reducePow, Nat.mod_eq_of_lt]
    omega

end Byte

namespace Text

@[simp] theorem bytes_cons (c : Char) (s : Text) :
    bytes (c :: s) = String.utf8EncodeChar c ++ bytes s := rfl

/-- **Sorted texts ascend byte by byte.** -/
theorem ascending_eq_bytes : ∀ s t : Text,
    ascending s t = dictionaryOrder (fun a b => decide (a ≤ b)) (bytes s) (bytes t)
  | [], t => by simp [ascending, dictionaryOrder, bytes]
  | c :: s, [] => by
    have hne : String.utf8EncodeChar c ≠ [] := String.utf8EncodeChar_ne_nil
    obtain ⟨a, x, hc⟩ := List.exists_cons_of_ne_nil hne
    simp [ascending, dictionaryOrder, bytes, hc]
  | c :: s, d :: t => by
    rw [bytes_cons, bytes_cons]
    rcases Nat.lt_trichotomy c.val.toNat d.val.toNat with hlt | heq | hlt
    · obtain ⟨hbytes, -⟩ :=
        Byte.dictionaryOrder_of_below (bytes s) (bytes t) (Byte.below_encode hlt)
      have hne : c ≠ d := by rintro rfl; exact Nat.lt_irrefl _ hlt
      have hle : c ≤ d := Nat.le_of_lt hlt
      simp [ascending, dictionaryOrder, hbytes, hne, hle]
    · obtain rfl : c = d := Char.ext (UInt32.toNat.inj heq)
      rw [Byte.dictionaryOrder_append_left, ← ascending_eq_bytes s t]
      simp [ascending, dictionaryOrder]
    · obtain ⟨-, hbytes⟩ :=
        Byte.dictionaryOrder_of_below (bytes t) (bytes s) (Byte.below_encode hlt)
      have hne : c ≠ d := by rintro rfl; exact Nat.lt_irrefl _ hlt
      have hnle : ¬ c ≤ d := Nat.not_le.2 hlt
      simp [ascending, dictionaryOrder, hbytes, hne, hnle]

end Text

end Utterance
