import Utterance.Proofs.Groups
import Mathlib.Data.Fintype.Card
import Mathlib.Data.Fintype.EquivFin
import Mathlib.Data.Fintype.Sets
import Mathlib.Logic.Relation

/-!
# References — which variables a text leads to

A text refers to the names that stand directly after its dollar signs
(`references`); a dollar sign without a name is a stray one (`strays`), and
a text without stray ones is one in which every dollar sign begins a
reference (`dollarsRefer_iff`). Where two texts meet so that no name runs
on, their references add up (`references_append`). A variable leads to
those its definition refers to (`Variables.Refers`), and where this never
leads in a circle it always comes to an end
(`Variables.wellFounded_refers`).
-/

namespace Utterance

open Relation

/-! ## Names after dollar signs -/

/-- The names a text refers to, from left to right and as they are
spelled. -/
def references : Text → List Text
  | [] => []
  | c :: r =>
    match Fragment.reference? (c :: r) with
    | some (name, _) => name :: references r
    | none => references r

/-- The number of dollar signs that no name follows. -/
def strays (s : Text) : Nat :=
  s.count '$' - (references s).length

/-- Every dollar sign of a text is directly followed by an identifier. -/
def DollarsRefer (s : Text) : Prop :=
  ∀ p q, s = p ++ '$' :: q → q.head?.any isIdentStart = true

theorem identifier?_append {s t : Text} (ht : continuesIdentifier t = false) :
    identifier? (s ++ t) = (identifier? s).map fun (name, rest) => (name, rest ++ t) := by
  have start : ∀ c, isIdentStart c = true → isIdentChar c = true := fun c hc =>
    isIdentChar_of_isIdentifier (isIdentifier_singleton hc) c (by simp)
  cases h : identifier? s with
  | some found =>
    obtain ⟨name, rest⟩ := found
    obtain ⟨rfl, hn, hrest⟩ := identifier?_eq_some.1 h
    refine identifier?_eq_some.2 ⟨by simp, hn, ?_⟩
    cases rest with
    | nil => exact ht
    | cons c rest => exact hrest
  | none =>
    refine identifier?_eq_none.2 ?_
    cases s with
    | nil =>
      cases t with
      | nil => rfl
      | cons c t =>
        rw [Bool.eq_false_iff]
        intro hc
        have hstart : isIdentStart c = true := by simpa using hc
        have hno : isIdentChar c = false := by simpa [continuesIdentifier] using ht
        rw [start c hstart] at hno
        cases hno
    | cons c s => simpa using identifier?_eq_none.1 h

/-- Where no name runs on into either of two texts, none runs on into both. -/
theorem continuesIdentifier_append {s t : Text} (hs : continuesIdentifier s = false)
    (ht : continuesIdentifier t = false) : continuesIdentifier (s ++ t) = false := by
  cases s with
  | nil => exact ht
  | cons c s => exact hs

theorem references_cons_of_ne {c : Char} (hc : c ≠ '$') (r : Text) :
    references (c :: r) = references r := by
  simp [references, Fragment.reference?, hc]

theorem references_dollar (r : Text) :
    references ('$' :: r) =
      ((identifier? r).map fun found => found.1).toList ++ references r := by
  rw [references, Fragment.reference?]
  cases identifier? r <;> rfl

/-- **References add up** where no name runs on. -/
theorem references_append {s t : Text} (ht : continuesIdentifier t = false) :
    references (s ++ t) = references s ++ references t := by
  induction s with
  | nil => rfl
  | cons c s ih =>
    by_cases hc : c = '$'
    · subst hc
      rw [List.cons_append, references_dollar, references_dollar, identifier?_append ht, ih]
      cases identifier? s <;> simp
    · rw [List.cons_append, references_cons_of_ne hc, references_cons_of_ne hc, ih]

theorem references_append_of_notMem {s t : Text} (h : '$' ∉ s) :
    references (s ++ t) = references t := by
  induction s with
  | nil => rfl
  | cons c s ih =>
    rw [List.mem_cons, not_or] at h
    rw [List.cons_append, references_cons_of_ne (Ne.symm h.1), ih h.2]

theorem references_of_notMem {s : Text} (h : '$' ∉ s) : references s = [] := by
  rw [← List.append_nil s, references_append_of_notMem h]
  rfl

theorem dollar_notMem_of_isIdentifier {name : Text} (h : IsIdentifier name) : '$' ∉ name :=
  fun hm => absurd (isIdentChar_of_isIdentifier h _ hm) (by decide)

/-- A reference that ends with its name counts as one. -/
theorem references_reference {name rest : Text} (hn : IsIdentifier name)
    (hr : continuesIdentifier rest = false) :
    references ('$' :: name ++ rest) = name :: references rest := by
  rw [List.cons_append, references_dollar, identifier?_eq_some.2 ⟨rfl, hn, hr⟩,
    references_append hr, references_of_notMem (dollar_notMem_of_isIdentifier hn)]
  rfl

/-- The search for a reference finds none exactly where there is none. -/
theorem leftmost?_reference?_eq_none {s : Text} :
    s.leftmost? Fragment.reference? = none ↔ references s = [] := by
  induction s with
  | nil => simp [Text.leftmost?_nil, references, Fragment.reference?]
  | cons c s ih =>
    rw [Text.leftmost?_cons, references]
    cases Fragment.reference? (c :: s) with
    | some found => simp
    | none => simpa using ih

theorem length_references_le (s : Text) : (references s).length ≤ s.count '$' := by
  induction s with
  | nil => simp [references]
  | cons c s ih =>
    by_cases hc : c = '$'
    · subst hc
      rw [references_dollar, List.count_cons_self]
      cases identifier? s <;> simp <;> omega
    · rw [references_cons_of_ne hc, List.count_cons_of_ne hc]
      exact ih

/-- Every dollar sign is a stray one or begins a reference. -/
theorem strays_add_length (s : Text) : strays s + (references s).length = s.count '$' := by
  have := length_references_le s
  unfold strays
  omega

theorem references_enclose (b : Bracket) (u w v : Text) :
    references (u ++ b.enclose w ++ v) = references u ++ references w ++ references v := by
  have hopen : b.opening ≠ '$' ∧ isIdentChar b.opening = false := by cases b <;> decide
  have hclose : b.closing ≠ '$' ∧ isIdentChar b.closing = false := by cases b <;> decide
  have hshape : u ++ b.enclose w ++ v = u ++ b.opening :: (w ++ b.closing :: v) := by
    simp [Bracket.enclose]
  rw [hshape, references_append (by simp [continuesIdentifier, hopen]),
    references_cons_of_ne hopen.1, references_append (by simp [continuesIdentifier, hclose]),
    references_cons_of_ne hclose.1, List.append_assoc]

theorem references_append_reference {u name v : Text} (hn : IsIdentifier name)
    (hv : continuesIdentifier v = false) :
    references (u ++ '$' :: name ++ v) = references u ++ name :: references v := by
  rw [List.append_assoc, references_append (by simp [continuesIdentifier, isIdentChar]),
    references_reference hn hv]

theorem strays_cons_of_ne {c : Char} (hc : c ≠ '$') (r : Text) :
    strays (c :: r) = strays r := by
  rw [strays, references_cons_of_ne hc, List.count_cons_of_ne hc, strays]

theorem strays_dollar (r : Text) :
    strays ('$' :: r) = strays r + if r.head?.any isIdentStart then 0 else 1 := by
  have hr := strays_add_length r
  have hdr := strays_add_length ('$' :: r)
  rw [references_dollar, List.count_cons_self] at hdr
  cases h : identifier? r with
  | none =>
    rw [h] at hdr
    rw [identifier?_eq_none.1 h]
    simp only [Option.map_none, Option.toList_none, List.nil_append] at hdr
    simp only [Bool.false_eq_true, if_false]
    omega
  | some found =>
    have hstart : r.head?.any isIdentStart = true := by
      rw [← Bool.not_eq_false, ← identifier?_eq_none, h]
      simp
    rw [h] at hdr
    rw [hstart]
    simp only [Option.map_some, Option.toList_some, List.cons_append, List.nil_append,
      List.length_cons] at hdr
    simp only [if_true]
    omega

/-- No dollar sign is a stray one exactly where each begins a
reference. -/
theorem dollarsRefer_iff {s : Text} : DollarsRefer s ↔ strays s = 0 := by
  induction s with
  | nil => exact ⟨fun _ => rfl, fun _ p q h => by simp at h⟩
  | cons c s ih =>
    constructor
    · intro h
      have hs : strays s = 0 := ih.1 fun p q hpq => h (c :: p) q (by rw [hpq]; rfl)
      by_cases hc : c = '$'
      · subst hc
        rw [strays_dollar, hs, h [] s rfl]
        rfl
      · rw [strays_cons_of_ne hc, hs]
    · intro h p q hpq
      cases p with
      | nil =>
        obtain ⟨rfl, rfl⟩ := List.cons.inj hpq
        rw [strays_dollar] at h
        by_contra hno
        rw [if_neg hno] at h
        omega
      | cons _ p =>
        obtain ⟨rfl, hs⟩ := List.cons.inj hpq
        refine ih.2 ?_ p q hs
        by_cases hc : c = '$'
        · subst hc
          rw [strays_dollar] at h
          omega
        · rwa [strays_cons_of_ne hc] at h

instance : DecidablePred DollarsRefer := fun _ => decidable_of_iff _ dollarsRefer_iff.symm

/-! ## From variable to variable -/

namespace Variables

variable {vars : Variables}

/-- **One variable refers to another**: the definition of the first holds
a reference to the second. Both are named in lower case. -/
def Refers (vars : Variables) (x y : Text) : Prop :=
  ∃ definition, vars.entries.lookup x = some definition ∧
    ∃ name ∈ references definition, name.lower = y

/-- No variable leads back to itself. -/
def Acyclic (vars : Variables) : Prop :=
  ∀ x, ¬ TransGen vars.Refers x x

theorem mem_entries_of_lookup {x definition : Text}
    (h : vars.entries.lookup x = some definition) : (x, definition) ∈ vars.entries := by
  obtain ⟨before, after, hentries, -⟩ := List.lookup_eq_some_iff.1 h
  simp [hentries]

/-- Numbers that fall along every reference of the table rule out a
circle. -/
theorem acyclic_of_rank (rank : Text → Nat)
    (h : ∀ entry ∈ vars.entries, ∀ name ∈ references entry.2, rank name.lower < rank entry.1) :
    vars.Acyclic := by
  have step : ∀ {x y}, vars.Refers x y → rank y < rank x := by
    rintro x _ ⟨definition, hl, name, hname, rfl⟩
    exact h _ (mem_entries_of_lookup hl) name hname
  have falls : ∀ {x y}, TransGen vars.Refers x y → rank y < rank x := by
    intro x y hxy
    induction hxy with
    | single hr => exact step hr
    | tail _ hr ih => exact (step hr).trans ih
  exact fun x hx => lt_irrefl _ (falls hx)

theorem mem_keys_of_refers {x y : Text} (h : vars.Refers x y) :
    x ∈ vars.entries.map Prod.fst := by
  obtain ⟨definition, hl, -⟩ := h
  exact List.mem_map.2 ⟨_, mem_entries_of_lookup hl, rfl⟩

/-- **Without a circle every chain of references ends**: only the names
of the table refer to anything, and they are finitely many. -/
theorem wellFounded_refers (h : vars.Acyclic) : WellFounded fun y x => vars.Refers x y := by
  let Key := { k // k ∈ vars.entries.map Prod.fst }
  have : Finite Key := inferInstanceAs (Finite { k // k ∈ vars.entries.map Prod.fst })
  let below : Key → Key → Prop := fun a b => TransGen vars.Refers b.1 a.1
  have : IsTrans Key below := ⟨fun _ _ _ hab hbc => hbc.trans hab⟩
  have : Std.Irrefl below := ⟨fun a => h a.1⟩
  have hwf : WellFounded below := Finite.wellFounded_of_trans_of_irrefl below
  have hend : ∀ {x}, x ∉ vars.entries.map Prod.fst → Acc (fun y x => vars.Refers x y) x :=
    fun hx => ⟨_, fun _ hy => absurd (mem_keys_of_refers hy) hx⟩
  have hkey : ∀ a : Key, Acc (fun y x => vars.Refers x y) a.1 := by
    intro a
    induction a using hwf.induction with
    | _ a ih =>
      refine ⟨_, fun y hy => ?_⟩
      by_cases hk : y ∈ vars.entries.map Prod.fst
      · exact ih ⟨y, hk⟩ (.single hy)
      · exact hend hk
  refine ⟨fun x => ?_⟩
  by_cases hk : x ∈ vars.entries.map Prod.fst
  · exact hkey ⟨x, hk⟩
  · exact hend hk

end Variables

end Utterance
