import Std.Data.HashSet

/-!
# Distinct members

A list without its repetitions keeps every member where it first stands.
What was met already is looked up in a hash set, so that long lists are
cheap; the result is that of the plain definition (`distinct_eq`), which
is the one to reason about.
-/

namespace Utterance

variable {α : Type} [BEq α] [Hashable α]

/-- The list without its repetitions. -/
def distinct (items : List α) : List α :=
  go ∅ [] items
where
  /-- The members that were not met before, after those kept so far, which
  are in reverse. -/
  go (met : Std.HashSet α) (kept : List α) : List α → List α
    | [] => kept.reverse
    | a :: rest => if met.contains a then go met kept rest else go (met.insert a) (a :: kept) rest

private theorem distinct_go [LawfulBEq α] (met : Std.HashSet α) (kept items : List α) :
    distinct.go met kept items =
      kept.reverse ++ (items.filter fun a => !met.contains a).eraseDups := by
  induction items generalizing met kept with
  | nil => simp [distinct.go]
  | cons a rest ih =>
    unfold distinct.go
    split
    · rename_i h
      rw [ih, List.filter_cons_of_neg (by simp [h])]
    · rename_i h
      rw [ih, List.filter_cons_of_pos (by simp [h]), List.eraseDups_cons, List.filter_filter]
      have same : (fun k => !(met.insert a).contains k) = fun k => !k == a && !met.contains k := by
        funext k
        rw [Std.HashSet.contains_insert, Bool.not_or, BEq.comm]
      rw [same]
      simp

/-- **Every member once, where it first stands.** -/
theorem distinct_eq [LawfulBEq α] (items : List α) : distinct items = items.eraseDups := by
  rw [distinct, distinct_go, List.filter_eq_self.2 (by simp)]
  rfl

end Utterance
