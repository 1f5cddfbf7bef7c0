import Mathlib.Data.List.Induction
import Mathlib.Data.List.Nodup

/-!
# Firsts — lists without their repetitions

A list that is rid of its repetitions keeps every member where it first
came. All laws here are by induction from the end, where a new member is
added and any other one is dropped (`eraseDups_concat`): the members stand
in the order in which they first came (`pairwise_eraseDups`), and a list
put together from parts that have nothing in common is rid of repetitions
by dropping the parts that came before (`eraseDups_flatMap`).
-/

namespace Utterance

variable {α β : Type} [BEq α] [LawfulBEq α] [BEq β] [LawfulBEq β]

/-- A member at the end stays if it is new. -/
theorem eraseDups_concat (l : List α) (a : α) :
    (l ++ [a]).eraseDups = if a ∈ l then l.eraseDups else l.eraseDups ++ [a] := by
  have hone : [a].eraseDups = [a] := by simp [List.eraseDups_cons]
  rw [List.eraseDups_append]
  split
  · rename_i h
    simp [List.removeAll, h]
  · rename_i h
    simp [List.removeAll, h, hone]

theorem eraseDups_filter (p : α → Bool) (l : List α) :
    (l.filter p).eraseDups = l.eraseDups.filter p := by
  induction l using List.reverseRecOn with
  | nil => rfl
  | append_singleton l a ih =>
    rw [List.filter_append, eraseDups_concat]
    by_cases hp : p a = true
    · rw [List.filter_cons_of_pos hp, List.filter_nil, eraseDups_concat, ih]
      by_cases hm : a ∈ l <;> simp [hm, hp]
    · rw [List.filter_cons_of_neg hp, List.filter_nil, List.append_nil, ih]
      by_cases hm : a ∈ l <;> simp [hm, hp]

/-- **The members stand in the order in which they first came.** -/
theorem pairwise_eraseDups (l : List α) :
    l.eraseDups.Pairwise fun a b => l.idxOf a < l.idxOf b := by
  induction l using List.reverseRecOn with
  | nil => exact .nil
  | append_singleton l a ih =>
    have hbefore : l.eraseDups.Pairwise fun b c => (l ++ [a]).idxOf b < (l ++ [a]).idxOf c := by
      refine ih.imp_of_mem fun hb hc hlt => ?_
      rwa [List.idxOf_append_of_mem (List.mem_eraseDups.1 hb),
        List.idxOf_append_of_mem (List.mem_eraseDups.1 hc)]
    rw [eraseDups_concat]
    split
    · exact hbefore
    · rename_i hnew
      refine List.pairwise_append.2 ⟨hbefore, List.pairwise_singleton _ _, ?_⟩
      intro b hb c hc
      obtain rfl := List.mem_singleton.1 hc
      have hmem := List.mem_eraseDups.1 hb
      have hlt := List.idxOf_lt_length_of_mem hmem
      rw [List.idxOf_append_of_mem hmem, List.idxOf_append_of_notMem hnew]
      omega

theorem nodup_eraseDups (l : List α) : l.eraseDups.Nodup := by
  refine (pairwise_eraseDups l).imp ?_
  rintro a b hlt rfl
  omega

theorem eraseDups_of_nodup {l : List α} (h : l.Nodup) : l.eraseDups = l := by
  induction l using List.reverseRecOn with
  | nil => rfl
  | append_singleton l a ih =>
    obtain ⟨hl, -, hnew⟩ := List.nodup_append.1 h
    have ha : a ∉ l := fun hm => hnew a hm a (by simp) rfl
    rw [eraseDups_concat, if_neg ha, ih hl]

/-- **Parts that have nothing in common** keep their members: only a part
that came before goes. -/
theorem eraseDups_flatMap {f : α → List β} (hnodup : ∀ a, (f a).Nodup)
    (hdisjoint : ∀ a b x, x ∈ f a → x ∈ f b → a = b) (l : List α) :
    (l.flatMap f).eraseDups = l.eraseDups.flatMap f := by
  induction l using List.reverseRecOn with
  | nil => rfl
  | append_singleton l a ih =>
    rw [List.flatMap_append, List.flatMap_singleton, List.eraseDups_append, ih, eraseDups_concat]
    split
    · rename_i hm
      have hnone : (f a).removeAll (l.flatMap f) = [] := by
        rw [List.removeAll, List.filter_eq_nil_iff]
        intro x hx
        have hmem : ∃ b ∈ l, x ∈ f b := ⟨a, hm, hx⟩
        simpa using hmem
      rw [hnone, List.eraseDups_nil, List.append_nil]
    · rename_i hnew
      have hall : (f a).removeAll (l.flatMap f) = f a := by
        rw [List.removeAll, List.filter_eq_self]
        intro x hx
        have hno : ∀ b ∈ l, x ∉ f b := by
          intro b hb hxb
          obtain rfl := hdisjoint a b x hx hxb
          exact hnew hb
        simpa using hno
      rw [hall, eraseDups_of_nodup (hnodup a), List.flatMap_append, List.flatMap_singleton]

/-- A list that is mapped without making members equal. -/
theorem eraseDups_map {f : α → β} (hf : Function.Injective f) (l : List α) :
    (l.map f).eraseDups = l.eraseDups.map f := by
  rw [List.map_eq_flatMap, List.map_eq_flatMap]
  refine eraseDups_flatMap (fun _ => List.nodup_singleton _) (fun a b x ha hb => hf ?_) l
  rw [← List.mem_singleton.1 ha, ← List.mem_singleton.1 hb]

end Utterance
