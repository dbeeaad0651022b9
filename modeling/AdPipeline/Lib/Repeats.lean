import Mathlib.Data.List.Dedup
import Mathlib.Data.List.Perm.Subperm
import Mathlib.Algebra.Order.Group.Nat

/-!
# Repeated items

`repeats l` is how many items of `l` have come before in `l`. It is what a counter shows that
remembers the items it has seen, and what a receiver sees too much who expects each item once.
-/

namespace AdPipeline.Lib

variable {α : Type*} [DecidableEq α]

/-- How many items have come before. -/
def repeats (l : List α) : ℕ := l.length - l.dedup.length

theorem repeats_nil : repeats ([] : List α) = 0 := rfl

theorem repeats_add_length_dedup (l : List α) : repeats l + l.dedup.length = l.length :=
  Nat.sub_add_cancel (List.dedup_sublist l).length_le

theorem repeats_perm {l l' : List α} (h : l.Perm l') : repeats l = repeats l' := by
  rw [repeats, repeats, h.length_eq, h.dedup.length_eq]

theorem repeats_cons (a : α) (l : List α) :
    repeats (a :: l) = repeats l + if a ∈ l then 1 else 0 := by
  have hl := repeats_add_length_dedup l
  have hcons := repeats_add_length_dedup (a :: l)
  rw [List.length_cons] at hcons
  split_ifs with ha
  · rw [List.dedup_cons_of_mem ha] at hcons
    omega
  · rw [List.dedup_cons_of_notMem ha, List.length_cons] at hcons
    omega

/-- One more item. -/
theorem repeats_concat (l : List α) (a : α) :
    repeats (l ++ [a]) = repeats l + if a ∈ l then 1 else 0 := by
  rw [repeats_perm (List.perm_append_singleton a l), repeats_cons]

theorem repeats_le_of_sublist {l l' : List α} (h : l.Sublist l') : repeats l ≤ repeats l' := by
  induction h with
  | slnil => exact le_refl _
  | cons a _ ih =>
      rw [repeats_cons]
      exact ih.trans (Nat.le_add_right _ _)
  | cons_cons a hsub ih =>
      rw [repeats_cons, repeats_cons]
      refine Nat.add_le_add ih ?_
      split_ifs with ha ha'
      · exact le_refl 1
      · exact absurd (hsub.subset ha) ha'
      · exact Nat.zero_le 1
      · exact le_refl 0

/-- Of fewer items fewer are repeated. -/
theorem repeats_le_of_subperm {l l' : List α} (h : l.Subperm l') : repeats l ≤ repeats l' := by
  obtain ⟨k, hperm, hsub⟩ := h
  rw [← repeats_perm hperm]
  exact repeats_le_of_sublist hsub

end AdPipeline.Lib
