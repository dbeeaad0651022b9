import Mathlib.Algebra.BigOperators.Group.Finset.Piecewise
import Mathlib.Algebra.Ring.Nat

/-!
# Ranges cut into steps

The multiples of a width in a half-open range, and totals of rows that each belong to at most one
step. A range is the disjoint union of its parts, and a total over a range adds up step by step.
-/

namespace AdPipeline.Lib

/-- The multiples of `w` from `a` on and before `b`. -/
def stepsIn (w a b : ℤ) : Finset ℤ :=
  ((Finset.range (b - a).toNat).image fun i : ℕ => a + i).filter fun m => m % w = 0

variable {w a b c m : ℤ}

theorem mem_stepsIn : m ∈ stepsIn w a b ↔ (a ≤ m ∧ m < b) ∧ m % w = 0 := by
  rw [stepsIn, Finset.mem_filter, Finset.mem_image]
  apply and_congr_left
  intro _
  constructor
  · rintro ⟨i, hi, rfl⟩
    rw [Finset.mem_range] at hi
    omega
  · intro hm
    refine ⟨(m - a).toNat, Finset.mem_range.2 ?_, ?_⟩
    · omega
    · omega

/-- A range is made up of its parts. -/
theorem stepsIn_union (hab : a ≤ b) (hbc : b ≤ c) :
    stepsIn w a b ∪ stepsIn w b c = stepsIn w a c := by
  ext m
  rw [Finset.mem_union, mem_stepsIn, mem_stepsIn, mem_stepsIn, ← or_and_right]
  apply and_congr_left
  intro _
  omega

/-- Consecutive ranges have no step in common. -/
theorem disjoint_stepsIn (w a b c : ℤ) : Disjoint (stepsIn w a b) (stepsIn w b c) := by
  rw [Finset.disjoint_left]
  intro m hfirst hsecond
  rw [mem_stepsIn] at hfirst hsecond
  omega

theorem sum_stepsIn_consecutive (f : ℤ → ℕ) (hab : a ≤ b) (hbc : b ≤ c) :
    ∑ m ∈ stepsIn w a b, f m + ∑ m ∈ stepsIn w b c, f m = ∑ m ∈ stepsIn w a c, f m := by
  rw [← stepsIn_union hab hbc, Finset.sum_union (disjoint_stepsIn w a b c)]

/-- Rows that belong to some key of a set, added up key by key. -/
theorem sum_sum_filter_key {ρ κ : Type*} [DecidableEq κ] (key : ρ → Option κ) (f : ρ → ℕ)
    (s : Finset κ) (rows : List ρ) :
    ∑ k ∈ s, ((rows.filter fun r => key r = some k).map f).sum =
      ((rows.filter fun r => (key r).any fun k => k ∈ s).map f).sum := by
  induction rows with
  | nil => simp
  | cons r rows ih =>
      have hcons : ∀ k, (((r :: rows).filter fun r => key r = some k).map f).sum =
          (if key r = some k then f r else 0) +
            ((rows.filter fun r => key r = some k).map f).sum := by
        intro k
        by_cases hk : key r = some k <;> simp [hk]
      rw [Finset.sum_congr rfl fun k _ => hcons k, Finset.sum_add_distrib, ih]
      cases hr : key r with
      | none => simp [hr]
      | some k =>
          have hsum : ∑ k' ∈ s, (if some k = some k' then f r else 0) =
              if k ∈ s then f r else 0 := by
            simp only [Option.some.injEq]
            exact Finset.sum_ite_eq s k fun _ => f r
          rw [hsum]
          by_cases hk : k ∈ s <;> simp [hr, hk]

theorem sum_countP_key {ρ κ : Type*} [DecidableEq κ] (key : ρ → Option κ) (s : Finset κ)
    (rows : List ρ) : ∑ k ∈ s, (rows.countP fun r => key r = some k) =
      rows.countP fun r => (key r).any fun k => k ∈ s := by
  have h := sum_sum_filter_key key (fun _ => 1) s rows
  simpa only [List.map_const', List.sum_replicate_nat, Nat.mul_one,
    List.countP_eq_length_filter] using h

end AdPipeline.Lib
