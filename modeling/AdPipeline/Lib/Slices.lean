import Mathlib.Algebra.Order.Group.Int
import Mathlib.Data.List.Basic

/-!
# A list cut into slices

A loop over `range(0, len(xs), step)` that takes `xs[i:i+step]` at each index. With a positive step
the slices make up the list again, in order, and none is longer than the step. With a negative step
there are no slices, and a step of zero is an error.
-/

namespace AdPipeline.Lib

variable {α : Type*}

/-- `range(0, n, step)`, `none` for its error. -/
def rangeStep (n : ℕ) (step : ℤ) : Option (List ℕ) :=
  if step = 0 then none
  else if step < 0 then some []
  else some ((List.range ((n + step.toNat - 1) / step.toNat)).map fun j => j * step.toNat)

/-- The slices of a list. -/
def slices (step : ℤ) (xs : List α) : Option (List (List α)) :=
  (rangeStep xs.length step).map fun is => is.map fun i => (xs.drop i).take step.toNat

@[simp] theorem slices_zero (xs : List α) : slices 0 xs = none := rfl

theorem slices_of_neg {step : ℤ} (h : step < 0) (xs : List α) : slices step xs = some [] := by
  rw [slices, rangeStep, if_neg h.ne, if_pos h]
  rfl

/-- The first slices make up the beginning of the list. -/
theorem flatten_take_drop (size n : ℕ) (xs : List α) :
    ((List.range n).map fun j => (xs.drop (j * size)).take size).flatten = xs.take (n * size) := by
  induction n with
  | zero => simp
  | succ n ih =>
      rw [List.range_succ, List.map_append, List.flatten_append, ih, List.map_singleton,
        List.flatten_singleton, Nat.succ_mul, List.take_add]

/-- The slices of a positive step are the list, cut into pieces of at most that length. -/
theorem exists_slices {step : ℤ} (h : 0 < step) (xs : List α) :
    ∃ ys, slices step xs = some ys ∧ ys.flatten = xs ∧ ∀ y ∈ ys, (y.length : ℤ) ≤ step := by
  obtain ⟨size, rfl⟩ := Int.eq_ofNat_of_zero_le h.le
  have hsize : 0 < size := by omega
  refine ⟨(List.range ((xs.length + size - 1) / size)).map fun j => (xs.drop (j * size)).take size,
    ?_, ?_, ?_⟩
  · rw [slices, rangeStep, if_neg h.ne', if_neg h.not_gt, Int.toNat_natCast, Option.map_some,
      List.map_map]
    rfl
  · rw [flatten_take_drop]
    apply List.take_of_length_le
    -- the number of slices is the length divided by the size, rounded up
    have hdiv := Nat.lt_div_mul_add hsize (a := xs.length + size - 1)
    omega
  · intro y hy
    obtain ⟨j, -, rfl⟩ := List.mem_map.1 hy
    rw [List.length_take]
    omega

end AdPipeline.Lib
