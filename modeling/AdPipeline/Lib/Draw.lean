import Mathlib.Algebra.Order.BigOperators.Group.List
import Mathlib.Algebra.Order.Field.Basic
import Mathlib.Order.Interval.Set.Basic

/-!
# Weighted choice by running subtraction

A number drawn below the total of some weights is taken down by one weight after the other, and the
element that takes it to zero or below is chosen. With weights that are not negative an element is
chosen by the numbers above the sum of the weights before it, up to that sum and its own weight
(`drawAt_eq_some_iff`). The first element is also chosen by zero, whatever its weight.
-/

namespace AdPipeline.Lib

variable {ρ K : Type*}

section

variable [AddCommGroup K] (weight : ρ → K)

/-- The sum of the weights of the first elements. -/
def weightBefore (l : List ρ) (i : ℕ) : K := ((l.take i).map weight).sum

@[simp] theorem weightBefore_zero (l : List ρ) : weightBefore weight l 0 = 0 := rfl

theorem weightBefore_cons_succ (x : ρ) (l : List ρ) (i : ℕ) :
    weightBefore weight (x :: l) (i + 1) = weight x + weightBefore weight l i := by
  rw [weightBefore, List.take_succ_cons, List.map_cons, List.sum_cons]
  rfl

theorem weightBefore_succ {l : List ρ} {i : ℕ} (hi : i < l.length) :
    weightBefore weight l (i + 1) = weightBefore weight l i + weight l[i] := by
  rw [weightBefore, weightBefore, List.map_take, List.map_take,
    List.sum_take_succ _ i (by simpa using hi), List.getElem_map]

variable [LinearOrder K]

/-- The element chosen. -/
def drawFrom (r : K) : List ρ → Option ρ
  | [] => none
  | x :: l => if r - weight x ≤ 0 then some x else drawFrom (r - weight x) l

/-- The place of the element chosen. -/
def drawAt (r : K) : List ρ → Option ℕ
  | [] => none
  | x :: l => if r - weight x ≤ 0 then some 0 else (drawAt (r - weight x) l).map (· + 1)

theorem drawFrom_eq (r : K) (l : List ρ) :
    drawFrom weight r l = (drawAt weight r l).bind fun i => l[i]? := by
  induction l generalizing r with
  | nil => rfl
  | cons x l ih =>
      rw [drawFrom, drawAt]
      split_ifs with h
      · rfl
      · rw [ih, Option.bind_map]
        rfl

variable {weight} [IsOrderedAddMonoid K]

theorem weightBefore_nonneg {l : List ρ} (h : ∀ x ∈ l, 0 ≤ weight x) (i : ℕ) :
    0 ≤ weightBefore weight l i := by
  refine List.sum_nonneg fun w hw => ?_
  obtain ⟨x, hx, rfl⟩ := List.mem_map.1 hw
  exact h x (List.mem_of_mem_take hx)

theorem weightBefore_le_total {l : List ρ} (h : ∀ x ∈ l, 0 ≤ weight x) (i : ℕ) :
    weightBefore weight l i ≤ (l.map weight).sum := by
  have hrest : 0 ≤ ((l.map weight).drop i).sum := by
    refine List.sum_nonneg fun w hw => ?_
    obtain ⟨x, hx, rfl⟩ := List.mem_map.1 (List.mem_of_mem_drop hw)
    exact h x hx
  rw [weightBefore, List.map_take, ← List.sum_take_add_sum_drop (l.map weight) i]
  exact le_add_of_nonneg_right hrest

/-- The numbers that choose an element: above the weights before it, or at them for the first
element, and up to its own weight more. -/
theorem drawAt_eq_some_iff {l : List ρ} (h : ∀ x ∈ l, 0 ≤ weight x) (r : K) (i : ℕ) :
    drawAt weight r l = some i ↔
      i < l.length ∧ (i = 0 ∨ weightBefore weight l i < r) ∧ r ≤ weightBefore weight l (i + 1) := by
  induction l generalizing r i with
  | nil => simp [drawAt]
  | cons x l ih =>
      have htail : ∀ y ∈ l, 0 ≤ weight y := fun y hy => h y (List.mem_cons_of_mem x hy)
      have hchosen : r - weight x ≤ 0 ↔ r ≤ weight x := sub_nonpos
      rw [drawAt, weightBefore_cons_succ]
      cases i with
      | zero =>
          have hfirst : weight x + weightBefore weight l 0 = weight x := add_zero _
          rw [hfirst, ← hchosen]
          split_ifs with hr
          · simp [hr]
          · simp [hr]
      | succ i =>
          rw [weightBefore_cons_succ, List.length_cons]
          have hbefore := weightBefore_nonneg htail i
          split_ifs with hr
          · -- the first element is chosen, so the number is not above its weight
            refine iff_of_false (by simp) ?_
            rintro ⟨-, hlow | hlow, -⟩
            · cases hlow
            · exact absurd ((hchosen.1 hr).trans (le_add_of_nonneg_right hbefore)) (not_le.2 hlow)
          · rw [Option.map_eq_some_iff]
            constructor
            · rintro ⟨j, hj, heq⟩
              obtain rfl : j = i := Nat.succ.inj heq
              obtain ⟨hlen, hlow, hhigh⟩ := (ih htail _ _).1 hj
              refine ⟨Nat.succ_lt_succ hlen, .inr ?_, sub_le_iff_le_add'.1 hhigh⟩
              rcases hlow with rfl | hlow
              · rw [weightBefore_zero, add_zero]
                exact not_le.1 fun hle => hr (hchosen.2 hle)
              · exact lt_sub_iff_add_lt'.1 hlow
            · rintro ⟨hlen, hlow, hhigh⟩
              refine ⟨i, (ih htail _ _).2 ⟨Nat.lt_of_succ_lt_succ hlen, .inr ?_,
                sub_le_iff_le_add'.2 hhigh⟩, rfl⟩
              exact lt_sub_iff_add_lt'.2 (hlow.resolve_left id)

/-- A number up to the total chooses an element. -/
theorem exists_drawAt {l : List ρ} (hne : l ≠ []) {r : K}
    (hr : r ≤ (l.map weight).sum) : ∃ i, drawAt weight r l = some i := by
  induction l generalizing r with
  | nil => exact absurd rfl hne
  | cons x l ih =>
      rw [drawAt]
      split_ifs with hx
      · exact ⟨0, rfl⟩
      · rw [List.map_cons, List.sum_cons, ← sub_le_iff_le_add'] at hr
        have hrest : l ≠ [] := by
          rintro rfl
          exact hx hr
        obtain ⟨i, hi⟩ := ih hrest hr
        exact ⟨i + 1, by rw [hi]; rfl⟩

end

/-! ## Uniform draws -/

section

variable [Field K] [LinearOrder K] [IsStrictOrderedRing K]

/-- The set is an interval of a length, with or without its ends. -/
def IsIntervalOfLength (s : Set K) (length : K) : Prop :=
  ∃ a b, b - a = length ∧ Set.Ioo a b ⊆ s ∧ s ⊆ Set.Icc a b

/-- The uniform draws that choose an element form an interval, whose length is the share of its
weight. -/
theorem isIntervalOfLength_drawAt {weight : ρ → K} {l : List ρ} (h : ∀ x ∈ l, 0 ≤ weight x)
    (hpos : 0 < (l.map weight).sum) {i : ℕ} (hi : i < l.length) :
    IsIntervalOfLength
      {u : K | (0 ≤ u ∧ u < 1) ∧ drawAt weight (u * (l.map weight).sum) l = some i}
      (weight l[i] / (l.map weight).sum) := by
  refine ⟨weightBefore weight l i / (l.map weight).sum,
    weightBefore weight l (i + 1) / (l.map weight).sum, ?_, ?_, ?_⟩
  · rw [← sub_div, weightBefore_succ weight hi, add_sub_cancel_left]
  · rintro u ⟨hlow, hhigh⟩
    have hzero := div_nonneg (weightBefore_nonneg h i) hpos.le
    have hone := (div_le_one hpos).2 (weightBefore_le_total h (i + 1))
    refine ⟨⟨(hzero.trans_lt hlow).le, hhigh.trans_le hone⟩, (drawAt_eq_some_iff h _ _).2
      ⟨hi, .inr ((div_lt_iff₀ hpos).1 hlow), ((lt_div_iff₀ hpos).1 hhigh).le⟩⟩
  · rintro u ⟨⟨hzero, -⟩, hdraw⟩
    obtain ⟨-, hlow, hhigh⟩ := (drawAt_eq_some_iff h _ _).1 hdraw
    refine ⟨?_, (le_div_iff₀ hpos).2 hhigh⟩
    rcases hlow with rfl | hlow
    · rw [weightBefore_zero, zero_div]
      exact hzero
    · exact ((div_lt_iff₀ hpos).2 hlow).le

end

end AdPipeline.Lib
