import Mathlib.Algebra.Order.Archimedean.Basic
import Mathlib.Algebra.Order.Field.Basic
import Mathlib.Order.Interval.Set.Basic
import Mathlib.Tactic.FieldSimp
import Mathlib.Tactic.Linarith

/-!
# Multiplicative feedback with clamps

A positive quantity is steered to a target by a factor: the ratio of the target to the quantity,
clamped to an interval about one, of which a part, the gain, is applied; the result is clamped
again. `next_eq` reads this as a step towards an *aim*, the target itself where it is near and a
fixed multiple of the quantity where it is far. The aim is between the quantity and the target, so
that a step is never past the target and the outer clamp does nothing. Far steps multiply by a
constant, hence there are finitely many of them, and near steps shrink the error by a constant.
-/

namespace AdPipeline.Lib

variable {K : Type*} [Field K] [LinearOrder K] [IsStrictOrderedRing K]

/-- The gain, the clamp of the ratio and the clamp of the quantity. -/
structure Feedback (K : Type*) [Field K] [LinearOrder K] [IsStrictOrderedRing K] where
  gain : K
  lo : K
  hi : K
  floor : K
  ceiling : K
  gain_pos : 0 < gain
  gain_le_one : gain ≤ 1
  lo_pos : 0 < lo
  lo_lt_one : lo < 1
  one_lt_hi : 1 < hi
  floor_pos : 0 < floor

namespace Feedback

variable (F : Feedback K) {target s : K}

/-- The values that the outer clamp leaves alone. -/
def bounds : Set K := Set.Icc F.floor F.ceiling

/-- The clamped ratio of the target to the quantity. -/
def ratio (target s : K) : K := min (max (target / s) F.lo) F.hi

/-- One step. -/
def next (target s : K) : K :=
  min (max (s * (1 + F.gain * (F.ratio target s - 1))) F.floor) F.ceiling

/-- Where a step is directed to. -/
def aim (target s : K) : K := min (max target (F.lo * s)) (F.hi * s)

/-- The target is near: its ratio to the quantity is not clamped. -/
def Near (target s : K) : Prop := F.lo * s ≤ target ∧ target ≤ F.hi * s

variable {F}

theorem pos_of_mem_bounds (h : s ∈ F.bounds) : 0 < s := F.floor_pos.trans_le h.1

/-! ## One step -/

theorem mul_ratio (hs : 0 < s) : s * F.ratio target s = F.aim target s := by
  rw [ratio, aim, mul_min_of_nonneg _ _ hs.le, mul_max_of_nonneg _ _ hs.le,
    mul_div_cancel₀ _ hs.ne', mul_comm s, mul_comm s]

/-- From below the target, the aim is not past it. -/
theorem aim_of_le (hs : 0 < s) (h : s ≤ target) : s ≤ F.aim target s ∧ F.aim target s ≤ target := by
  have hlo : F.lo * s ≤ s := mul_le_of_le_one_left hs.le F.lo_lt_one.le
  have hhi : s ≤ F.hi * s := le_mul_of_one_le_left hs.le F.one_lt_hi.le
  rw [aim, max_eq_left (hlo.trans h)]
  exact ⟨le_min h hhi, min_le_left _ _⟩

/-- Nor from above it. -/
theorem aim_of_ge (hs : 0 < s) (h : target ≤ s) : target ≤ F.aim target s ∧ F.aim target s ≤ s := by
  have hlo : F.lo * s ≤ s := mul_le_of_le_one_left hs.le F.lo_lt_one.le
  have hhi : s ≤ F.hi * s := le_mul_of_one_le_left hs.le F.one_lt_hi.le
  have hmax : max target (F.lo * s) ≤ s := max_le h hlo
  rw [aim, min_eq_left (hmax.trans hhi)]
  exact ⟨le_max_left _ _, hmax⟩

/-- A part of the way to a value between two others is between them. -/
theorem part_mem {a : K} (hle : s ≤ a) (hat : a ≤ target) :
    s ≤ s + F.gain * (a - s) ∧ s + F.gain * (a - s) ≤ target := by
  have hpos : 0 ≤ F.gain * (a - s) := mul_nonneg F.gain_pos.le (sub_nonneg.2 hle)
  have hpart : F.gain * (a - s) ≤ a - s :=
    mul_le_of_le_one_left (sub_nonneg.2 hle) F.gain_le_one
  constructor <;> linarith

theorem part_mem' {a : K} (hge : a ≤ s) (hat : target ≤ a) :
    target ≤ s + F.gain * (a - s) ∧ s + F.gain * (a - s) ≤ s := by
  have hneg : F.gain * (s - a) ≤ s - a := mul_le_of_le_one_left (sub_nonneg.2 hge) F.gain_le_one
  have hpos : 0 ≤ F.gain * (s - a) := mul_nonneg F.gain_pos.le (sub_nonneg.2 hge)
  constructor <;> linarith

/-- Where target and quantity are within bounds, a step is the gain's part of the way to the aim. -/
theorem next_eq (ht : target ∈ F.bounds) (hs : s ∈ F.bounds) :
    F.next target s = s + F.gain * (F.aim target s - s) := by
  have hpos := pos_of_mem_bounds hs
  have hstep : s * (1 + F.gain * (F.ratio target s - 1)) = s + F.gain * (F.aim target s - s) := by
    rw [← mul_ratio hpos]
    ring
  have hmem : s + F.gain * (F.aim target s - s) ∈ F.bounds := by
    rcases le_total s target with h | h
    · obtain ⟨hle, hat⟩ := aim_of_le hpos h
      obtain ⟨h₁, h₂⟩ := part_mem hle hat
      exact ⟨hs.1.trans h₁, h₂.trans ht.2⟩
    · obtain ⟨hat, hge⟩ := aim_of_ge hpos h
      obtain ⟨h₁, h₂⟩ := part_mem' hge hat
      exact ⟨ht.1.trans h₁, h₂.trans hs.2⟩
  rw [next, hstep, max_eq_left hmem.1, min_eq_left hmem.2]

/-- A step from below goes up, not past the target. -/
theorem next_of_le (ht : target ∈ F.bounds) (hs : s ∈ F.bounds) (h : s ≤ target) :
    s ≤ F.next target s ∧ F.next target s ≤ target := by
  obtain ⟨hle, hat⟩ := aim_of_le (pos_of_mem_bounds hs) h
  rw [next_eq ht hs]
  exact part_mem hle hat

/-- A step from above goes down, not past the target. -/
theorem next_of_ge (ht : target ∈ F.bounds) (hs : s ∈ F.bounds) (h : target ≤ s) :
    target ≤ F.next target s ∧ F.next target s ≤ s := by
  obtain ⟨hat, hge⟩ := aim_of_ge (pos_of_mem_bounds hs) h
  rw [next_eq ht hs]
  exact part_mem' hge hat

/-- A step gets closer to the target, unless it is there. -/
theorem abs_next_sub_lt (ht : target ∈ F.bounds) (hs : s ∈ F.bounds) (h : s ≠ target) :
    |F.next target s - target| < |s - target| := by
  have hpos := pos_of_mem_bounds hs
  rcases lt_or_gt_of_ne h with hlt | hgt
  · have haim : s < F.aim target s :=
      lt_min (hlt.trans_le (le_max_left _ _)) (lt_mul_of_one_lt_left hpos F.one_lt_hi)
    have hup : 0 < F.gain * (F.aim target s - s) := mul_pos F.gain_pos (sub_pos.2 haim)
    have hmax := (next_of_le ht hs hlt.le).2
    rw [abs_sub_comm, abs_sub_comm s, abs_of_nonneg (sub_nonneg.2 hmax),
      abs_of_pos (sub_pos.2 hlt)]
    rw [next_eq ht hs]
    linarith
  · have haim : F.aim target s < s :=
      min_lt_of_left_lt (max_lt hgt (mul_lt_of_lt_one_left hpos F.lo_lt_one))
    have hdown : 0 < F.gain * (s - F.aim target s) := mul_pos F.gain_pos (sub_pos.2 haim)
    have hmin := (next_of_ge ht hs hgt.le).1
    rw [abs_of_nonneg (sub_nonneg.2 hmin), abs_of_pos (sub_pos.2 hgt), next_eq ht hs]
    linarith

/-- A step ends within bounds, wherever it starts. -/
theorem next_mem (hle : F.floor ≤ F.ceiling) (target s : K) : F.next target s ∈ F.bounds :=
  ⟨le_min (le_max_right _ _) hle, min_le_right _ _⟩

/-- Near the target, a step takes the gain's part of the error away. -/
theorem next_sub_of_near (ht : target ∈ F.bounds) (hs : s ∈ F.bounds) (h : F.Near target s) :
    F.next target s - target = (1 - F.gain) * (s - target) := by
  rw [next_eq ht hs, aim, max_eq_left h.1, min_eq_left h.2]
  ring

/-- Far below the target, a step multiplies by a constant. -/
theorem next_of_far_below (ht : target ∈ F.bounds) (hs : s ∈ F.bounds)
    (h : F.hi * s < target) : F.next target s = s * (1 + F.gain * (F.hi - 1)) := by
  rw [next_eq ht hs, aim, min_eq_right (h.le.trans (le_max_left _ _))]
  ring

/-- And so far above it. -/
theorem next_of_far_above (ht : target ∈ F.bounds) (hs : s ∈ F.bounds)
    (h : target < F.lo * s) : F.next target s = s * (1 - F.gain * (1 - F.lo)) := by
  have hlohi : F.lo * s ≤ F.hi * s := by
    have hpos := pos_of_mem_bounds hs
    gcongr
    exact (F.lo_lt_one.trans F.one_lt_hi).le
  rw [next_eq ht hs, aim, max_eq_right h.le, min_eq_left hlohi]
  ring

/-- A quantity that is near stays near. -/
theorem Near.next (ht : target ∈ F.bounds) (hs : s ∈ F.bounds) (h : F.Near target s) :
    F.Near target (F.next target s) := by
  have hpos : 0 < F.next target s := by
    rcases le_total s target with hle | hge
    · exact (pos_of_mem_bounds hs).trans_le (next_of_le ht hs hle).1
    · exact (pos_of_mem_bounds ht).trans_le (next_of_ge ht hs hge).1
  have hlo : F.lo * F.next target s ≤ F.next target s :=
    mul_le_of_le_one_left hpos.le F.lo_lt_one.le
  have hhi : F.next target s ≤ F.hi * F.next target s :=
    le_mul_of_one_le_left hpos.le F.one_lt_hi.le
  rcases le_total s target with hle | hge
  · obtain ⟨hup, hmax⟩ := next_of_le ht hs hle
    exact ⟨hlo.trans hmax, h.2.trans (mul_le_mul_of_nonneg_left hup (by linarith [F.one_lt_hi]))⟩
  · obtain ⟨hmin, hdown⟩ := next_of_ge ht hs hge
    exact ⟨(mul_le_mul_of_nonneg_left hdown F.lo_pos.le).trans h.1, hmin.trans hhi⟩

/-! ## Runs -/

variable (F) in
/-- The quantities of a run. -/
def iterate (target s : K) (n : ℕ) : K := (F.next target)^[n] s

theorem iterate_succ (target s : K) (n : ℕ) :
    F.iterate target s (n + 1) = F.next target (F.iterate target s n) :=
  Function.iterate_succ_apply' _ _ _

/-- A run stays within bounds. -/
theorem iterate_mem (ht : target ∈ F.bounds) (hs : s ∈ F.bounds) (n : ℕ) :
    F.iterate target s n ∈ F.bounds := by
  cases n with
  | zero => exact hs
  | succ n =>
      rw [iterate_succ]
      exact next_mem (ht.1.trans ht.2) _ _

/-- A run from below goes up to the target. -/
theorem iterate_of_le (ht : target ∈ F.bounds) (hs : s ∈ F.bounds) (h : s ≤ target) :
    Monotone (F.iterate target s) ∧ ∀ n, F.iterate target s n ≤ target := by
  have hbelow : ∀ n, F.iterate target s n ≤ target := by
    intro n
    induction n with
    | zero => exact h
    | succ n ih =>
        rw [iterate_succ]
        exact (next_of_le ht (iterate_mem ht hs n) ih).2
  refine ⟨monotone_nat_of_le_succ fun n => ?_, hbelow⟩
  rw [iterate_succ]
  exact (next_of_le ht (iterate_mem ht hs n) (hbelow n)).1

/-- A run from above goes down to the target. -/
theorem iterate_of_ge (ht : target ∈ F.bounds) (hs : s ∈ F.bounds) (h : target ≤ s) :
    Antitone (F.iterate target s) ∧ ∀ n, target ≤ F.iterate target s n := by
  have habove : ∀ n, target ≤ F.iterate target s n := by
    intro n
    induction n with
    | zero => exact h
    | succ n ih =>
        rw [iterate_succ]
        exact (next_of_ge ht (iterate_mem ht hs n) ih).1
  refine ⟨antitone_nat_of_succ_le fun n => ?_, habove⟩
  rw [iterate_succ]
  exact (next_of_ge ht (iterate_mem ht hs n) (habove n)).2

/-- Once a run is near it stays near, and each step shrinks the error. -/
theorem near_iterate (ht : target ∈ F.bounds) (hs : s ∈ F.bounds) {n : ℕ}
    (h : F.Near target (F.iterate target s n)) :
    F.Near target (F.iterate target s (n + 1)) ∧
      F.iterate target s (n + 1) - target = (1 - F.gain) * (F.iterate target s n - target) := by
  have hmem := iterate_mem ht hs n
  rw [iterate_succ]
  exact ⟨h.next ht hmem, next_sub_of_near ht hmem h⟩

/-! ## Reaching the target -/

variable [Archimedean K]

/-- A run from below is near after finitely many steps: each far step multiplies by more than
one. -/
theorem exists_near_of_le (ht : target ∈ F.bounds) (hs : s ∈ F.bounds) (h : s ≤ target) :
    ∃ n, F.Near target (F.iterate target s n) := by
  by_contra hnear
  have hfar : ∀ n, F.hi * F.iterate target s n < target := by
    intro n
    have hpos := pos_of_mem_bounds (iterate_mem ht hs n)
    have hle := (iterate_of_le ht hs h).2 n
    have hlo := mul_le_of_le_one_left hpos.le F.lo_lt_one.le
    exact not_le.1 fun hhi => hnear ⟨n, hlo.trans hle, hhi⟩
  have hpow : ∀ n, F.iterate target s n = s * (1 + F.gain * (F.hi - 1)) ^ n := by
    intro n
    induction n with
    | zero => rw [pow_zero, mul_one, iterate, Function.iterate_zero_apply]
    | succ n ih =>
        rw [iterate_succ, next_of_far_below ht (iterate_mem ht hs n) (hfar n), ih, pow_succ,
          mul_assoc]
  have hfactor : 1 < 1 + F.gain * (F.hi - 1) :=
    lt_add_of_pos_right _ (mul_pos F.gain_pos (sub_pos.2 F.one_lt_hi))
  obtain ⟨n, hn⟩ := pow_unbounded_of_one_lt (target / s) hfactor
  rw [div_lt_iff₀' (pos_of_mem_bounds hs), ← hpow] at hn
  exact absurd ((iterate_of_le ht hs h).2 n) hn.not_ge

/-- A run from above is near after finitely many steps: each far step multiplies by less than
one. -/
theorem exists_near_of_ge (ht : target ∈ F.bounds) (hs : s ∈ F.bounds) (h : target ≤ s) :
    ∃ n, F.Near target (F.iterate target s n) := by
  by_contra hnear
  have hfar : ∀ n, target < F.lo * F.iterate target s n := by
    intro n
    have hpos := pos_of_mem_bounds (iterate_mem ht hs n)
    have hge := (iterate_of_ge ht hs h).2 n
    have hhi := le_mul_of_one_le_left hpos.le F.one_lt_hi.le
    exact not_le.1 fun hlo => hnear ⟨n, hlo, hge.trans hhi⟩
  have hpow : ∀ n, F.iterate target s n = s * (1 - F.gain * (1 - F.lo)) ^ n := by
    intro n
    induction n with
    | zero => rw [pow_zero, mul_one, iterate, Function.iterate_zero_apply]
    | succ n ih =>
        rw [iterate_succ, next_of_far_above ht (iterate_mem ht hs n) (hfar n), ih, pow_succ,
          mul_assoc]
  have hfactor : 1 - F.gain * (1 - F.lo) < 1 :=
    sub_lt_self _ (mul_pos F.gain_pos (sub_pos.2 F.lo_lt_one))
  obtain ⟨n, hn⟩ := exists_pow_lt_of_lt_one
    (div_pos (pos_of_mem_bounds ht) (pos_of_mem_bounds hs)) hfactor
  rw [lt_div_iff₀' (pos_of_mem_bounds hs), ← hpow] at hn
  exact absurd ((iterate_of_ge ht hs h).2 n) hn.not_ge

/-- Every run is near after finitely many steps. -/
theorem exists_near (ht : target ∈ F.bounds) (hs : s ∈ F.bounds) :
    ∃ n, F.Near target (F.iterate target s n) := by
  rcases le_total s target with h | h
  · exact exists_near_of_le ht hs h
  · exact exists_near_of_ge ht hs h

end Feedback

end AdPipeline.Lib
