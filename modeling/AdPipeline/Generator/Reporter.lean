import AdPipeline.Lib.Feedback
import Mathlib.Data.Rat.Cast.Order

/-!
# The speed of the traffic generator

Users live in content time, which a clock turns into real time by its speed. Once a second the
reporter compares the events of that second with the target rate and adjusts the speed, from the
third second on. Numbers are exact rationals.

The adjustment is a `Feedback` when the events of a second are proportional to the speed and there
is at least one (`adjust_linear`), and the speed then converges to the one that meets the target.
-/

namespace AdPipeline.Generator

/-! ## The reporter -/

/-- What `reporter` keeps from one second to the next: its ticks and `clock.speed`. -/
structure Reporter where
  tick : ℕ
  speed : ℚ

namespace Reporter

/-- The adjustment of the speed, after a second in which this many events were sent. -/
def adjust (targetEps sent speed : ℚ) : ℚ :=
  let actual := max sent 1
  let ratio := targetEps / actual
  let ratio := min (max ratio (1 / 2)) 2
  min (max (speed * (1 + 35 / 100 * (ratio - 1))) (1 / 20)) 5000

/-- One turn of the loop. The events of the second are read before its statistics are reset. -/
def second (targetEps sent : ℚ) (r : Reporter) : Reporter :=
  let tick := r.tick + 1
  -- the first two seconds are a warm-up
  ⟨tick, if 2 < tick then adjust targetEps sent r.speed else r.speed⟩

/-- The reporter after a number of seconds, when a second sends what the load makes of its speed. -/
def after (targetEps : ℚ) (load : ℚ → ℚ) (speed : ℚ) : ℕ → Reporter
  | 0 => ⟨0, speed⟩
  | n + 1 =>
    let r := after targetEps load speed n
    second targetEps (load r.speed) r

/-- The speeds that the adjustments lead to. The warm-up is over when they begin. -/
def speeds (targetEps : ℚ) (load : ℚ → ℚ) (speed : ℚ) (n : ℕ) : ℚ :=
  (after targetEps load speed (n + 2)).speed

variable {targetEps : ℚ} {load : ℚ → ℚ} {speed : ℚ}

theorem tick_after (n : ℕ) : (after targetEps load speed n).tick = n := by
  induction n with
  | zero => rfl
  | succ n ih => rw [after, second, ih]

theorem speeds_zero : speeds targetEps load speed 0 = speed := by
  simp [speeds, after, second]

/-- Behind the warm-up every second adjusts the speed. -/
theorem speeds_succ (n : ℕ) :
    speeds targetEps load speed (n + 1) =
      adjust targetEps (load (speeds targetEps load speed n)) (speeds targetEps load speed n) := by
  have htick : (after targetEps load speed (n + 2)).tick = n + 2 := tick_after _
  rw [speeds, after, second, htick, if_pos (by omega), speeds]

/-! ## As a feedback -/

/-- The constants of the adjustment. -/
def feedback : Lib.Feedback ℚ where
  gain := 35 / 100
  lo := 1 / 2
  hi := 2
  floor := 1 / 20
  ceiling := 5000
  gain_pos := by norm_num
  gain_le_one := by norm_num
  lo_pos := by norm_num
  lo_lt_one := by norm_num
  one_lt_hi := by norm_num
  floor_pos := by norm_num

/-- When a second at least sends one event and sends them in proportion to the speed, an adjustment
is a step of the feedback to the speed that meets the target. -/
theorem adjust_linear {k : ℚ} (h : 1 ≤ k * speed) :
    adjust targetEps (k * speed) speed = feedback.next (targetEps / k) speed := by
  rw [adjust, Lib.Feedback.next, Lib.Feedback.ratio, max_eq_left h, div_div]
  rfl

/-- An adjustment ends between the bounds of the speed, whatever was sent. -/
theorem adjust_mem (sent : ℚ) : adjust targetEps sent speed ∈ Set.Icc (1 / 20 : ℚ) 5000 :=
  ⟨le_min (le_max_right _ _) (by norm_num), min_le_right _ _⟩

/-- Whatever the load, the speed stays between its bounds. -/
theorem speeds_mem (h : speed ∈ Set.Icc (1 / 20 : ℚ) 5000) (n : ℕ) :
    speeds targetEps load speed n ∈ Set.Icc (1 / 20 : ℚ) 5000 := by
  cases n with
  | zero => rwa [speeds_zero]
  | succ n =>
      rw [speeds_succ]
      exact adjust_mem _

/-- Along a linear load the speeds are those of a run of the feedback. -/
theorem speeds_eq_iterate {k : ℚ} (h : ∀ n, 1 ≤ k * speeds targetEps (fun s => k * s) speed n)
    (n : ℕ) :
    speeds targetEps (fun s => k * s) speed n = feedback.iterate (targetEps / k) speed n := by
  induction n with
  | zero => rw [speeds_zero, Lib.Feedback.iterate, Function.iterate_zero_apply]
  | succ n ih =>
      rw [speeds_succ, adjust_linear (h n), ih, Lib.Feedback.iterate_succ]

/-! ## Convergence -/

/-- The speed is within a factor of two of the target. -/
def Near (target speed : ℚ) : Prop := target / 2 ≤ speed ∧ speed ≤ 2 * target

/-- A sequence of speeds converges to a target without overshoot. -/
structure Converges (target : ℚ) (speeds : ℕ → ℚ) : Prop where
  inside : ∀ n, 1 / 20 ≤ speeds n ∧ speeds n ≤ 5000
  /-- It goes towards the target from one side and never crosses it. -/
  towards : (Monotone speeds ∧ ∀ n, speeds n ≤ target) ∨ (Antitone speeds ∧ ∀ n, target ≤ speeds n)
  /-- It does not stall short of the target. -/
  closer : ∀ n, speeds n ≠ target → |speeds (n + 1) - target| < |speeds n - target|
  near : ∃ n, Near target (speeds n)
  shrinks : ∀ n, Near target (speeds n) → Near target (speeds (n + 1)) ∧
    |speeds (n + 1) - target| = 65 / 100 * |speeds n - target|

theorem near_iff {target s : ℚ} : feedback.Near target s ↔ Near target s := by
  show 1 / 2 * s ≤ target ∧ target ≤ 2 * s ↔ target / 2 ≤ s ∧ s ≤ 2 * target
  constructor
  · rintro ⟨hlo, hhi⟩
    constructor <;> linarith
  · rintro ⟨hlo, hhi⟩
    constructor <;> linarith

/-- A run of the feedback converges. -/
theorem converges_iterate {target : ℚ} (ht : target ∈ feedback.bounds)
    (hs : speed ∈ feedback.bounds) : Converges target (feedback.iterate target speed) where
  inside n := Lib.Feedback.iterate_mem ht hs n
  towards := by
    rcases le_total speed target with h | h
    · exact .inl (Lib.Feedback.iterate_of_le ht hs h)
    · exact .inr (Lib.Feedback.iterate_of_ge ht hs h)
  closer n hne := by
    rw [Lib.Feedback.iterate_succ]
    exact Lib.Feedback.abs_next_sub_lt ht (Lib.Feedback.iterate_mem ht hs n) hne
  near := by
    obtain ⟨n, hn⟩ := Lib.Feedback.exists_near ht hs
    exact ⟨n, near_iff.1 hn⟩
  shrinks n hn := by
    obtain ⟨hnear, hsub⟩ := Lib.Feedback.near_iterate ht hs (near_iff.2 hn)
    have hgain : 1 - feedback.gain = 65 / 100 := by
      show (1 : ℚ) - 35 / 100 = 65 / 100
      norm_num
    refine ⟨near_iff.1 hnear, ?_⟩
    rw [hsub, hgain, abs_mul, abs_of_pos (by norm_num : (0 : ℚ) < 65 / 100)]

/-- The speed converges to the one that meets the target. -/
theorem speeds_converge {k : ℚ} (htarget : targetEps / k ∈ Set.Icc (1 / 20 : ℚ) 5000)
    (hspeed : speed ∈ Set.Icc (1 / 20 : ℚ) 5000)
    (hload : ∀ n, 1 ≤ k * speeds targetEps (fun s => k * s) speed n) :
    Converges (targetEps / k) (speeds targetEps (fun s => k * s) speed) := by
  have hrun : speeds targetEps (fun s => k * s) speed = feedback.iterate (targetEps / k) speed := by
    funext n
    exact speeds_eq_iterate hload n
  rw [hrun]
  exact converges_iterate htarget hspeed

/-- Twenty events for each unit of speed are enough for one event a second at any speed. -/
theorem speeds_converge_twenty :
    Converges (200 / 20) (speeds 200 (fun s => 20 * s) 1) := by
  apply speeds_converge
  · constructor <;> norm_num
  · constructor <;> norm_num
  · intro n
    have hmem : speeds 200 (fun s => 20 * s) 1 n ∈ Set.Icc (1 / 20 : ℚ) 5000 :=
      speeds_mem ⟨by norm_num, by norm_num⟩ n
    linarith [hmem.1]

end Reporter

end AdPipeline.Generator
