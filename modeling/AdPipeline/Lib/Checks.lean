import Mathlib.Data.List.Basic
import Mathlib.Order.Basic

/-!
# Programs that check whether to stop

A program emits events and checks between them whether it has to stop, which stays so once it is. It
is given the number of checks that still find it may go on, and gives back what it has emitted and
how many of these checks are left. `Runs f k l` says that left alone the program `f` emits `l` in
`k` checks, and that a stop only cuts off the end.
-/

namespace AdPipeline.Lib

variable {α : Type*}

/-- Left alone the program emits `l` in `k` checks, and stopped earlier a beginning of `l`. -/
structure Runs (f : ℕ → List α × ℕ) (k : ℕ) (l : List α) : Prop where
  complete : ∀ n, k ≤ n → f n = (l, n - k)
  stopped : ∀ n < k, (f n).1 <+: l ∧ (f n).2 = 0

namespace Runs

variable {f g : ℕ → List α × ℕ} {k k' : ℕ} {l l' : List α}

/-- A program that does not check. -/
theorem pure (l : List α) : Runs (fun n => (l, n)) 0 l :=
  ⟨fun _ _ => rfl, fun _ hn => absurd hn (Nat.not_lt_zero _)⟩

/-- A check, and then a program. -/
theorem check (h : Runs f k l) (h0 : g 0 = ([], 0)) (hg : ∀ n, g (n + 1) = f n) :
    Runs g (k + 1) l where
  complete n hn := by
    obtain ⟨m, rfl⟩ := Nat.exists_eq_add_of_lt (Nat.lt_of_lt_of_le (Nat.succ_pos k) hn)
    rw [Nat.zero_add, hg, h.complete m (by omega), Nat.add_sub_add_right]
  stopped n hn := by
    cases n with
    | zero =>
        rw [h0]
        exact ⟨List.nil_prefix, rfl⟩
    | succ n =>
        rw [hg]
        exact h.stopped n (by omega)

/-- Events, and then a program. -/
theorem emit (h : Runs f k l) (events : List α) :
    Runs (fun n => (events ++ (f n).1, (f n).2)) k (events ++ l) where
  complete n hn := by rw [h.complete n hn]
  stopped n hn :=
    ⟨(List.prefix_append_right_inj events).2 (h.stopped n hn).1, (h.stopped n hn).2⟩

/-- One program after the other. The second one checks before it emits anything. -/
theorem andThen (h : Runs f k l) (h' : Runs g k' l') (hg : g 0 = ([], 0)) :
    Runs (fun n => ((f n).1 ++ (g (f n).2).1, (g (f n).2).2)) (k + k') (l ++ l') where
  complete n hn := by
    rw [h.complete n (by omega), h'.complete (n - k) (by omega), Nat.sub_sub]
  stopped n hn := by
    dsimp only
    rcases Nat.lt_or_ge n k with hlt | hge
    · obtain ⟨hpre, hzero⟩ := h.stopped n hlt
      rw [hzero, hg, List.append_nil]
      exact ⟨hpre.trans (List.prefix_append l l'), rfl⟩
    · rw [h.complete n hge]
      obtain ⟨hpre, hzero⟩ := h'.stopped (n - k) (by omega)
      exact ⟨(List.prefix_append_right_inj l).2 hpre, hzero⟩

end Runs

end AdPipeline.Lib
