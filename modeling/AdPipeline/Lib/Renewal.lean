import Mathlib.Data.List.Basic
import Mathlib.Order.Basic
import Mathlib.Algebra.Order.Group.Int

/-!
# Keys that every write renews

A key with a time to live that each write sets anew is there until nothing has been written for that
long. `sinceSilence` is what was written since the last such silence. Where every write was recent
and the clock never went back, that is everything (`sinceSilence_eq`).
-/

namespace AdPipeline.Lib

variable {α : Type*} {ttl now : ℤ}

/-- What was written, newest first and each with its time, back to the first silence of `ttl`. -/
def sinceSilence (ttl : ℤ) : ℤ → List (ℤ × α) → List α
  | _, [] => []
  | now, x :: l => if now < x.1 + ttl then x.2 :: sinceSilence ttl x.1 l else []

@[simp] theorem sinceSilence_nil : sinceSilence ttl now ([] : List (ℤ × α)) = [] := rfl

theorem sinceSilence_cons (x : ℤ × α) (l : List (ℤ × α)) :
    sinceSilence ttl now (x :: l) =
      if now < x.1 + ttl then x.2 :: sinceSilence ttl x.1 l else [] := rfl

/-- Without a silence it is everything. -/
theorem sinceSilence_eq {l : List (ℤ × α)} (hclock : l.Pairwise fun x y => y.1 ≤ x.1)
    (hpast : ∀ x ∈ l, x.1 ≤ now) (hrecent : ∀ x ∈ l, now < x.1 + ttl) :
    sinceSilence ttl now l = l.map Prod.snd := by
  induction l generalizing now with
  | nil => rfl
  | cons x l ih =>
      obtain ⟨hx, hl⟩ := List.pairwise_cons.1 hclock
      rw [sinceSilence_cons, if_pos (hrecent x List.mem_cons_self), List.map_cons, ih hl hx]
      intro y hy
      have hnow := hpast x List.mem_cons_self
      have hlive := hrecent y (List.mem_cons_of_mem x hy)
      omega

end AdPipeline.Lib
