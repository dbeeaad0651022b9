import Mathlib.Algebra.BigOperators.Group.Finset.Piecewise
import Mathlib.Algebra.Order.BigOperators.Group.Finset
import Mathlib.Data.List.Basic

/-!
# Precedence in traces

`Leads q p l` says that at any point of the trace `l` there have been at least as many events of
kind `q` as of kind `p`: no event of kind `p` comes before the one of kind `q` that it needs. Traces
with this property can be put one after another, and any number of them can be interleaved
(`Leads.interleave`).
-/

namespace AdPipeline.Lib

variable {α β ι : Type*} {p q r : α → Bool} {l l' : List α}

/-- Every prefix has at least as many `q` as `p`. -/
def Leads (q p : α → Bool) (l : List α) : Prop := ∀ t, t <+: l → t.countP p ≤ t.countP q

instance (q p : α → Bool) (l : List α) : Decidable (Leads q p l) :=
  decidable_of_iff (∀ t ∈ l.inits, t.countP p ≤ t.countP q)
    (forall_congr' fun t => by rw [List.mem_inits])

namespace Leads

theorem countP_le (h : Leads q p l) : l.countP p ≤ l.countP q := h l (List.prefix_refl l)

theorem of_isPrefix (h : Leads q p l) (hl : l' <+: l) : Leads q p l' :=
  fun t ht => h t (ht.trans hl)

theorem trans (h : Leads r q l) (h' : Leads q p l) : Leads r p l :=
  fun t ht => le_trans (h' t ht) (h t ht)

theorem nil : Leads q p [] := by
  intro t ht
  rw [List.prefix_nil.1 ht]
  exact le_refl 0

/-- A trace without `p`. -/
theorem of_none (h : ∀ x ∈ l, p x = false) : Leads q p l := by
  intro t ht
  have hzero : t.countP p = 0 := by
    rw [List.countP_eq_zero]
    intro x hx hp
    rw [h x (ht.subset hx)] at hp
    cases hp
  rw [hzero]
  exact Nat.zero_le _

/-- One trace after the other. -/
theorem append (h : Leads q p l) (h' : Leads q p l') : Leads q p (l ++ l') := by
  intro t ht
  rcases List.prefix_or_prefix_of_prefix ht (List.prefix_append l l') with hleft | ⟨s, rfl⟩
  · exact h t hleft
  · rw [List.countP_append, List.countP_append]
    exact Nat.add_le_add h.countP_le (h' s ((List.prefix_append_right_inj l).1 ht))

/-- The event that leads, and then a trace with at most one that needs it. -/
theorem cons_of_le_one {x : α} (hq : q x = true) (hp : p x = false) (hl : l.countP p ≤ 1) :
    Leads q p (x :: l) := by
  intro t ht
  rcases List.prefix_cons_iff.1 ht with rfl | ⟨s, rfl, hs⟩
  · exact le_refl 0
  · rw [List.countP_cons_of_neg (by simp [hp]), List.countP_cons_of_pos hq]
    exact (hs.sublist.countP_le).trans (hl.trans (Nat.le_add_left 1 _))

/-- Events that are made from others. -/
theorem map {f : β → α} {l : List β} (h : Leads (fun x => q (f x)) (fun x => p (f x)) l) :
    Leads q p (l.map f) := by
  intro t ht
  obtain ⟨s, hs, rfl⟩ : ∃ s, s <+: l ∧ t = s.map f := by
    refine ⟨l.take t.length, List.take_prefix _ _, ?_⟩
    rw [List.map_take]
    exact List.prefix_iff_eq_take.1 ht
  rw [List.countP_map, List.countP_map]
  exact h s hs

end Leads

/-! ## Interleavings -/

/-- The events of a party in a trace of several. -/
def projection [DecidableEq ι] (i : ι) (t : List (ι × α)) : List α :=
  (t.filter fun x => x.1 = i).map Prod.snd

section

variable [DecidableEq ι]

theorem projection_isPrefix {s t : List (ι × α)} (h : s <+: t) (i : ι) :
    projection i s <+: projection i t :=
  (h.filter _).map Prod.snd

/-- An event is one of its party's. -/
theorem countP_eq_sum_projection [Fintype ι] (p : α → Bool) (t : List (ι × α)) :
    t.countP (fun x => p x.2) = ∑ i, (projection i t).countP p := by
  induction t with
  | nil => simp [projection]
  | cons x t ih =>
      have hcons : ∀ i, (projection i (x :: t)).countP p =
          (if x.1 = i then (if p x.2 = true then 1 else 0) else 0) +
            (projection i t).countP p := by
        intro i
        unfold projection
        by_cases hi : x.1 = i
        · rw [List.filter_cons_of_pos (by simpa using hi), List.map_cons, List.countP_cons,
            if_pos hi, Nat.add_comm]
        · rw [List.filter_cons_of_neg (by simpa using hi), if_neg hi, Nat.zero_add]
      simp only [hcons, Finset.sum_add_distrib, Finset.sum_ite_eq, Finset.mem_univ, if_true]
      rw [List.countP_cons, ih, Nat.add_comm]

/-- Whatever holds of the trace of each party holds of any interleaving of them. -/
theorem Leads.interleave [Fintype ι] {t : List (ι × α)} (h : ∀ i, Leads q p (projection i t)) :
    Leads (fun x => q x.2) (fun x => p x.2) t := by
  intro s hs
  rw [countP_eq_sum_projection, countP_eq_sum_projection]
  exact Finset.sum_le_sum fun i _ => h i _ (projection_isPrefix hs i)

end

end AdPipeline.Lib
