import Mathlib.Algebra.BigOperators.Group.List.Lemmas
import Mathlib.Algebra.Ring.Nat
import Mathlib.Data.List.Dedup

/-!
# Grouping, row numbers and totals over tables

A table is a list of rows, its order standing for the order in which a query engine happens to see
them. `countBy` is `GROUP BY key` with `COUNT(*)`, `rowNumberOne` keeps the rows that
`ROW_NUMBER() OVER (PARTITION BY key ORDER BY ..)` numbers 1, and `sumWhere` is the total of a
column over the rows whose key satisfies a predicate.
-/

namespace AdPipeline.Lib

variable {ρ κ α β : Type*}

/-! ## The first row in a window order -/

/-- The first row in the window order: no row comes strictly before it. Of rows tied in the order
it is the one seen first. -/
def firstBy (lt : ρ → ρ → Bool) : List ρ → Option ρ
  | [] => none
  | r :: rs =>
    match firstBy lt rs with
    | none => some r
    | some m => if lt m r then some m else some r

theorem mem_of_firstBy {lt : ρ → ρ → Bool} {rows : List ρ} {r : ρ}
    (h : firstBy lt rows = some r) : r ∈ rows := by
  induction rows with
  | nil => simp [firstBy] at h
  | cons x rows ih =>
      simp only [firstBy] at h
      split at h
      · obtain rfl : x = r := by simpa using h
        exact List.mem_cons_self
      · rename_i m hm
        split at h
        · obtain rfl : m = r := by simpa using h
          exact List.mem_cons_of_mem _ (ih hm)
        · obtain rfl : x = r := by simpa using h
          exact List.mem_cons_self

theorem exists_firstBy (lt : ρ → ρ → Bool) {rows : List ρ} (h : rows ≠ []) :
    ∃ r, firstBy lt rows = some r := by
  cases rows with
  | nil => exact absurd rfl h
  | cons x rows =>
      simp only [firstBy]
      split
      · exact ⟨x, rfl⟩
      · split <;> exact ⟨_, rfl⟩

/-! ## One row for each key -/

section RowNumber

variable [DecidableEq κ]

/-- The rows with `row_number() over (partition by key order by lt) = 1`. -/
def rowNumberOne (key : ρ → κ) (lt : ρ → ρ → Bool) (rows : List ρ) : List ρ :=
  (rows.map key).dedup.filterMap fun k => firstBy lt (rows.filter fun r => key r = k)

variable {key : ρ → κ} {lt : ρ → ρ → Bool} {rows : List ρ}

theorem mem_of_mem_rowNumberOne {r : ρ} (h : r ∈ rowNumberOne key lt rows) : r ∈ rows := by
  obtain ⟨k, -, hk⟩ := List.mem_filterMap.1 h
  exact (List.mem_filter.1 (mem_of_firstBy hk)).1

/-- Every key that occurs is kept exactly once. -/
theorem map_key_rowNumberOne (key : ρ → κ) (lt : ρ → ρ → Bool) (rows : List ρ) :
    (rowNumberOne key lt rows).map key = (rows.map key).dedup := by
  have hkey : ∀ k ∈ (rows.map key).dedup,
      (firstBy lt (rows.filter fun r => key r = k)).map key = some k := by
    intro k hk
    obtain ⟨r, hr, hrk⟩ := List.mem_map.1 (List.mem_dedup.1 hk)
    have hne : rows.filter (fun r => key r = k) ≠ [] := by
      refine List.ne_nil_of_mem (a := r) (List.mem_filter.2 ⟨hr, ?_⟩)
      simpa using hrk
    obtain ⟨m, hm⟩ := exists_firstBy lt hne
    have hmk : key m = k := by simpa using (List.mem_filter.1 (mem_of_firstBy hm)).2
    rw [hm, Option.map_some, hmk]
  rw [rowNumberOne, List.map_filterMap]
  rw [List.filterMap_congr (g := some) hkey, List.filterMap_some]

theorem nodup_key_rowNumberOne (key : ρ → κ) (lt : ρ → ρ → Bool) (rows : List ρ) :
    ((rowNumberOne key lt rows).map key).Nodup := by
  rw [map_key_rowNumberOne]
  exact List.nodup_dedup _

/-- Every row has a kept row with its key. -/
theorem exists_mem_rowNumberOne (key : ρ → κ) (lt : ρ → ρ → Bool) {r : ρ} (h : r ∈ rows) :
    ∃ m ∈ rowNumberOne key lt rows, key m = key r := by
  have hk : key r ∈ (rowNumberOne key lt rows).map key := by
    rw [map_key_rowNumberOne, List.mem_dedup]
    exact List.mem_map_of_mem h
  obtain ⟨m, hm, hmk⟩ := List.mem_map.1 hk
  exact ⟨m, hm, hmk⟩

/-- A row is kept when it is the first one of its key. -/
theorem firstBy_of_mem_rowNumberOne {m : ρ} (h : m ∈ rowNumberOne key lt rows) :
    firstBy lt (rows.filter fun r => key r = key m) = some m := by
  obtain ⟨k, -, hk⟩ := List.mem_filterMap.1 h
  obtain rfl := of_decide_eq_true (List.mem_filter.1 (mem_of_firstBy hk)).2
  exact hk

/-- In a list that has each key once, a row is the only one of its key. -/
theorem filter_key_eq_singleton {l : List ρ} (h : (l.map key).Nodup) {m : ρ} (hm : m ∈ l) :
    (l.filter fun r => key r = key m) = [m] := by
  induction l with
  | nil => cases hm
  | cons x l ih =>
      rw [List.map_cons, List.nodup_cons] at h
      rcases List.mem_cons.1 hm with rfl | hml
      · rw [List.filter_cons_of_pos (by simp), List.filter_eq_nil_iff.2]
        intro r hr hkey
        exact h.1 (of_decide_eq_true hkey ▸ List.mem_map_of_mem hr)
      · rw [List.filter_cons_of_neg, ih h.2 hml]
        intro hkey
        exact h.1 (of_decide_eq_true hkey ▸ List.mem_map_of_mem hml)

end RowNumber

/-! ## Totals of a column -/

/-- The sum of a column over the rows whose key satisfies `p`. -/
def sumWhere (p : κ → Bool) (f : α → ℕ) (t : List (κ × α)) : ℕ :=
  ((t.filter fun x => p x.1).map fun x => f x.2).sum

@[simp] theorem sumWhere_nil (p : κ → Bool) (f : α → ℕ) : sumWhere p f [] = 0 := rfl

theorem sumWhere_cons (p : κ → Bool) (f : α → ℕ) (x : κ × α) (t : List (κ × α)) :
    sumWhere p f (x :: t) = (if p x.1 then f x.2 else 0) + sumWhere p f t := by
  by_cases h : p x.1 = true <;> simp [sumWhere, h]

@[simp] theorem sumWhere_append (p : κ → Bool) (f : α → ℕ) (s t : List (κ × α)) :
    sumWhere p f (s ++ t) = sumWhere p f s + sumWhere p f t := by
  simp [sumWhere]

theorem sumWhere_zero {p : κ → Bool} {f : α → ℕ} {t : List (κ × α)}
    (h : ∀ x ∈ t, p x.1 = true → f x.2 = 0) : sumWhere p f t = 0 := by
  induction t with
  | nil => rfl
  | cons x t ih =>
      rw [sumWhere_cons, ih fun y hy => h y (List.mem_cons_of_mem _ hy)]
      by_cases hp : p x.1 = true
      · rw [if_pos hp, h x List.mem_cons_self hp]
      · rw [if_neg hp]

theorem sumWhere_congr {p q : κ → Bool} {f g : α → ℕ} {t : List (κ × α)}
    (hp : ∀ x ∈ t, p x.1 = q x.1) (hf : ∀ x ∈ t, f x.2 = g x.2) :
    sumWhere p f t = sumWhere q g t := by
  induction t with
  | nil => rfl
  | cons x t ih =>
      rw [sumWhere_cons, sumWhere_cons, hp x List.mem_cons_self, hf x List.mem_cons_self,
        ih (fun y hy => hp y (List.mem_cons_of_mem _ hy))
          (fun y hy => hf y (List.mem_cons_of_mem _ hy))]

/-- The total over the keys of either of two disjoint predicates. -/
theorem sumWhere_or {p q : κ → Bool} (f : α → ℕ) {t : List (κ × α)}
    (h : ∀ x ∈ t, ¬ (p x.1 = true ∧ q x.1 = true)) :
    sumWhere (fun k => p k || q k) f t = sumWhere p f t + sumWhere q f t := by
  induction t with
  | nil => rfl
  | cons x t ih =>
      rw [sumWhere_cons, sumWhere_cons, sumWhere_cons,
        ih fun y hy => h y (List.mem_cons_of_mem _ hy)]
      have hx := h x List.mem_cons_self
      by_cases hp : p x.1 = true <;> by_cases hq : q x.1 = true <;> simp [hp, hq] at hx ⊢ <;> omega

/-- The total over a table split by any test on its rows. -/
theorem sumWhere_filter_add_filter_not (p : κ → Bool) (f : α → ℕ) (q : κ × α → Bool)
    (t : List (κ × α)) :
    sumWhere p f (t.filter q) + sumWhere p f (t.filter fun x => !q x) = sumWhere p f t := by
  induction t with
  | nil => rfl
  | cons x t ih =>
      rw [sumWhere_cons, ← ih]
      by_cases hq : q x = true
      · rw [List.filter_cons_of_pos hq, List.filter_cons_of_neg (by simp [hq]), sumWhere_cons]
        omega
      · rw [List.filter_cons_of_neg hq, List.filter_cons_of_pos (by simpa using hq), sumWhere_cons]
        omega

/-- A table mapped row by row, keys kept, with a column that carries over. -/
theorem sumWhere_map_of {p : κ → Bool} {f : β → ℕ} (g : κ × α → β) (c : α → ℕ)
    (h : ∀ x, f (g x) = c x.2) (t : List (κ × α)) :
    sumWhere p f (t.map fun x => (x.1, g x)) = sumWhere p c t := by
  induction t with
  | nil => rfl
  | cons x t ih => rw [List.map_cons, sumWhere_cons, sumWhere_cons, h, ih]

theorem sumWhere_map (p : κ → Bool) (f : β → ℕ) (g : α → β) (t : List (κ × α)) :
    sumWhere p f (t.map fun x => (x.1, g x.2)) = sumWhere p (fun a => f (g a)) t :=
  sumWhere_map_of (fun x => g x.2) _ (fun _ => rfl) t

/-! ## Counting groups -/

section CountBy

variable [DecidableEq κ]

/-- `groupBy(key).agg(count("*"))`: one row for each key that occurs, with the number of its
rows. -/
def countBy (key : ρ → κ) (rows : List ρ) : List (κ × ℕ) :=
  (rows.map key).dedup.map fun k => (k, (rows.map key).count k)

theorem keys_countBy (key : ρ → κ) (rows : List ρ) :
    (countBy key rows).map Prod.fst = (rows.map key).dedup := by
  simp [countBy, Function.comp_def]

theorem countBy_eq (key : ρ → κ) (rows : List ρ) :
    countBy key rows = (rows.map key).dedup.map fun k => (k, rows.countP fun r => key r = k) := by
  rw [countBy]
  apply List.map_congr_left
  intro k _
  rw [List.count_eq_countP, List.countP_map]
  rfl

/-- The total of the counts over a set of keys is the number of rows with a key in the set. -/
theorem sumWhere_countBy (p : κ → Bool) (key : ρ → κ) (rows : List ρ) :
    sumWhere p id (countBy key rows) = rows.countP fun r => p (key r) := by
  have h := List.sum_map_count_dedup_filter_eq_countP p (rows.map key)
  rw [List.countP_map] at h
  rw [sumWhere, countBy, List.filter_map, List.map_map]
  exact h

end CountBy

end AdPipeline.Lib
