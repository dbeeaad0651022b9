import AdPipeline.Lib.Grouping

/-!
# Tables with a key

Three ways a table is kept by key. `groupBy` computes it from rows, one row for each key that
occurs. `adjust` is the keyed state of a streaming aggregate, where a record changes the accumulator
of its key. `upsert` writes a row over the row with the same key.
-/

namespace AdPipeline.Lib

variable {ρ κ α : Type*} [DecidableEq κ]

/-! ## Aggregates computed from rows -/

/-- `groupBy(key).agg(..)`: the aggregate of each key's rows. -/
def groupBy (key : ρ → κ) (agg : List ρ → α) (rows : List ρ) : List (κ × α) :=
  (rows.map key).dedup.map fun k => (k, agg (rows.filter fun r => key r = k))

/-- The value of a key: that of its first entry. -/
def entry (k : κ) : List (κ × α) → Option α
  | [] => none
  | x :: t => if x.1 = k then some x.2 else entry k t

/-- Looking a key up by a search of the list. -/
theorem entry_eq_find? (k : κ) (t : List (κ × α)) :
    entry k t = (t.find? fun x => x.1 = k).map Prod.snd := by
  induction t with
  | nil => rfl
  | cons x t ih =>
      rw [entry]
      split_ifs with hx
      · rw [List.find?_cons_of_pos (by simpa using hx)]
        rfl
      · rw [List.find?_cons_of_neg (by simpa using hx), ih]

/-- Looking a key up in a table built from a list of keys. -/
theorem entry_map_self (f : κ → α) (ks : List κ) (k : κ) :
    entry k (ks.map fun k' => (k', f k')) = if k ∈ ks then some (f k) else none := by
  induction ks with
  | nil => rfl
  | cons k' ks ih =>
      rw [List.map_cons, entry, ih]
      by_cases h : k' = k
      · subst h
        simp
      · simp [h, Ne.symm h]

theorem entry_map {β : Type*} (f : α → β) (k : κ) (t : List (κ × α)) :
    entry k (t.map fun x => (x.1, f x.2)) = (entry k t).map f := by
  induction t with
  | nil => rfl
  | cons x t ih =>
      rw [List.map_cons, entry, ih, entry]
      split_ifs <;> rfl

/-- A dictionary collected from an aggregate: a key that does not occur has no entry. -/
theorem entry_groupBy (key : ρ → κ) (agg : List ρ → α) (rows : List ρ) (k : κ) :
    entry k (groupBy key agg rows) =
      if k ∈ rows.map key then some (agg (rows.filter fun r => key r = k)) else none := by
  rw [groupBy, entry_map_self (fun k => agg (rows.filter fun r => key r = k))]
  simp only [List.mem_dedup]

/-- With a default that is the aggregate of no rows, an entry that is missing makes no
difference. -/
theorem entry_groupBy_getD (key : ρ → κ) (agg : List ρ → α) (rows : List ρ) (k : κ) :
    (entry k (groupBy key agg rows)).getD (agg []) = agg (rows.filter fun r => key r = k) := by
  rw [entry_groupBy]
  split_ifs with h
  · rfl
  · rw [List.filter_eq_nil_iff.2 fun r hr hk => h (List.mem_map.2 ⟨r, hr, by simpa using hk⟩)]
    rfl

/-- A count looked up, a key that does not occur as zero. -/
theorem entry_countBy_getD (key : ρ → κ) (rows : List ρ) (k : κ) :
    (entry k (countBy key rows)).getD 0 = rows.countP fun r => key r = k := by
  rw [countBy_eq, entry_map_self (fun k => rows.countP fun r => decide (key r = k))]
  split_ifs with hmem
  · rfl
  · rw [eq_comm, Option.getD_none, List.countP_eq_zero]
    intro r hr hk
    exact hmem (List.mem_dedup.2 (List.mem_map.2 ⟨r, hr, of_decide_eq_true hk⟩))

/-- A key that occurs at most once is looked up as a total. -/
theorem entry_eq_sumWhere (f : α → ℕ) {t : List (κ × α)} {k : κ}
    (h : t.countP (fun x => decide (x.1 = k)) ≤ 1) :
    ((entry k t).map f).getD 0 = sumWhere (fun k' => k' = k) f t := by
  induction t with
  | nil => rfl
  | cons x t ih =>
      rw [List.countP_cons] at h
      rw [entry, sumWhere_cons]
      by_cases hx : x.1 = k
      · -- the rest of the table does not have the key
        rw [if_pos (by simpa using hx)] at h
        have hrest : sumWhere (fun k' => decide (k' = k)) f t = 0 := by
          refine sumWhere_zero fun y hy hyk => ?_
          have hpos : 0 < t.countP fun x => decide (x.1 = k) :=
            List.countP_pos_iff.2 ⟨y, hy, hyk⟩
          omega
        simp [hx, hrest]
      · rw [if_neg (by simpa using hx)] at h
        simp [hx, ih h]

theorem mem_of_entry {k : κ} {v : α} {t : List (κ × α)} (h : entry k t = some v) : (k, v) ∈ t := by
  induction t with
  | nil => cases h
  | cons x t ih =>
      rw [entry] at h
      split_ifs at h with hx
      · obtain rfl := Option.some.inj h
        rw [← hx]
        exact List.mem_cons_self
      · exact List.mem_cons_of_mem x (ih h)

theorem entry_eq_none_iff {k : κ} {t : List (κ × α)} :
    entry k t = none ↔ k ∉ t.map Prod.fst := by
  induction t with
  | nil => simp [entry]
  | cons x t ih =>
      rw [entry, List.map_cons, List.mem_cons, not_or]
      split_ifs with hx
      · simp [hx]
      · rw [ih]
        exact (and_iff_right (Ne.symm hx)).symm

/-- A key that occurs once is looked up as the row that has it. -/
theorem entry_of_mem {t : List (κ × α)} (h : (t.map Prod.fst).Nodup) {x : κ × α} (hx : x ∈ t) :
    entry x.1 t = some x.2 := by
  induction t with
  | nil => cases hx
  | cons y t ih =>
      rw [List.map_cons, List.nodup_cons] at h
      rw [entry]
      rcases List.mem_cons.1 hx with rfl | hmem
      · rw [if_pos rfl]
      · rw [if_neg, ih h.2 hmem]
        intro hkey
        exact h.1 (hkey ▸ List.mem_map_of_mem hmem)

/-- In a table with each key once, a row's column is the total of its key. -/
theorem eq_sumWhere_of_mem (f : α → ℕ) {t : List (κ × α)} (h : (t.map Prod.fst).Nodup) {x : κ × α}
    (hx : x ∈ t) : f x.2 = sumWhere (fun k => k = x.1) f t := by
  have honce := List.nodup_iff_count_le_one.1 h x.1
  rw [List.count_eq_countP, List.countP_map] at honce
  rw [← entry_eq_sumWhere f honce, entry_of_mem h hx]
  rfl

omit [DecidableEq κ] in
/-- Two tables with the same keys, once each, have as many rows with properties that agree key by
key. -/
theorem countP_eq_of_keys {β : Type*} {f : ρ → κ} {g : β → κ} {xs : List ρ} {ys : List β}
    {p : ρ → Bool} {q : β → Bool} (hx : (xs.map f).Nodup) (hy : (ys.map g).Nodup)
    (hmem : ∀ k, k ∈ xs.map f ↔ k ∈ ys.map g)
    (hpq : ∀ x ∈ xs, ∀ y ∈ ys, f x = g y → p x = q y) : xs.countP p = ys.countP q := by
  have hperm : ((xs.filter p).map f).Perm ((ys.filter q).map g) := by
    refine (List.perm_ext_iff_of_nodup (hx.sublist (List.filter_sublist.map f))
      (hy.sublist (List.filter_sublist.map g))).2 fun k => ?_
    simp only [List.mem_map, List.mem_filter]
    constructor
    · rintro ⟨x, ⟨hxs, hpx⟩, rfl⟩
      obtain ⟨y, hys, hyx⟩ := List.mem_map.1 ((hmem (f x)).1 (List.mem_map_of_mem hxs))
      exact ⟨y, ⟨hys, (hpq x hxs y hys hyx.symm).symm.trans hpx⟩, hyx⟩
    · rintro ⟨y, ⟨hys, hqy⟩, rfl⟩
      obtain ⟨x, hxs, hxy⟩ := List.mem_map.1 ((hmem (g y)).2 (List.mem_map_of_mem hys))
      exact ⟨x, ⟨hxs, (hpq x hxs y hys hxy).trans hqy⟩, hxy⟩
  have hlength := hperm.length_eq
  rwa [List.length_map, List.length_map, ← List.countP_eq_length_filter,
    ← List.countP_eq_length_filter] at hlength

/-! ## Accumulators -/

/-- Changes the accumulator of a key, a missing one starting from `d`. -/
def adjust (d : α) (f : α → α) (k : κ) : List (κ × α) → List (κ × α)
  | [] => [(k, f d)]
  | x :: t => if x.1 = k then (x.1, f x.2) :: t else x :: adjust d f k t

variable {d : α} {f : α → α} {k : κ}

theorem mem_keys_adjust {k' : κ} {t : List (κ × α)} :
    k' ∈ (adjust d f k t).map Prod.fst ↔ k' = k ∨ k' ∈ t.map Prod.fst := by
  induction t with
  | nil => simp [adjust]
  | cons x t ih =>
      unfold adjust
      split_ifs with h
      · subst h
        simp
      · rw [List.map_cons, List.mem_cons, ih, List.map_cons, List.mem_cons]
        tauto

theorem nodup_keys_adjust {t : List (κ × α)} (h : (t.map Prod.fst).Nodup) :
    ((adjust d f k t).map Prod.fst).Nodup := by
  induction t with
  | nil => simp [adjust]
  | cons x t ih =>
      rw [List.map_cons, List.nodup_cons] at h
      unfold adjust
      split_ifs with hx
      · exact List.nodup_cons.2 h
      · rw [List.map_cons, List.nodup_cons, mem_keys_adjust]
        refine ⟨?_, ih h.2⟩
        rintro (hk | hmem)
        · exact hx hk
        · exact h.1 hmem

/-- A column that the change raises by `n`, and that starts from nothing, grows by `n` in the totals
that include the key. -/
theorem sumWhere_adjust {g : α → ℕ} {n : ℕ} (hd : g d = 0) (hf : ∀ a, g (f a) = g a + n)
    (p : κ → Bool) (t : List (κ × α)) :
    sumWhere p g (adjust d f k t) = sumWhere p g t + if p k then n else 0 := by
  induction t with
  | nil =>
      unfold adjust
      rw [sumWhere_cons, hf, hd]
      simp
  | cons x t ih =>
      unfold adjust
      split_ifs with hx hk hk
      all_goals
        rw [sumWhere_cons, sumWhere_cons]
        simp only [hx, hk, hf, ih, if_true, if_false, Bool.false_eq_true]
        try omega

/-! A row of another kind may name its key, what a missing accumulator starts from and how it
changes. The totals below are those of a whole list of rows. -/

section

variable {σ : Type*} {start : σ → α} {change : σ → α → α} {keyOf : σ → κ}

theorem nodup_keys_foldl_adjust (l : List σ) {t : List (κ × α)} (h : (t.map Prod.fst).Nodup) :
    ((l.foldl (fun t s => adjust (start s) (change s) (keyOf s) t) t).map Prod.fst).Nodup := by
  induction l generalizing t with
  | nil => exact h
  | cons s l ih => exact ih (nodup_keys_adjust h)

theorem mem_keys_foldl_adjust (l : List σ) {t : List (κ × α)} :
    k ∈ (l.foldl (fun t s => adjust (start s) (change s) (keyOf s) t) t).map Prod.fst ↔
      k ∈ t.map Prod.fst ∨ k ∈ l.map keyOf := by
  induction l generalizing t with
  | nil => simp
  | cons s l ih =>
      rw [List.foldl_cons, ih, mem_keys_adjust, List.map_cons, List.mem_cons]
      tauto

/-- A column that each row raises by its own amount grows by the amounts of the rows whose keys
are included. -/
theorem sumWhere_foldl_adjust {g : α → ℕ} {amount : σ → ℕ} (hstart : ∀ s, g (start s) = 0)
    (hchange : ∀ s a, g (change s a) = g a + amount s) (p : κ → Bool) (l : List σ)
    (t : List (κ × α)) :
    sumWhere p g (l.foldl (fun t s => adjust (start s) (change s) (keyOf s) t) t) =
      sumWhere p g t + ((l.filter fun s => p (keyOf s)).map amount).sum := by
  induction l generalizing t with
  | nil => rfl
  | cons s l ih =>
      rw [List.foldl_cons, ih, sumWhere_adjust (hstart s) (hchange s), List.filter_cons]
      split_ifs with hp
      · rw [List.map_cons, List.sum_cons, Nat.add_assoc]
      · rw [Nat.add_zero]

end

/-! ## Rows replaced by key -/

/-- Writes a row over the row with its key, or adds it. -/
def upsert (key : ρ → κ) (r : ρ) : List ρ → List ρ
  | [] => [r]
  | x :: t => if key x = key r then r :: t else x :: upsert key r t

variable {key : ρ → κ} {r : ρ}

theorem mem_keys_upsert {k' : κ} {t : List ρ} :
    k' ∈ (upsert key r t).map key ↔ k' = key r ∨ k' ∈ t.map key := by
  induction t with
  | nil => simp [upsert]
  | cons x t ih =>
      unfold upsert
      split_ifs with h
      · simp [h]
      · rw [List.map_cons, List.mem_cons, ih, List.map_cons, List.mem_cons]
        tauto

theorem nodup_keys_upsert {t : List ρ} (h : (t.map key).Nodup) :
    ((upsert key r t).map key).Nodup := by
  induction t with
  | nil => simp [upsert]
  | cons x t ih =>
      rw [List.map_cons, List.nodup_cons] at h
      unfold upsert
      split_ifs with hx
      · rw [List.map_cons, List.nodup_cons, ← hx]
        exact h
      · rw [List.map_cons, List.nodup_cons, mem_keys_upsert]
        refine ⟨?_, ih h.2⟩
        rintro (hk | hmem)
        · exact hx hk
        · exact h.1 hmem

/-- A row with a new key is added. -/
theorem upsert_of_notMem {t : List ρ} (h : key r ∉ t.map key) : upsert key r t = t ++ [r] := by
  induction t with
  | nil => rfl
  | cons x t ih =>
      rw [List.map_cons, List.mem_cons, not_or] at h
      unfold upsert
      rw [if_neg (Ne.symm h.1), ih h.2, List.cons_append]

/-- With each key once, a row is written over or stays. -/
theorem mem_upsert {t : List ρ} (h : (t.map key).Nodup) {x : ρ} :
    x ∈ upsert key r t ↔ x = r ∨ (x ∈ t ∧ key x ≠ key r) := by
  induction t with
  | nil => simp [upsert]
  | cons y t ih =>
      rw [List.map_cons, List.nodup_cons] at h
      unfold upsert
      split_ifs with hy
      · -- no other row has the key
        have hother : ∀ x ∈ t, key x ≠ key r := by
          rintro x hx heq
          exact h.1 (List.mem_map.2 ⟨x, hx, heq.trans hy.symm⟩)
        rw [List.mem_cons, List.mem_cons]
        constructor
        · exact Or.imp_right fun hx => ⟨.inr hx, hother x hx⟩
        · rintro (rfl | ⟨rfl | hx, hne⟩)
          · exact .inl rfl
          · exact absurd hy hne
          · exact .inr hx
      · rw [List.mem_cons, ih h.2, List.mem_cons]
        constructor
        · rintro (rfl | rfl | ⟨hx, hne⟩)
          · exact .inr ⟨.inl rfl, hy⟩
          · exact .inl rfl
          · exact .inr ⟨.inr hx, hne⟩
        · rintro (rfl | ⟨rfl | hx, hne⟩)
          · exact .inr (.inl rfl)
          · exact .inl rfl
          · exact .inr (.inr ⟨hx, hne⟩)

theorem entry_upsert (k k' : κ) (v : α) (t : List (κ × α)) :
    entry k' (upsert Prod.fst (k, v) t) = if k = k' then some v else entry k' t := by
  induction t with
  | nil => rfl
  | cons x t ih =>
      unfold upsert
      split_ifs with hx hk hk
      · rw [entry, if_pos hk]
      · rw [entry, if_neg hk, entry, if_neg (hx ▸ hk)]
      · rw [entry, ih, if_pos hk, if_neg fun hxk => hx (hxk.trans hk.symm)]
      · rw [entry, ih, if_neg hk, entry]

end AdPipeline.Lib
