import AdPipeline.Lib.Keyed

/-!
# Outer joins of keyed tables

Equality of join keys is SQL's: a key with a null component equals no key, not even itself. The
predicate `nn` says which keys are free of nulls. Joins use the `USING` form, where the joined row
carries the key once, and `merge` builds its columns.

The results are about totals. A column taken from one side keeps its total through the join when
the other side has each key at most once (`sumWhere_leftJoin_left`, `sumWhere_fullOuter_left`,
`sumWhere_fullOuter_right`), and joining such tables gives such a table again
(`KeyUnique.fullOuter`), so chains of joins keep every column's total. A left join with such a table
looks each left row's key up in it (`leftJoin_eq_map`).
-/

namespace AdPipeline.Lib

variable {κ α β γ : Type*} [DecidableEq κ] (nn : κ → Bool)

/-- SQL's `=` on join keys. -/
def sameKey (k k' : κ) : Bool := nn k && decide (k' = k)

/-- Every key without nulls occurs at most once. -/
def KeyUnique (t : List (κ × α)) : Prop :=
  ∀ k, nn k = true → t.countP (fun x => decide (x.1 = k)) ≤ 1

/-- The rows a left row with key `k` is joined into. -/
def leftRows (merge : α → Option β → γ) (r : List (κ × β)) (x : κ × α) : List (κ × γ) :=
  match r.filter fun y => sameKey nn x.1 y.1 with
  | [] => [(x.1, merge x.2 none)]
  | ms => ms.map fun y => (x.1, merge x.2 (some y.2))

/-- `left` join: every left row, with its matches or with nulls. -/
def leftJoin (merge : α → Option β → γ) (l : List (κ × α)) (r : List (κ × β)) : List (κ × γ) :=
  l.flatMap (leftRows nn merge r)

/-- The right rows no left row matches. -/
def unmatched (l : List (κ × α)) (r : List (κ × β)) : List (κ × β) :=
  r.filter fun y => !(nn y.1 && decide (y.1 ∈ l.map Prod.fst))

/-- `full_outer` join: a left join, and the unmatched right rows with nulls on the left. -/
def fullOuter (merge : Option α → Option β → γ) (l : List (κ × α)) (r : List (κ × β)) :
    List (κ × γ) :=
  leftJoin nn (fun a b => merge (some a) b) l r ++
    (unmatched nn l r).map fun y => (y.1, merge none (some y.2))

variable {nn}

theorem KeyUnique.tail {x : κ × α} {t : List (κ × α)} (h : KeyUnique nn (x :: t)) :
    KeyUnique nn t := by
  intro k hk
  exact le_trans (by simp [List.countP_cons]) (h k hk)

theorem KeyUnique.notMem_tail {x : κ × α} {t : List (κ × α)} (h : KeyUnique nn (x :: t))
    (hx : nn x.1 = true) : x.1 ∉ t.map Prod.fst := by
  intro hmem
  obtain ⟨y, hy, hyx⟩ := List.mem_map.1 hmem
  have hpos : 0 < t.countP fun z => decide (z.1 = x.1) :=
    List.countP_pos_iff.2 ⟨y, hy, by simp [hyx]⟩
  have hle := h x.1 hx
  rw [List.countP_cons, if_pos (by simp)] at hle
  omega

/-- Changing the columns keeps the keys unique. -/
theorem KeyUnique.map {t : List (κ × α)} (h : KeyUnique nn t) (g : α → β) :
    KeyUnique nn (t.map fun x => (x.1, g x.2)) := by
  intro k hk
  rw [List.countP_map]
  exact h k hk

/-- Grouping gives each key once. -/
theorem KeyUnique.countBy {ρ : Type*} (key : ρ → κ) (rows : List ρ) :
    KeyUnique nn (countBy key rows) := by
  intro k _
  have hnd : ((Lib.countBy key rows).map Prod.fst).Nodup := by
    rw [keys_countBy]
    exact List.nodup_dedup _
  have := List.nodup_iff_count_le_one.1 hnd k
  rw [List.count_eq_countP, List.countP_map] at this
  refine le_trans (le_of_eq (List.countP_congr fun x _ => ?_)) this
  simp

/-- A table without nulls in its keys has each of them once. -/
theorem KeyUnique.nodup {t : List (κ × α)} (h : KeyUnique nn t) (hnn : ∀ x ∈ t, nn x.1 = true) :
    (t.map Prod.fst).Nodup := by
  rw [List.nodup_iff_count_le_one]
  intro k
  by_cases hk : k ∈ t.map Prod.fst
  · obtain ⟨x, hx, rfl⟩ := List.mem_map.1 hk
    rw [List.count_eq_countP, List.countP_map]
    exact h x.1 (hnn x hx)
  · rw [List.count_eq_zero_of_not_mem hk]
    exact Nat.zero_le 1

theorem countP_eq_sumWhere (k : κ) (t : List (κ × α)) :
    t.countP (fun x => decide (x.1 = k)) = sumWhere (fun k' => decide (k' = k)) (fun _ => 1) t := by
  induction t with
  | nil => rfl
  | cons x t ih =>
      rw [sumWhere_cons, List.countP_cons, ih, Nat.add_comm]

/-! ## The left side's columns -/

/-- A left row's column is counted once when at most one right row matches. -/
theorem sumWhere_leftRows {merge : α → Option β → γ} {f : γ → ℕ} {g : α → ℕ}
    (hf : ∀ a b, f (merge a b) = g a) {r : List (κ × β)} (hr : KeyUnique nn r) (p : κ → Bool)
    (x : κ × α) : sumWhere p f (leftRows nn merge r x) = if p x.1 then g x.2 else 0 := by
  -- there is at most one match
  have hlen : (r.filter fun y => sameKey nn x.1 y.1).length ≤ 1 := by
    by_cases hx : nn x.1 = true
    · have hcount := hr x.1 hx
      rw [List.countP_eq_length_filter] at hcount
      simpa [sameKey, hx] using hcount
    · simp [sameKey, hx]
  rw [leftRows]
  generalize (r.filter fun y => sameKey nn x.1 y.1) = ms at hlen
  match ms, hlen with
  | [], _ => simp [sumWhere_cons, hf]
  | [y], _ => simp [sumWhere_cons, hf]

/-- A left join keeps the total of a left column when the right keys are unique. -/
theorem sumWhere_leftJoin_left {merge : α → Option β → γ} {f : γ → ℕ} {g : α → ℕ}
    (hf : ∀ a b, f (merge a b) = g a) {r : List (κ × β)} (hr : KeyUnique nn r) (p : κ → Bool)
    (l : List (κ × α)) : sumWhere p f (leftJoin nn merge l r) = sumWhere p g l := by
  induction l with
  | nil => rfl
  | cons x l ih =>
      rw [leftJoin, List.flatMap_cons, sumWhere_append, ← leftJoin, ih,
        sumWhere_leftRows hf hr, sumWhere_cons]

theorem keys_leftRows {merge : α → Option β → γ} {r : List (κ × β)} {x : κ × α} {y : κ × γ}
    (h : y ∈ leftRows nn merge r x) : y.1 = x.1 := by
  unfold leftRows at h
  split at h
  · rw [List.mem_singleton.1 h]
  · obtain ⟨z, -, rfl⟩ := List.mem_map.1 h
    rfl

theorem leftRows_ne_nil {merge : α → Option β → γ} {r : List (κ × β)} {x : κ × α} :
    leftRows nn merge r x ≠ [] := by
  unfold leftRows
  split
  · exact List.cons_ne_nil _ _
  · rename_i hms
    simpa using hms

/-- A left join has the keys of its left side. -/
theorem mem_keys_leftJoin {merge : α → Option β → γ} {l : List (κ × α)} {r : List (κ × β)} {k : κ} :
    k ∈ (leftJoin nn merge l r).map Prod.fst ↔ k ∈ l.map Prod.fst := by
  constructor
  · intro h
    obtain ⟨y, hy, rfl⟩ := List.mem_map.1 h
    obtain ⟨x, hx, hyx⟩ := List.mem_flatMap.1 hy
    rw [keys_leftRows hyx]
    exact List.mem_map_of_mem hx
  · intro h
    obtain ⟨x, hx, rfl⟩ := List.mem_map.1 h
    obtain ⟨y, hy⟩ := List.exists_mem_of_ne_nil (leftRows nn merge r x) leftRows_ne_nil
    rw [← keys_leftRows hy]
    exact List.mem_map_of_mem (List.mem_flatMap.2 ⟨x, hx, hy⟩)

/-- A left join of tables with unique keys has unique keys. -/
theorem KeyUnique.leftJoin {merge : α → Option β → γ} {l : List (κ × α)} {r : List (κ × β)}
    (hl : KeyUnique nn l) (hr : KeyUnique nn r) : KeyUnique nn (leftJoin nn merge l r) := by
  intro k hk
  rw [countP_eq_sumWhere,
    sumWhere_leftJoin_left (f := fun _ => 1) (g := fun _ => 1) (fun _ _ => rfl) hr,
    ← countP_eq_sumWhere]
  exact hl k hk

/-! ## Joins as lookups -/

theorem entry_eq_head? (k : κ) (t : List (κ × α)) :
    entry k t = (t.filter fun x => decide (x.1 = k)).head?.map Prod.snd := by
  induction t with
  | nil => rfl
  | cons x t ih =>
      rw [entry, ih]
      by_cases hx : x.1 = k <;> simp [hx]

/-- What a left row's key is joined with. -/
def matched (nn : κ → Bool) (r : List (κ × β)) (k : κ) : Option β :=
  if nn k then entry k r else none

/-- With unique keys on the right a left row gives one row. -/
theorem leftRows_eq_singleton {merge : α → Option β → γ} {r : List (κ × β)} (hr : KeyUnique nn r)
    (x : κ × α) : leftRows nn merge r x = [(x.1, merge x.2 (matched nn r x.1))] := by
  rw [leftRows, matched]
  by_cases hx : nn x.1 = true
  · have hcount := hr x.1 hx
    rw [List.countP_eq_length_filter] at hcount
    have hsame : (fun y : κ × β => sameKey nn x.1 y.1) = fun y => decide (y.1 = x.1) := by
      funext y
      rw [sameKey, hx, Bool.true_and]
    rw [if_pos hx, entry_eq_head?, hsame]
    generalize (r.filter fun y => decide (y.1 = x.1)) = ms at hcount
    match ms, hcount with
    | [], _ => rfl
    | [y], _ => rfl
  · have hnone : (r.filter fun y => sameKey nn x.1 y.1) = [] := by
      rw [List.filter_eq_nil_iff]
      intro y _ hy
      exact hx (Bool.and_eq_true_iff.1 hy).1
    rw [if_neg hx, hnone]

/-- With unique keys on the right a left join changes the columns of each left row. -/
theorem leftJoin_eq_map {merge : α → Option β → γ} {r : List (κ × β)} (hr : KeyUnique nn r)
    (l : List (κ × α)) :
    leftJoin nn merge l r = l.map fun x => (x.1, merge x.2 (matched nn r x.1)) := by
  rw [leftJoin, List.map_eq_flatMap]
  apply List.flatMap_congr
  intro x _
  exact leftRows_eq_singleton hr x

/-! ## The right side's columns -/

/-- A left row brings in the right columns of its matches. -/
theorem sumWhere_leftRows_right {merge : α → Option β → γ} {f : γ → ℕ} {g : β → ℕ}
    (hnone : ∀ a, f (merge a none) = 0) (hsome : ∀ a b, f (merge a (some b)) = g b)
    (r : List (κ × β)) (p : κ → Bool) (x : κ × α) :
    sumWhere p f (leftRows nn merge r x) = sumWhere (fun k => p k && sameKey nn x.1 k) g r := by
  have hrow : ∀ ms : List (κ × β), (∀ y ∈ ms, y.1 = x.1) →
      sumWhere p f (ms.map fun y => (x.1, merge x.2 (some y.2))) = sumWhere p g ms := by
    intro ms hms
    induction ms with
    | nil => rfl
    | cons y ms ih =>
        rw [List.map_cons, sumWhere_cons, sumWhere_cons, hsome,
          ih fun z hz => hms z (List.mem_cons_of_mem _ hz), hms y List.mem_cons_self]
  have hfilter : sumWhere (fun k => p k && sameKey nn x.1 k) g r =
      sumWhere p g (r.filter fun y => sameKey nn x.1 y.1) := by
    simp [sumWhere, List.filter_filter]
  rw [hfilter, leftRows]
  split
  · rename_i hms
    simp [hms, sumWhere_cons, hnone]
  · refine hrow _ fun y hy => ?_
    have hkey := (List.mem_filter.1 hy).2
    simp only [sameKey, Bool.and_eq_true, decide_eq_true_eq] at hkey
    exact hkey.2

/-- A left join brings in the right rows whose key occurs on the left, once each when the left keys
are unique. -/
theorem sumWhere_leftJoin_right {merge : α → Option β → γ} {f : γ → ℕ} {g : β → ℕ}
    (hnone : ∀ a, f (merge a none) = 0) (hsome : ∀ a b, f (merge a (some b)) = g b)
    {l : List (κ × α)} (hl : KeyUnique nn l) (r : List (κ × β)) (p : κ → Bool) :
    sumWhere p f (leftJoin nn merge l r) =
      sumWhere (fun k => p k && (nn k && decide (k ∈ l.map Prod.fst))) g r := by
  induction l with
  | nil =>
      rw [sumWhere_zero (t := r) (by simp)]
      rfl
  | cons x l ih =>
      rw [leftJoin, List.flatMap_cons, sumWhere_append, ← leftJoin, ih hl.tail,
        sumWhere_leftRows_right hnone hsome, ← sumWhere_or]
      · refine sumWhere_congr (fun y _ => ?_) fun _ _ => rfl
        rw [Bool.eq_iff_iff]
        simp only [sameKey, Bool.or_eq_true, Bool.and_eq_true, decide_eq_true_eq, List.map_cons,
          List.mem_cons]
        constructor
        · rintro (⟨hp, hx, hyx⟩ | ⟨hp, hn, hm⟩)
          · exact ⟨hp, hyx ▸ hx, .inl hyx⟩
          · exact ⟨hp, hn, .inr hm⟩
        · rintro ⟨hp, hn, hyx | hm⟩
          · exact .inl ⟨hp, hyx ▸ hn, hyx⟩
          · exact .inr ⟨hp, hn, hm⟩
      · rintro y - ⟨hy, hy'⟩
        simp only [sameKey, Bool.and_eq_true, decide_eq_true_eq] at hy hy'
        exact hl.notMem_tail hy.2.1 (hy.2.2 ▸ hy'.2.2)

/-! ## Full outer joins -/

theorem sumWhere_fullOuter_left {merge : Option α → Option β → γ} {f : γ → ℕ} {g : α → ℕ}
    (hsome : ∀ a b, f (merge (some a) b) = g a) (hnone : ∀ b, f (merge none b) = 0)
    {r : List (κ × β)} (hr : KeyUnique nn r) (p : κ → Bool) (l : List (κ × α)) :
    sumWhere p f (fullOuter nn merge l r) = sumWhere p g l := by
  rw [fullOuter, sumWhere_append, sumWhere_leftJoin_left hsome hr,
    sumWhere_map p f fun b => merge none (some b), sumWhere_zero fun y _ _ => hnone (some y.2),
    Nat.add_zero]

theorem sumWhere_fullOuter_right {merge : Option α → Option β → γ} {f : γ → ℕ} {g : β → ℕ}
    (hnone : ∀ a, f (merge a none) = 0) (hsome : ∀ a b, f (merge a (some b)) = g b)
    {l : List (κ × α)} (hl : KeyUnique nn l) (r : List (κ × β)) (p : κ → Bool) :
    sumWhere p f (fullOuter nn merge l r) = sumWhere p g r := by
  have hunmatched : sumWhere p g (unmatched nn l r) =
      sumWhere (fun k => p k && !(nn k && decide (k ∈ l.map Prod.fst))) g r := by
    simp [sumWhere, unmatched, List.filter_filter]
  rw [fullOuter, sumWhere_append,
    sumWhere_leftJoin_right (fun a => hnone (some a)) (fun a => hsome (some a)) hl,
    sumWhere_map p f fun b => merge none (some b),
    sumWhere_congr (q := p) (g := g) (fun _ _ => rfl) fun y _ => hsome none y.2, hunmatched,
    ← sumWhere_or]
  · refine sumWhere_congr (fun y _ => ?_) fun _ _ => rfl
    rw [← Bool.and_or_distrib_left, Bool.or_not_self, Bool.and_true]
  · rintro y - ⟨hy, hy'⟩
    simp_all

/-- A full outer join has the keys of both sides. -/
theorem mem_keys_fullOuter {merge : Option α → Option β → γ} {l : List (κ × α)}
    {r : List (κ × β)} {k : κ} :
    k ∈ (fullOuter nn merge l r).map Prod.fst ↔ k ∈ l.map Prod.fst ∨ k ∈ r.map Prod.fst := by
  have hunmatched : ((unmatched nn l r).map fun y => (y.1, merge none (some y.2))).map Prod.fst =
      (unmatched nn l r).map Prod.fst := by
    rw [List.map_map]
    rfl
  rw [fullOuter, List.map_append, List.mem_append, mem_keys_leftJoin, hunmatched]
  constructor
  · rintro (hl | hr)
    · exact .inl hl
    · exact .inr ((List.filter_sublist.map Prod.fst).subset hr)
  · rintro (hl | hr)
    · exact .inl hl
    · -- a right key that no left row has stays unmatched
      by_cases hl : k ∈ l.map Prod.fst
      · exact .inl hl
      · obtain ⟨y, hy, rfl⟩ := List.mem_map.1 hr
        refine .inr (List.mem_map_of_mem (List.mem_filter.2 ⟨hy, ?_⟩))
        simp only [hl, decide_false, Bool.and_false, Bool.not_false]

/-- A full outer join of tables with unique keys has unique keys. -/
theorem KeyUnique.fullOuter {merge : Option α → Option β → γ} {l : List (κ × α)}
    {r : List (κ × β)} (hl : KeyUnique nn l) (hr : KeyUnique nn r) :
    KeyUnique nn (fullOuter nn merge l r) := by
  intro k hk
  rw [countP_eq_sumWhere, Lib.fullOuter, sumWhere_append,
    sumWhere_leftJoin_left (f := fun _ => 1) (g := fun _ => 1) (fun _ _ => rfl) hr,
    sumWhere_map _ (fun _ => 1) fun b => merge none (some b)]
  by_cases hmem : k ∈ l.map Prod.fst
  · -- the key is on the left, so no unmatched right row carries it
    have hzero : sumWhere (fun k' => decide (k' = k)) (fun _ => 1) (unmatched nn l r) = 0 := by
      rw [sumWhere, List.filter_eq_nil_iff.2, List.map_nil, List.sum_nil]
      intro y hy hyk
      obtain rfl : y.1 = k := by simpa using hyk
      simp [unmatched, hk] at hy
      obtain ⟨b, hb⟩ := List.mem_map.1 hmem
      exact hy.2 b.2 (by rw [← hb.2]; exact hb.1)
    rw [hzero, ← countP_eq_sumWhere]
    exact hl k hk
  · have hzero : sumWhere (fun k' => decide (k' = k)) (fun _ => 1) l = 0 := by
      rw [← countP_eq_sumWhere, List.countP_eq_zero]
      intro x hx hxk
      exact hmem (List.mem_map.2 ⟨x, hx, by simpa using hxk⟩)
    rw [hzero, Nat.zero_add, ← countP_eq_sumWhere]
    exact le_trans (List.filter_sublist.countP_le) (hr k hk)

end AdPipeline.Lib
