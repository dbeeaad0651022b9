import AdPipeline.Lib.Grouping
import Mathlib.Data.List.Forall2
import Mathlib.Data.List.Perm.Basic
import Mathlib.Order.Lattice

/-!
# Windows and the order of rows

Which row a window keeps may depend on the order in which the rows are seen, when its order has
ties. `Reordered R` relates two lists whose rows correspond one to one by `R`. Reordering the rows
relates what a window keeps by any `R` that holds between rows tied for the first place
(`rowNumberOne_of_perm`), and a window without ties on a key keeps related rows of related lists
(`Reordered.rowNumberOne`).
-/

namespace AdPipeline.Lib

variable {ρ κ ν : Type*} {R : ρ → ρ → Prop} {xs ys : List ρ}

/-- The rows of the two lists correspond one to one. -/
def Reordered (R : ρ → ρ → Prop) (xs ys : List ρ) : Prop :=
  ∃ zs, List.Forall₂ R xs zs ∧ zs.Perm ys

theorem Reordered.countP_eq {p : ρ → Bool} (h : Reordered R xs ys)
    (hp : ∀ x y, R x y → p x = p y) : xs.countP p = ys.countP p := by
  obtain ⟨zs, hxs, hys⟩ := h
  rw [← hys.countP_eq p]
  clear hys
  induction hxs with
  | nil => rfl
  | cons hxy _ ih => rw [List.countP_cons, List.countP_cons, hp _ _ hxy, ih]

theorem Reordered.map_perm {f : ρ → κ} (h : Reordered R xs ys) (hf : ∀ x y, R x y → f x = f y) :
    (xs.map f).Perm (ys.map f) := by
  obtain ⟨zs, hxs, hys⟩ := h
  have hmap : xs.map f = zs.map f := by
    clear hys
    induction hxs with
    | nil => rfl
    | cons hxy _ ih => rw [List.map_cons, List.map_cons, hf _ _ hxy, ih]
  rw [hmap]
  exact hys.map f

/-- Filtering by a test that the relation respects. -/
theorem Reordered.filter {p : ρ → Bool} (h : Reordered R xs ys) (hp : ∀ x y, R x y → p x = p y) :
    Reordered (fun x y => R x y ∧ p x = true) (xs.filter p) (ys.filter p) := by
  obtain ⟨zs, hxs, hys⟩ := h
  refine ⟨zs.filter p, ?_, hys.filter p⟩
  clear hys
  induction hxs with
  | nil => exact .nil
  | @cons x z _ _ hxz _ ih =>
      by_cases hx : p x = true
      · rw [List.filter_cons_of_pos hx, List.filter_cons_of_pos ((hp x z hxz).symm.trans hx)]
        exact .cons ⟨hxz, hx⟩ ih
      · have hz : ¬ p z = true := fun hz => hx ((hp x z hxz).trans hz)
        rw [List.filter_cons_of_neg hx, List.filter_cons_of_neg hz]
        exact ih

/-! ## The first row -/

/-- Related rows that compare alike have related first rows. -/
theorem firstBy_of_forall₂ {lt : ρ → ρ → Bool}
    (hlt : ∀ x y x' y', R x y → R x' y' → lt x x' = lt y y') (h : List.Forall₂ R xs ys) :
    Option.Rel R (firstBy lt xs) (firstBy lt ys) := by
  induction h with
  | nil => exact .none
  | @cons x y xs ys hxy _ ih =>
      rw [firstBy, firstBy]
      cases hx : firstBy lt xs with
      | none =>
          rw [hx] at ih
          cases hy : firstBy lt ys with
          | none => exact .some hxy
          | some n =>
              rw [hy] at ih
              cases ih
      | some m =>
          rw [hx] at ih
          cases hy : firstBy lt ys with
          | none =>
              rw [hy] at ih
              cases ih
          | some n =>
              rw [hy] at ih
              cases ih with
              | some hmn =>
                  simp only [hlt m n x y hmn hxy]
                  by_cases hlt' : lt n y = true
                  · rw [if_pos hlt', if_pos hlt']
                    exact .some hmn
                  · rw [if_neg hlt', if_neg hlt']
                    exact .some hxy

variable [LinearOrder ν] {rank : ρ → ν} {lt : ρ → ρ → Bool} {rows rows' : List ρ}

/-- In a window ordered by rank the first row has the least rank. -/
theorem rank_le_of_firstBy (hrank : ∀ r s, lt r s = true ↔ rank r < rank s) {m : ρ}
    (h : firstBy lt rows = some m) : ∀ r ∈ rows, rank m ≤ rank r := by
  induction rows generalizing m with
  | nil => cases h
  | cons x rows ih =>
      rw [firstBy] at h
      split at h
      · rename_i hnone
        have hempty : rows = [] := by
          by_contra hne
          obtain ⟨y, hy⟩ := exists_firstBy lt hne
          rw [hnone] at hy
          cases hy
        subst hempty
        obtain rfl := Option.some.inj h
        intro r hr
        rw [List.mem_singleton.1 hr]
      · rename_i n hn
        split at h
        · rename_i hlt
          obtain rfl := Option.some.inj h
          intro r hr
          rcases List.mem_cons.1 hr with rfl | hr
          · exact ((hrank n r).1 hlt).le
          · exact ih hn r hr
        · rename_i hlt
          obtain rfl := Option.some.inj h
          have hle : rank x ≤ rank n := not_lt.1 fun hnx => hlt ((hrank n x).2 hnx)
          intro r hr
          rcases List.mem_cons.1 hr with rfl | hr
          · exact le_refl _
          · exact hle.trans (ih hn r hr)

/-! ## Windows -/

variable [DecidableEq κ] {key : ρ → κ}

omit [LinearOrder ν] in
/-- A window keeps some of the rows. -/
theorem rowNumberOne_subperm (key : ρ → κ) (lt : ρ → ρ → Bool) (rows : List ρ) :
    (rowNumberOne key lt rows).Subperm rows :=
  List.subperm_of_subset (List.Nodup.of_map key (nodup_key_rowNumberOne key lt rows))
    fun _ h => mem_of_mem_rowNumberOne h

/-- Of the same rows, in any order and number, windows keep rows that are related by whatever
relates two rows of a key that are both first. -/
theorem rowNumberOne_of_mem_iff (hrank : ∀ r s, lt r s = true ↔ rank r < rank s)
    (hsame : ∀ r, r ∈ rows ↔ r ∈ rows')
    (hR : ∀ m ∈ rows, ∀ m' ∈ rows, key m = key m' →
      (∀ r ∈ rows, key r = key m → rank m ≤ rank r) →
      (∀ r ∈ rows, key r = key m' → rank m' ≤ rank r) → R m m') :
    Reordered R (rowNumberOne key lt rows) (rowNumberOne key lt rows') := by
  have hkeysPerm : (rows.map key).dedup.Perm (rows'.map key).dedup := by
    refine (List.perm_ext_iff_of_nodup (List.nodup_dedup _) (List.nodup_dedup _)).2 fun k => ?_
    simp only [List.mem_dedup, List.mem_map, hsame]
  refine ⟨(rows.map key).dedup.filterMap fun k => firstBy lt (rows'.filter fun r => key r = k),
    ?_, hkeysPerm.filterMap _⟩
  have hfirst : ∀ k ∈ (rows.map key).dedup,
      Option.Rel R (firstBy lt (rows.filter fun r => key r = k))
        (firstBy lt (rows'.filter fun r => key r = k)) := by
    intro k hk
    obtain ⟨r, hr, rfl⟩ := List.mem_map.1 (List.mem_dedup.1 hk)
    have hmem : r ∈ rows.filter fun s => key s = key r := List.mem_filter.2 ⟨hr, by simp⟩
    have hmem' : r ∈ rows'.filter fun s => key s = key r :=
      List.mem_filter.2 ⟨(hsame _).1 hr, by simp⟩
    obtain ⟨m, hm⟩ := exists_firstBy lt (List.ne_nil_of_mem hmem)
    obtain ⟨m', hm'⟩ := exists_firstBy lt (List.ne_nil_of_mem hmem')
    obtain ⟨hmrows, hmkey⟩ := List.mem_filter.1 (mem_of_firstBy hm)
    obtain ⟨hmrows', hmkey'⟩ := List.mem_filter.1 (mem_of_firstBy hm')
    rw [decide_eq_true_eq] at hmkey hmkey'
    rw [hm, hm']
    refine .some (hR m hmrows m' ((hsame _).2 hmrows') (hmkey.trans hmkey'.symm) ?_ ?_)
    · intro s hs hsk
      exact rank_le_of_firstBy hrank hm s
        (List.mem_filter.2 ⟨hs, by simpa using hsk.trans hmkey⟩)
    · intro s hs hsk
      exact rank_le_of_firstBy hrank hm' s
        (List.mem_filter.2 ⟨(hsame _).1 hs, by simpa using hsk.trans hmkey'⟩)
  have hkeys : List.Forall₂ (fun k k' => k = k' ∧ k ∈ (rows.map key).dedup)
      (rows.map key).dedup (rows.map key).dedup :=
    List.forall₂_same.2 fun k hk => ⟨rfl, hk⟩
  exact List.rel_filterMap (fun k k' hkk => by
    obtain ⟨rfl, hk⟩ := hkk
    exact hfirst k hk) hkeys

/-- Reordering the rows relates what a window keeps by whatever relates two rows of a key that are
both first. -/
theorem rowNumberOne_of_perm (hrank : ∀ r s, lt r s = true ↔ rank r < rank s)
    (hperm : rows.Perm rows')
    (hR : ∀ m ∈ rows, ∀ m' ∈ rows, key m = key m' →
      (∀ r ∈ rows, key r = key m → rank m ≤ rank r) →
      (∀ r ∈ rows, key r = key m' → rank m' ≤ rank r) → R m m') :
    Reordered R (rowNumberOne key lt rows) (rowNumberOne key lt rows') :=
  rowNumberOne_of_mem_iff hrank (fun _ => hperm.mem_iff) hR

/-- A window whose ranks tell the rows of a key apart keeps the same rows in every order. -/
theorem perm_rowNumberOne (hrank : ∀ r s, lt r s = true ↔ rank r < rank s)
    (hperm : rows.Perm rows')
    (hinj : ∀ r ∈ rows, ∀ s ∈ rows, key r = key s → rank r = rank s → r = s) :
    (rowNumberOne key lt rows).Perm (rowNumberOne key lt rows') := by
  have hsame : Reordered Eq (rowNumberOne key lt rows) (rowNumberOne key lt rows') := by
    refine rowNumberOne_of_perm hrank hperm ?_
    intro m hm m' hm' hmm' hfirst hfirst'
    refine hinj m hm m' hm' hmm' (le_antisymm ?_ ?_)
    · exact hfirst m' hm' hmm'.symm
    · exact hfirst' m hm hmm'
  obtain ⟨ws, hws, hperm'⟩ := hsame
  rw [List.forall₂_eq_eq_eq] at hws
  rw [hws]
  exact hperm'

/-- Such a window keeps one row of each key, which comes strictly before the others. -/
theorem exists_kept (hrank : ∀ r s, lt r s = true ↔ rank r < rank s)
    (hinj : ∀ r ∈ rows, ∀ s ∈ rows, key r = key s → rank r = rank s → r = s) {r : ρ}
    (hr : r ∈ rows) :
    ∃ m ∈ rows, key m = key r ∧ (rowNumberOne key lt rows).filter (fun s => key s = key r) = [m] ∧
      ∀ s ∈ rows, key s = key r → s ≠ m → rank m < rank s := by
  obtain ⟨m, hm, hkey⟩ := exists_mem_rowNumberOne key lt hr
  refine ⟨m, mem_of_mem_rowNumberOne hm, hkey, ?_, ?_⟩
  · rw [← hkey]
    exact filter_key_eq_singleton (nodup_key_rowNumberOne key lt rows) hm
  · intro s hs hskey hne
    have hle : rank m ≤ rank s := by
      refine rank_le_of_firstBy hrank (firstBy_of_mem_rowNumberOne hm) s ?_
      exact List.mem_filter.2 ⟨hs, by simpa using hskey.trans hkey.symm⟩
    refine lt_of_le_of_ne hle fun heq => hne ?_
    exact (hinj m (mem_of_mem_rowNumberOne hm) s hs (hkey.trans hskey.symm) heq).symm

/-- Related lists, seen in the same order, are kept related. -/
theorem rowNumberOne_of_forall₂ (hkey : ∀ x y, R x y → key x = key y)
    (hlt : ∀ x y x' y', R x y → R x' y' → lt x x' = lt y y') (h : List.Forall₂ R rows rows') :
    List.Forall₂ R (rowNumberOne key lt rows) (rowNumberOne key lt rows') := by
  have hkeys : rows.map key = rows'.map key := by
    clear hlt
    induction h with
    | nil => rfl
    | cons hxy _ ih => rw [List.map_cons, List.map_cons, hkey _ _ hxy, ih]
  rw [rowNumberOne, rowNumberOne, ← hkeys]
  refine List.rel_filterMap (R := Eq) ?_ (List.forall₂_same.2 fun _ _ => rfl)
  rintro k _ rfl
  refine firstBy_of_forall₂ hlt (List.rel_filter ?_ h)
  intro x y hxy
  simp only [hkey x y hxy]

/-- A window whose ranks tell the rows of a key apart keeps related rows of related lists. -/
theorem Reordered.rowNumberOne (hrank : ∀ r s, lt r s = true ↔ rank r < rank s)
    (h : Reordered R rows rows') (hkey : ∀ x y, R x y → key x = key y)
    (hlt : ∀ x y x' y', R x y → R x' y' → lt x x' = lt y y')
    (hinj : ∀ r ∈ rows', ∀ s ∈ rows', key r = key s → rank r = rank s → r = s) :
    Reordered R (rowNumberOne key lt rows) (rowNumberOne key lt rows') := by
  obtain ⟨zs, hrows, hperm⟩ := h
  refine ⟨Lib.rowNumberOne key lt zs, rowNumberOne_of_forall₂ hkey hlt hrows,
    perm_rowNumberOne hrank hperm ?_⟩
  intro r hr s hs
  exact hinj r (hperm.mem_iff.1 hr) s (hperm.mem_iff.1 hs)

/-! ## Windows over two rows -/

section

variable {a b c : ρ}

theorem rowNumberOne_of_eq (h : key a = key b) :
    Lib.rowNumberOne key lt [a, b] = [if lt b a then b else a] := by
  have hdedup : [key b, key b].dedup = [key b] := by simp
  rw [Lib.rowNumberOne, List.map_cons, List.map_cons, List.map_nil, h, hdedup]
  simp only [List.filter_cons, h, decide_true, if_true, List.filter_nil, List.filterMap_cons,
    List.filterMap_nil, firstBy]
  split_ifs <;> rfl

theorem rowNumberOne_of_ne (h : key a ≠ key b) : Lib.rowNumberOne key lt [a, b] = [a, b] := by
  have hdedup : [key a, key b].dedup = [key a, key b] := by simp [h]
  rw [Lib.rowNumberOne, List.map_cons, List.map_cons, List.map_nil, hdedup]
  simp [firstBy, h, h.symm]

/-- Two rows of one key and a row of another. -/
theorem rowNumberOne_copies (h : key a = key b) (hne : key c ≠ key a) :
    Lib.rowNumberOne key lt [a, b, c] = [if lt b a then b else a, c] := by
  rw [h] at hne
  have hdedup : [key b, key b, key c].dedup = [key b, key c] := by simp [hne.symm]
  rw [Lib.rowNumberOne, List.map_cons, List.map_cons, List.map_cons, List.map_nil, h, hdedup]
  simp only [List.filterMap_cons, List.filterMap_nil, List.filter_cons, h, hne, hne.symm,
    decide_true, decide_false, if_true, Bool.false_eq_true, if_false, List.filter_nil, firstBy]
  split_ifs <;> rfl

end

end AdPipeline.Lib
