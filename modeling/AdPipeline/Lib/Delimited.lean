import Mathlib.Data.List.Basic

/-!
# Delimited key and value pairs

A list of pairs is written as its items `key eq value`, joined by a second delimiter `amp`. The text
alone does not determine the pairs, since a key or a value may contain a delimiter. It does together
with the lengths of the keys and values (`joinPairs_inj_of_lengths`), and it does when no key
contains a delimiter and no value contains `amp` (`joinPairs_inj_of_free`).
-/

namespace AdPipeline.Lib

variable {α : Type*} (eq amp : α)

/-- One item of the text. -/
def pairItem (x : List α × List α) : List α := x.1 ++ eq :: x.2

/-- The items of a list of pairs, joined. -/
def joinPairs (pairs : List (List α × List α)) : List α :=
  [amp].intercalate (pairs.map (pairItem eq))

/-- The lengths of a key and a value. -/
def pairLengths (x : List α × List α) : ℕ × ℕ := (x.1.length, x.2.length)

/-- No delimiter in the key, and no item delimiter in the value. -/
def PairFree (x : List α × List α) : Prop := eq ∉ x.1 ∧ amp ∉ x.1 ∧ amp ∉ x.2

variable {eq amp}

theorem pairItem_inj_of_lengths {x y : List α × List α} {s t : List α}
    (hlen : pairLengths x = pairLengths y) (h : pairItem eq x ++ s = pairItem eq y ++ t) :
    x = y ∧ s = t := by
  simp only [pairLengths, Prod.mk.injEq] at hlen
  simp only [pairItem, List.append_assoc, List.cons_append] at h
  obtain ⟨hkey, hrest⟩ := List.append_inj h hlen.1
  obtain ⟨hvalue, hst⟩ := List.append_inj (List.cons.inj hrest).2 hlen.2
  exact ⟨Prod.ext hkey hvalue, hst⟩

/-- The text and the lengths determine the pairs. -/
theorem joinPairs_inj_of_lengths {xs ys : List (List α × List α)}
    (hlen : xs.map pairLengths = ys.map pairLengths)
    (h : joinPairs eq amp xs = joinPairs eq amp ys) : xs = ys := by
  induction xs generalizing ys with
  | nil =>
      rw [List.map_nil, eq_comm, List.map_eq_nil_iff] at hlen
      exact hlen.symm
  | cons x xs ih =>
      cases ys with
      | nil => simp at hlen
      | cons y ys =>
          simp only [List.map_cons, List.cons.injEq] at hlen
          have hempty : xs = [] ↔ ys = [] := by
            rw [← List.map_eq_nil_iff (f := pairLengths), hlen.2, List.map_eq_nil_iff]
          by_cases hxs : xs = []
          · obtain rfl := hempty.1 hxs
            subst hxs
            have hitem : pairItem eq x ++ [] = pairItem eq y ++ [] := by
              simpa [joinPairs, List.intercalate] using h
            rw [(pairItem_inj_of_lengths hlen.1 hitem).1]
          · have hys : ys ≠ [] := fun hnil => hxs (hempty.2 hnil)
            simp only [joinPairs, List.map_cons] at h
            rw [List.intercalate_cons_of_ne_nil (by simpa using hxs),
              List.intercalate_cons_of_ne_nil (by simpa using hys), List.append_assoc,
              List.append_assoc] at h
            obtain ⟨rfl, hrest⟩ := pairItem_inj_of_lengths hlen.1 h
            rw [ih hlen.2 (List.append_cancel_left hrest)]

variable [DecidableEq α]

/-- A list is split by the first of its delimiters. -/
theorem append_cons_inj_of_first {d : α} {x y s t : List α} (hx : d ∉ x) (hy : d ∉ y)
    (h : x ++ d :: s = y ++ d :: t) : x = y ∧ s = t := by
  have htake : ∀ z u : List α, d ∉ z → (z ++ d :: u).takeWhile (fun c => c ≠ d) = z := by
    intro z u hz
    rw [List.takeWhile_append_of_pos fun c hc => by
      simpa using fun hcd : c = d => hz (hcd ▸ hc)]
    simp
  have hfront : x = y := by rw [← htake x s hx, ← htake y t hy, h]
  subst hfront
  exact ⟨rfl, (List.cons.inj (List.append_cancel_left h)).2⟩

/-- A list is split by the last of its delimiters. -/
theorem append_cons_inj_of_last {d : α} {x y s t : List α} (hs : d ∉ s) (ht : d ∉ t)
    (h : x ++ d :: s = y ++ d :: t) : x = y ∧ s = t := by
  have hreverse := congrArg List.reverse h
  simp only [List.reverse_append, List.reverse_cons, List.append_assoc, List.singleton_append]
    at hreverse
  obtain ⟨hback, hfront⟩ := append_cons_inj_of_first (by rwa [List.mem_reverse])
    (by rwa [List.mem_reverse]) hreverse
  exact ⟨List.reverse_injective hfront, List.reverse_injective hback⟩

theorem pairItem_inj_of_free {x y : List α × List α} (hx : PairFree eq amp x)
    (hy : PairFree eq amp y) (h : pairItem eq x = pairItem eq y) : x = y := by
  obtain ⟨hkey, hvalue⟩ := append_cons_inj_of_first hx.1 hy.1 h
  exact Prod.ext hkey hvalue

/-- The text determines pairs that are free of delimiters. -/
theorem joinPairs_inj_of_free {xs ys : List (List α × List α)} (heq : eq ≠ amp)
    (hx : ∀ x ∈ xs, PairFree eq amp x) (hy : ∀ y ∈ ys, PairFree eq amp y)
    (h : joinPairs eq amp xs = joinPairs eq amp ys) : xs = ys := by
  have hitems : ∀ zs : List (List α × List α), (∀ z ∈ zs, PairFree eq amp z) →
      ∀ item ∈ zs.map (pairItem eq), amp ∉ item := by
    intro zs hzs item hitem
    obtain ⟨z, hz, rfl⟩ := List.mem_map.1 hitem
    obtain ⟨-, hkey, hvalue⟩ := hzs z hz
    simp [pairItem, hkey, hvalue, heq.symm]
  -- an item is never empty, so no list of items is written like the empty list
  have hnil : ∀ zs : List (List α × List α), joinPairs eq amp zs = [] → zs = [] := by
    intro zs hzs
    cases zs with
    | nil => rfl
    | cons z zs =>
        have hmem : eq ∈ joinPairs eq amp (z :: zs) := by
          rw [joinPairs, List.map_cons]
          by_cases hempty : zs.map (pairItem eq) = []
          · simp [hempty, pairItem]
          · rw [List.intercalate_cons_of_ne_nil hempty]
            simp [pairItem]
        rw [hzs] at hmem
        cases hmem
  by_cases hxs : xs = []
  · subst hxs
    exact (hnil ys h.symm).symm
  by_cases hys : ys = []
  · subst hys
    exact hnil xs h
  have hmap : xs.map (pairItem eq) = ys.map (pairItem eq) := by
    rw [← List.splitOn_intercalate amp (hitems xs hx) (by simpa using hxs),
      ← List.splitOn_intercalate amp (hitems ys hy) (by simpa using hys)]
    exact congrArg _ h
  refine List.ext_getElem (by simpa using congrArg List.length hmap) fun i hi hi' => ?_
  refine pairItem_inj_of_free (hx _ (List.getElem_mem hi)) (hy _ (List.getElem_mem hi')) ?_
  have := congrArg (fun l : List (List α) => l[i]?) hmap
  simpa [hi, hi'] using this

end AdPipeline.Lib
