import AdPipeline.Lib.Precedence
import Mathlib.Data.List.Nodup
import Mathlib.Logic.Function.Basic

/-!
# Reading partitioned logs

A `Cursor` follows some partitions of logs that only ever grow. It remembers where it began in each
of them and where it goes on, and what a test has found in between. `Exact` is that nothing was left
out and nothing found twice; it is kept when a log grows (`Exact.grow`) and when the record at the
cursor is read (`Exact.read`).
-/

namespace AdPipeline.Lib

variable {π ρ ε : Type*}

/-- What a test finds in a log from position `a` up to `b`, with the positions. -/
def hits (look : ρ → Option ε) (log : List ρ) (a b : ℕ) : List (ℕ × ε) :=
  (List.range' a (b - a)).filterMap fun i => (log[i]?.bind look).map (i, ·)

section

variable {look : ρ → Option ε} {log : List ρ} {a b : ℕ}

theorem mem_hits {i : ℕ} {e : ε} :
    (i, e) ∈ hits look log a b ↔ a ≤ i ∧ i < b ∧ log[i]?.bind look = some e := by
  rw [hits, List.mem_filterMap]
  constructor
  · rintro ⟨j, hj, hfound⟩
    obtain ⟨x, hx, hpair⟩ := Option.map_eq_some_iff.1 hfound
    obtain ⟨rfl, rfl⟩ := Prod.mk.inj hpair
    rw [List.mem_range'_1] at hj
    exact ⟨hj.1, by omega, hx⟩
  · rintro ⟨hle, hlt, hfound⟩
    exact ⟨i, List.mem_range'_1.2 ⟨hle, by omega⟩, by rw [hfound, Option.map_some]⟩

theorem hits_self : hits look log a a = [] := by
  rw [hits, Nat.sub_self, List.range'_zero, List.filterMap_nil]

/-- The next record is looked at. -/
theorem hits_succ (hab : a ≤ b) {r : ρ} (hr : log[b]? = some r) :
    hits look log a (b + 1) = hits look log a b ++ ((look r).map (b, ·)).toList := by
  have hlen : b + 1 - a = (b - a) + 1 := by omega
  have hlast : a + 1 * (b - a) = b := by omega
  rw [hits, hlen, List.range'_concat, List.filterMap_append, hlast, ← hits]
  congr 1
  rw [List.filterMap_cons, hr, Option.bind_some, List.filterMap_nil]
  cases look r <;> rfl

/-- What is found does not depend on what is appended later. -/
theorem hits_append (hb : b ≤ log.length) (more : List ρ) :
    hits look (log ++ more) a b = hits look log a b := by
  refine List.filterMap_congr fun i hi => ?_
  rw [List.mem_range'_1] at hi
  rw [List.getElem?_append_left (by omega)]

/-- The positions come in order. -/
theorem pairwise_hits : (hits look log a b).Pairwise fun x y => x.1 < y.1 := by
  rw [hits, List.pairwise_filterMap]
  refine (List.pairwise_lt_range' 1).imp ?_
  intro i j hij x hx y hy
  obtain ⟨_, _, rfl⟩ := Option.map_eq_some_iff.1 hx
  obtain ⟨_, _, rfl⟩ := Option.map_eq_some_iff.1 hy
  exact hij

end

/-- Where a reader of partitioned logs began and goes on, and what it has found. -/
structure Cursor (π ε : Type*) where
  start : π → Option ℕ
  next : π → Option ℕ
  found : List (π × ℕ × ε)

namespace Cursor

variable [DecidableEq π]

/-- A cursor where nothing is read yet. -/
def opened (start : π → Option ℕ) : Cursor π ε := ⟨start, start, []⟩

/-- The record at position `i` of a partition is read, and may be a find. -/
def read (c : Cursor π ε) (p : π) (i : ℕ) (find : Option ε) : Cursor π ε where
  start := c.start
  next := Function.update c.next p (some (i + 1))
  found := c.found ++ (find.map fun e => (p, i, e)).toList

/-- In each partition, what was found is what there is to find between the start and the next
position. -/
structure Exact (look : ρ → Option ε) (logs : π → List ρ) (c : Cursor π ε) : Prop where
  absent : ∀ p, c.start p = none → c.next p = none ∧ projection p c.found = []
  present : ∀ p a, c.start p = some a → ∃ b, c.next p = some b ∧ a ≤ b ∧ b ≤ (logs p).length ∧
    projection p c.found = hits look (logs p) a b

variable {look : ρ → Option ε} {logs logs' : π → List ρ} {c : Cursor π ε}

theorem exact_opened {start : π → Option ℕ} (h : ∀ p a, start p = some a → a ≤ (logs p).length) :
    (opened start : Cursor π ε).Exact look logs where
  absent _ hp := ⟨hp, rfl⟩
  present p a hp := ⟨a, hp, le_refl a, h p a hp, hits_self.symm⟩

/-- The logs grow. -/
theorem Exact.grow (h : c.Exact look logs) (hgrow : ∀ p, logs p <+: logs' p) :
    c.Exact look logs' where
  absent := h.absent
  present p a hp := by
    obtain ⟨b, hnext, hab, hb, hfound⟩ := h.present p a hp
    obtain ⟨more, hmore⟩ := hgrow p
    refine ⟨b, hnext, hab, hb.trans (hgrow p).length_le, ?_⟩
    rw [hfound, ← hmore, hits_append hb]

theorem projection_read_self (c : Cursor π ε) (p : π) (i : ℕ) (find : Option ε) :
    projection p (c.read p i find).found =
      projection p c.found ++ (find.map (i, ·)).toList := by
  rw [read, projection, List.filter_append, List.map_append, projection]
  cases find <;> simp

theorem projection_read_of_ne (c : Cursor π ε) {p q : π} (hq : q ≠ p) (i : ℕ) (find : Option ε) :
    projection q (c.read p i find).found = projection q c.found := by
  rw [read, projection, List.filter_append, List.map_append, projection]
  cases find <;> simp [hq.symm]

/-- The record at the cursor is read. -/
theorem Exact.read (h : c.Exact look logs) {p : π} {i : ℕ} {r : ρ} (hnext : c.next p = some i)
    (hr : (logs p)[i]? = some r) : (c.read p i (look r)).Exact look logs where
  absent q hq := by
    obtain ⟨hnone, hfound⟩ := h.absent q hq
    have hne : q ≠ p := by
      rintro rfl
      rw [hnone] at hnext
      cases hnext
    exact ⟨(Function.update_of_ne hne _ _).trans hnone,
      (projection_read_of_ne c hne i _).trans hfound⟩
  present q a hq := by
    obtain ⟨b, hb, hab, hlen, hfound⟩ := h.present q a hq
    by_cases hne : q = p
    · subst hne
      obtain rfl : i = b := Option.some.inj (hnext.symm.trans hb)
      obtain ⟨hlt, _⟩ := List.getElem?_eq_some_iff.1 hr
      refine ⟨i + 1, Function.update_self _ _ _, Nat.le_succ_of_le hab, hlt, ?_⟩
      rw [projection_read_self, hfound, hits_succ hab hr]
    · refine ⟨b, (Function.update_of_ne hne _ _).trans hb, hab, hlen, ?_⟩
      rw [projection_read_of_ne c hne, hfound]

/-- What is found, by partition and position. -/
theorem Exact.mem_found (h : c.Exact look logs) {p : π} {i : ℕ} {e : ε} :
    (p, i, e) ∈ c.found ↔ ∃ a b, c.start p = some a ∧ c.next p = some b ∧ a ≤ i ∧ i < b ∧
      (logs p)[i]?.bind look = some e := by
  have hprojection : (p, i, e) ∈ c.found ↔ (i, e) ∈ projection p c.found := by
    simp [projection]
  rw [hprojection]
  cases hstart : c.start p with
  | none => simp [(h.absent p hstart).2]
  | some a =>
      obtain ⟨b, hb, -, -, hfound⟩ := h.present p a hstart
      rw [hfound, mem_hits]
      constructor
      · rintro hi
        exact ⟨a, b, rfl, hb, hi⟩
      · rintro ⟨a', b', ha', hb', hi⟩
        obtain rfl := Option.some.inj ha'
        obtain rfl := Option.some.inj (hb.symm.trans hb')
        exact hi

/-- No position is found twice. -/
theorem Exact.nodup (h : c.Exact look logs) : (c.found.map fun x => (x.1, x.2.1)).Nodup := by
  rw [List.nodup_iff_count_le_one]
  rintro ⟨p, i⟩
  have hcount : (c.found.map fun x => (x.1, x.2.1)).count (p, i) =
      ((projection p c.found).map Prod.fst).count i := by
    generalize c.found = found
    induction found with
    | nil => rfl
    | cons x found ih =>
        rw [projection, List.map_cons, List.count_cons, ih, projection, List.filter_cons]
        by_cases hx : x.1 = p
        · simp [hx, List.count_cons]
        · simp [hx]
  rw [hcount]
  refine List.nodup_iff_count_le_one.1 ?_ i
  cases hstart : c.start p with
  | none =>
      rw [(h.absent p hstart).2]
      exact List.nodup_nil
  | some a =>
      obtain ⟨b, -, -, -, hfound⟩ := h.present p a hstart
      rw [hfound]
      exact (List.pairwise_map.2 pairwise_hits).imp fun hlt => Nat.ne_of_lt hlt

end Cursor

end AdPipeline.Lib
