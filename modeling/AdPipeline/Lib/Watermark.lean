import Mathlib.Data.List.Basic
import Mathlib.Algebra.Order.Group.Int

/-!
# Watermarks over partitions

Each partition of a source has a watermark, the latest time seen in it less a fixed delay, and an
idle mark that takes it out of the combination. The combined watermark is the least one of the
partitions that are not idle, so it never gets ahead of the latest time seen in any of them.
-/

namespace AdPipeline.Lib

/-- What a source knows of one partition. -/
structure Partition where
  maxSeen : Option ℤ
  idle : Bool
deriving DecidableEq

namespace Partition

/-- A partition nothing was read from. -/
def fresh : Partition := ⟨none, false⟩

/-- A record with time `t`: the partition is active again. -/
def observe (t : ℤ) (p : Partition) : Partition where
  maxSeen := some (p.maxSeen.elim t fun m => max m t)
  idle := false

/-- The watermark of the partition. -/
def watermark (delay : ℤ) (p : Partition) : Option ℤ := p.maxSeen.map fun m => m - delay

/-- The latest time of a partition is one it had or the one it observes. -/
theorem mem_maxSeen_observe {t m : ℤ} {p : Partition} (h : m ∈ (p.observe t).maxSeen) :
    m = t ∨ m ∈ p.maxSeen := by
  unfold observe at h
  cases hp : p.maxSeen with
  | none => simp_all
  | some m' =>
      simp only [hp, Option.elim_some, Option.mem_def, Option.some.injEq] at h ⊢
      rcases max_choice m' t with hmax | hmax
      · exact .inr (hmax ▸ h)
      · exact .inl (hmax ▸ h).symm

end Partition

/-- A list collects to the values of its items, in their order. -/
theorem map_eq_of_mapM {α β : Type*} {f : α → Option β} {xs : List α} {ys : List β}
    (h : xs.mapM f = some ys) : xs.map f = ys.map some := by
  induction xs generalizing ys with
  | nil =>
      obtain rfl : ys = [] := by simpa using h.symm
      rfl
  | cons x xs ih =>
      rw [List.mapM_cons] at h
      obtain ⟨y', hy', h⟩ := Option.bind_eq_some_iff.1 h
      obtain ⟨ys', hys', h⟩ := Option.bind_eq_some_iff.1 h
      obtain rfl : y' :: ys' = ys := by simpa using h
      rw [List.map_cons, List.map_cons, hy', ih hys']

/-- The least watermark of the partitions that are not idle: none when there is no such partition,
or one that has no watermark yet. -/
def combinedWatermark (delay : ℤ) (partitions : List Partition) : Option ℤ :=
  ((partitions.filter fun p => !p.idle).mapM (Partition.watermark delay)).bind List.min?

/-- The combined watermark is that of some partition that is not idle. -/
theorem exists_of_combinedWatermark {delay w : ℤ} {partitions : List Partition}
    (h : combinedWatermark delay partitions = some w) :
    ∃ p ∈ partitions, p.idle = false ∧ p.watermark delay = some w := by
  obtain ⟨ws, hws, hmin⟩ := Option.bind_eq_some_iff.1 h
  have hmem : some w ∈ ws.map some := List.mem_map_of_mem (List.min?_mem hmin)
  rw [← map_eq_of_mapM hws] at hmem
  obtain ⟨p, hp, hpw⟩ := List.mem_map.1 hmem
  have hactive := List.mem_filter.1 hp
  exact ⟨p, hactive.1, by simpa using hactive.2, hpw⟩

/-- The combined watermark is at most that of every partition that is not idle. -/
theorem combinedWatermark_le {delay w : ℤ} {partitions : List Partition} {p : Partition}
    (h : combinedWatermark delay partitions = some w) (hp : p ∈ partitions)
    (hactive : p.idle = false) : ∃ w' ∈ p.watermark delay, w ≤ w' := by
  obtain ⟨ws, hws, hmin⟩ := Option.bind_eq_some_iff.1 h
  have hmem : p.watermark delay ∈ ws.map some := by
    rw [← map_eq_of_mapM hws]
    exact List.mem_map_of_mem (List.mem_filter.2 ⟨hp, by simp [hactive]⟩)
  obtain ⟨w', hw', hpw⟩ := List.mem_map.1 hmem
  exact ⟨w', hpw.symm, (List.min?_eq_some_iff.1 hmin).2 w' hw'⟩

end AdPipeline.Lib
