import AdPipeline.RedisWriter.Store

/-!
# What a summary adds up

`/agg/summary` finds the hashes by the scores of the index. In a Redis that `handle_agg` has written
windows of one minute to, a range of seconds from one minute to the second before another finds just
the windows that start in between (`entry_aggSummary`).
-/

namespace AdPipeline.RedisWriter

open Lib

/-- The start of a one-minute window. -/
def IsMinute (t : Instant) : Prop := t.nanos % 60000000000 = 0

instance (t : Instant) : Decidable (IsMinute t) := inferInstanceAs (Decidable (_ = _))

/-- What `handle_agg` makes of the messages of one-minute windows. -/
inductive Written (ttl : ℤ) : Redis → Prop
  | empty : Written ttl .empty
  | handleAgg {r : Redis} (h : Written ttl r) (now : Instant) (d : AggMinute)
      (hd : IsMinute d.windowStart) : Written ttl (handleAgg ttl now r d)

/-- The hashes that the index leads to. -/
def Redis.live (r : Redis) (now : Instant) : List AggHash :=
  r.index.filterMap fun x => r.hgetall now x.1

/-- The score of a hash is the second its window starts at, which starts a minute. -/
structure Indexed (r : Redis) : Prop where
  nodup : (r.index.map Prod.fst).Nodup
  score : ∀ x ∈ r.index, ∀ h, entry x.1 r.hashes = some h →
    x.2 = h.windowStart.nanos.tdiv 1000000000 ∧ IsMinute h.windowStart

theorem indexed_of_written {ttl : ℤ} {r : Redis} (h : Written ttl r) : Indexed r := by
  induction h with
  | empty => exact ⟨List.nodup_nil, fun x hx => absurd hx List.not_mem_nil⟩
  | @handleAgg r h now d hd ih =>
      constructor
      · exact (nodup_keys_upsert ih.nodup).sublist (List.filter_sublist.map _)
      · intro x hx hash hhash
        replace hhash : entry x.1 (upsert Prod.fst (aggKey d, .ofMessage ttl now d) r.hashes) =
          some hash := hhash
        rw [entry_upsert] at hhash
        rcases (mem_upsert ih.nodup).1 (List.mem_of_mem_filter hx) with rfl | ⟨hin, hne⟩
        · rw [if_pos rfl] at hhash
          obtain rfl := Option.some.inj hhash
          exact ⟨rfl, hd⟩
        · rw [if_neg (Ne.symm hne)] at hhash
          exact ih.score x hin hash hhash

variable {r : Redis} {now : Instant} {first last : ℤ}

theorem hgetall_eq_some {key : String} {h : AggHash} (hget : r.hgetall now key = some h) :
    entry key r.hashes = some h :=
  (Option.filter_eq_some_iff.1 hget).1

/-- The windows that the index leads to are one-minute windows. -/
theorem isMinute_of_mem_live (hr : Indexed r) {h : AggHash} (hh : h ∈ r.live now) :
    IsMinute h.windowStart := by
  obtain ⟨x, hx, hget⟩ := List.mem_filterMap.1 hh
  exact (hr.score x hx h (hgetall_eq_some hget)).2

/-- The hashes of a range of seconds are those whose windows start in it. -/
theorem perm_windows (hr : Indexed r) :
    (r.windows now first last).Perm ((r.live now).filter fun h =>
      h.campaignId ≠ "" && (first ≤ h.windowStart.nanos.tdiv 1000000000 &&
        h.windowStart.nanos.tdiv 1000000000 ≤ last)) := by
  have hrange : (r.rangeByScore first last).Perm
      (r.index.filter fun x => first ≤ x.2 && x.2 ≤ last) := List.perm_insertionSort _ _
  refine ((hrange.filterMap _).filter _).trans (List.Perm.of_eq ?_)
  rw [Redis.live, List.filterMap_filter, List.filter_filterMap, List.filter_filterMap]
  apply List.filterMap_congr
  intro x hx
  cases hget : r.hgetall now x.1 with
  | none => simp
  | some h =>
      rw [(hr.score x hx h (hgetall_eq_some hget)).1]
      split_ifs with hscore
      · simp only [Option.filter_some, hscore, Bool.and_true]
      · simp only [Option.filter_some, hscore, Bool.and_false, Option.filter_none,
          Bool.false_eq_true, if_false]

/-- A summary has each campaign once. -/
theorem nodup_keys_sumRange : ((sumRange r now first last).map Prod.fst).Nodup :=
  nodup_keys_foldl_adjust _ List.nodup_nil

theorem mem_keys_sumRange {c : String} :
    c ∈ (sumRange r now first last).map Prod.fst ↔
      c ∈ (r.windows now first last).map AggHash.campaignId := by
  rw [sumRange, mem_keys_foldl_adjust]
  simp

/-- A column of a summary is the total of that column over the hashes of the campaign. -/
theorem entry_sumRange {f : CampaignSummary → ℕ} {g : AggHash → ℕ}
    (hzero : ∀ advertiser campaignName, f ⟨0, 0, 0, 0, 0, 0, advertiser, campaignName⟩ = 0)
    (hadd : ∀ h acc, f (CampaignSummary.add h acc) = f acc + g h) (c : String) :
    ((entry c (sumRange r now first last)).map f).getD 0 =
      (((r.windows now first last).filter fun h => h.campaignId = c).map g).sum := by
  have honce : (sumRange r now first last).countP (fun x => decide (x.1 = c)) ≤ 1 := by
    have hnodup : ((sumRange r now first last).map Prod.fst).Nodup := nodup_keys_sumRange
    have hcount := List.nodup_iff_count_le_one.1 hnodup c
    rw [List.count_eq_countP, List.countP_map] at hcount
    exact hcount
  rw [entry_eq_sumWhere f honce, sumRange,
    sumWhere_foldl_adjust (fun h => hzero h.advertiser h.campaignName) hadd, sumWhere_nil,
    Nat.zero_add]

end AdPipeline.RedisWriter
