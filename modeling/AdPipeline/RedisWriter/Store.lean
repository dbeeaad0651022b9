import AdPipeline.Lib.Keyed
import AdPipeline.Platform.Time
import Mathlib.Data.List.Sort
import Mathlib.Data.Rat.Defs

/-!
# The aggregates in Redis

`writer.py` keeps one hash for each campaign and minute, and an index of the hashes by the epoch
seconds of their windows. `handleAgg` is the pipeline that writes a window, `sumRange` reads the
windows of a range of seconds, and `aggSummary` is the range that `/agg/summary` asks for. A hash
past its expiry reads as empty.
-/

namespace AdPipeline.RedisWriter

open Lib

/-- A message of `agg.minute` that has all the fields `handle_agg` needs. -/
structure AggMinute where
  windowStart : Instant
  windowEnd : Instant
  campaignId : String
  advertiser : Option String
  campaignName : Option String
  impressions : Option ℕ
  clicks : Option ℕ
  completes : Option ℕ
  requests : Option ℕ
  impReqRatio : Option ℚ
  ssaiDupes : Option ℕ

/-- A hash `agg:1m:..`, and the second it expires at. -/
structure AggHash where
  campaignId : String
  advertiser : String
  campaignName : String
  impressions : ℕ
  clicks : ℕ
  completes : ℕ
  requests : ℕ
  impReqRatio : Option ℚ
  ssaiDupes : ℕ
  windowStart : Instant
  windowEnd : Instant
  updatedAt : Instant
  expiresAt : ℤ

/-- The hashes by key, and the sorted set `agg:index` with its scores. -/
structure Redis where
  hashes : List (String × AggHash)
  index : List (String × ℤ)

def Redis.empty : Redis := ⟨[], []⟩

/-- `minute_key`: the minute as `%Y%m%d%H%M` in UTC, and the epoch seconds cut by `int`. -/
def minuteKey (t : Instant) : String × ℤ :=
  let ((y, m, d), h, mi, _) := Time.utcFields t
  (toString y ++ Time.pad 2 m ++ Time.pad 2 d ++ Time.pad 2 h ++ Time.pad 2 mi,
    t.nanos.tdiv 1000000000)

/-- The key of the hash of a window. -/
def aggKey (d : AggMinute) : String :=
  "agg:1m:" ++ d.campaignId ++ ":" ++ (minuteKey d.windowStart).1

/-- The fields `handle_agg` sets. -/
def AggHash.ofMessage (ttl : ℤ) (now : Instant) (d : AggMinute) : AggHash where
  campaignId := d.campaignId
  advertiser := d.advertiser.getD ""
  campaignName := d.campaignName.getD ""
  impressions := d.impressions.getD 0
  clicks := d.clicks.getD 0
  completes := d.completes.getD 0
  requests := d.requests.getD 0
  impReqRatio := d.impReqRatio
  ssaiDupes := d.ssaiDupes.getD 0
  windowStart := d.windowStart
  windowEnd := d.windowEnd
  updatedAt := now
  expiresAt := now.epochSecond + ttl

/-- The pipeline of `handle_agg`: the hash is set, the index gets its score, and the scores older
than the lifetime of the hashes are dropped from it. -/
def handleAgg (ttl : ℤ) (now : Instant) (r : Redis) (d : AggMinute) : Redis where
  hashes := upsert Prod.fst (aggKey d, .ofMessage ttl now d) r.hashes
  index := (upsert Prod.fst (aggKey d, (minuteKey d.windowStart).2) r.index).filter fun x =>
    !(0 ≤ x.2 && x.2 ≤ now.epochSecond - ttl)

/-- Writing a window leaves the keys of the hashes in place. -/
theorem mem_keys_handleAgg {ttl : ℤ} {now : Instant} {r : Redis} {d : AggMinute} {key : String} :
    key ∈ (handleAgg ttl now r d).hashes.map Prod.fst ↔
      key = aggKey d ∨ key ∈ r.hashes.map Prod.fst :=
  mem_keys_upsert

/-! ## Reading -/

/-- `ZRANGEBYSCORE agg:index`, both ends included, in the order of the scores. -/
def Redis.rangeByScore (r : Redis) (first last : ℤ) : List (String × ℤ) :=
  (r.index.filter fun x => first ≤ x.2 && x.2 ≤ last).insertionSort fun x y =>
    x.2 < y.2 ∨ (x.2 = y.2 ∧ x.1 ≤ y.1)

/-- `HGETALL`: nothing when the hash is not there or has expired. -/
def Redis.hgetall (r : Redis) (now : Instant) (key : String) : Option AggHash :=
  (entry key r.hashes).filter fun h => now.epochSecond < h.expiresAt

/-- `int(float(..))` of a count that Redis keeps as text: the double nearest to it, the even one of
two. A count is a 64-bit integer, far from the largest double. -/
def intFloat (n : ℕ) : ℕ :=
  let step := 2 ^ (n.log2 - 52)
  let q := n / step
  let r := n % step
  if step < 2 * r ∨ (2 * r = step ∧ q % 2 = 1) then (q + 1) * step else q * step

/-- Counts of up to 53 bits are doubles. -/
theorem intFloat_of_le {n : ℕ} (h : n ≤ 2 ^ 53) : intFloat n = n := by
  rcases Nat.lt_or_eq_of_le h with hlt | rfl
  · have hlog : n.log2 - 52 = 0 := by
      rcases Nat.eq_zero_or_pos n with rfl | hpos
      · rfl
      · have := (Nat.log2_lt hpos.ne').2 hlt
        omega
    simp only [intFloat, hlog, pow_zero, Nat.div_one, Nat.mod_one, Nat.mul_one]
    rw [if_neg (by omega)]
  · rfl

/-- The totals of a campaign in a summary. -/
structure CampaignSummary where
  impressions : ℕ
  clicks : ℕ
  completes : ℕ
  requests : ℕ
  ssaiDupes : ℕ
  minutes : ℕ
  advertiser : String
  campaignName : String
deriving DecidableEq

/-- `acc[f] += ..` for each counted field of a hash. -/
def CampaignSummary.add (h : AggHash) (acc : CampaignSummary) : CampaignSummary :=
  { acc with
    impressions := acc.impressions + intFloat h.impressions
    clicks := acc.clicks + intFloat h.clicks
    completes := acc.completes + intFloat h.completes
    requests := acc.requests + intFloat h.requests
    ssaiDupes := acc.ssaiDupes + intFloat h.ssaiDupes
    minutes := acc.minutes + 1 }

/-- The hashes of a range of seconds that name a campaign. -/
def Redis.windows (r : Redis) (now : Instant) (first last : ℤ) : List AggHash :=
  ((r.rangeByScore first last).filterMap fun x => r.hgetall now x.1).filter fun h =>
    h.campaignId ≠ ""

/-- `_sum_range`: the totals of each campaign over the hashes of a range of seconds. -/
def sumRange (r : Redis) (now : Instant) (first last : ℤ) : List (String × CampaignSummary) :=
  (r.windows now first last).foldl
    (fun out h => adjust ⟨0, 0, 0, 0, 0, 0, h.advertiser, h.campaignName⟩
      (CampaignSummary.add h) h.campaignId out) []

/-- The range of seconds of `/agg/summary?from=..&to=..`: from the minute of one to the second
before the minute of the other. -/
def summaryRange (first last : ℤ) : ℤ × ℤ := (first / 60 * 60, last / 60 * 60 - 1)

/-- The campaigns of `/agg/summary?from=..&to=..`. -/
def aggSummary (r : Redis) (now : Instant) (first last : ℤ) : List (String × CampaignSummary) :=
  sumRange r now (summaryRange first last).1 (summaryRange first last).2

end AdPipeline.RedisWriter
