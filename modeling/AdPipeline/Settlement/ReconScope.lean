import AdPipeline.Lib.Steps
import AdPipeline.Platform.DateTime
import AdPipeline.RedisWriter.Consumer
import AdPipeline.Settlement.Reconcile
import AdPipeline.Settlement.Retransmission

/-!
# The scope of a reconciliation

`main` of `reconcile.py` cuts `RECON_FROM` and `RECON_TO` to the minute and hands them on as epoch
seconds to `/agg/summary`, as bounds of `minute_ts` to the settled table and as bounds of
`event_time` to the dropped events. All of them mean the same minutes, consecutive scopes have no
minute in common and leave none out, and a day is the range of its minutes (`likeWithLike`).
-/

namespace AdPipeline.Settlement

open Lib AdPipeline.Stream AdPipeline.RedisWriter

/-! ## Reading the scope -/

section

-- `datetime.fromisoformat`, whose grammar grows from one Python to the next
variable (fromisoformat : String → Option DateTime)

/-- `parse_utc`. -/
def parseUtc (s : String) : Option DateTime := do
  let t ← fromisoformat s
  let t ← t.inUtc
  return t.cutToMinute

/-- The scope of `main`. A variable that is not set is like an empty one. -/
def mainScope (rFrom rTo : String) (dt : ℤ) : Option Scope :=
  if rFrom ≠ "" ∧ rTo ≠ "" then do
    let t0 ← parseUtc fromisoformat rFrom
    let t1 ← parseUtc fromisoformat rTo
    return .range t0.epochMillis t1.epochMillis
  else some (.day dt)

end

/-! ## The figures of a scope -/

/-- What `reconcile.py` reads. -/
structure Stores where
  redis : Redis
  now : Instant
  daily : List (GroupKey × DailySettlement)
  minutes : List (GroupKey × MinuteSettlement)
  lateDropped : List LateRow

/-- The tables of the settlement batch, next to Redis and the dropped events. -/
def stores (redis : Redis) (now : Instant) (ssaiPriority : List String) (rates : Rates)
    (archive : List ArchiveRow) (lateDropped : List LateRow) : Stores where
  redis := redis
  now := now
  daily := dailySettlement ssaiPriority rates archive
  minutes := minuteSettlement ssaiPriority archive
  lateDropped := lateDropped

/-- `fetch_realtime`: the impressions of `/agg/summary` between the epoch seconds of the scope,
which `int` cuts. -/
def fetchSummary (d : Stores) (scope : Scope) : List (String × ℕ) :=
  (aggSummary d.redis d.now (scope.t0.tdiv 1000) (scope.t1.tdiv 1000)).map fun x =>
    (x.1, x.2.impressions)

/-- The comparison of a campaign. -/
def reconcileIn (d : Stores) (scope : Scope) (c : String) : Reconciliation :=
  reconcile (fetchSummary d scope) (fetchBatch scope d.daily d.minutes)
    (fetchLateDropped scope d.lateDropped) c

/-- The figures that the comparison starts from. -/
inductive Column where
  | realtime
  | batch
  | raw
  | late

/-- A figure of a campaign in a scope. -/
def figure (d : Stores) (scope : Scope) (c : String) : Column → ℕ
  | .realtime => (entry c (fetchSummary d scope)).getD 0
  | .batch => ((entry c (fetchBatch scope d.daily d.minutes)).getD .zero).impressions
  | .raw => ((entry c (fetchBatch scope d.daily d.minutes)).getD .zero).rawImpressions
  | .late => (entry c (fetchLateDropped scope d.lateDropped)).getD 0

/-- A figure of a campaign in one minute: its windows that start the minute, its rows of
`minute_settlement` for the minute, and its dropped impressions within the minute. Windows and rows
without a campaign do not count. -/
def figureAt (d : Stores) (m : ℤ) (c : String) : Column → ℕ
  | .realtime =>
    (((d.redis.live d.now).filter fun h => h.campaignId ≠ "" &&
      (h.windowStart.toEpochMilli = m && h.campaignId = c)).map fun h => intFloat h.impressions).sum
  | .batch =>
    sumWhere (fun k => c ≠ "" ∧ k = (some m, some c)) MinuteSettlement.impressions d.minutes
  | .raw =>
    sumWhere (fun k => c ≠ "" ∧ k = (some m, some c)) MinuteSettlement.rawImpressions d.minutes
  | .late =>
    d.lateDropped.countP fun r =>
      (r.kind = .impression && r.campaignId = c) && floorToMinute r.eventTime = m

/-- The minutes of a range. -/
def minutesIn (t0 t1 : ℤ) : Finset ℤ := stepsIn minute t0 t1

/-- A variable is set to a text of this time, which has a UTC value. -/
structure Denotes (fromisoformat : String → Option DateTime) (s : String) (u : DateTime) :
    Prop where
  given : s ≠ ""
  reads : fromisoformat s = some u
  inYears : u.InYears

/-- Reconciliation compares figures of the same minutes. -/
structure LikeWithLike (d : Stores) : Prop where
  /-- Two times are the range from the minute of the one to the minute of the other, and every
  figure is made up of the minutes in between. -/
  sameMinutes : ∀ fromisoformat rFrom rTo dt u0 u1,
    Denotes fromisoformat rFrom u0 → Denotes fromisoformat rTo u1 →
      mainScope fromisoformat rFrom rTo dt =
        some (.range (floorToMinute u0.epochMillis) (floorToMinute u1.epochMillis)) ∧
      ∀ column c,
        figure d (.range (floorToMinute u0.epochMillis) (floorToMinute u1.epochMillis)) c column =
          ∑ m ∈ minutesIn (floorToMinute u0.epochMillis) (floorToMinute u1.epochMillis),
            figureAt d m c column
  /-- No other texts are a range. -/
  onlyTimes : ∀ fromisoformat rFrom rTo dt t0 t1,
    mainScope fromisoformat rFrom rTo dt = some (.range t0 t1) →
      ∃ u0 u1, Denotes fromisoformat rFrom u0 ∧ Denotes fromisoformat rTo u1 ∧
        t0 = floorToMinute u0.epochMillis ∧ t1 = floorToMinute u1.epochMillis
  /-- Two ranges one after the other have the minutes of the whole range between them and none in
  common, and their figures add up. -/
  consecutive : ∀ fromisoformat s0 s1 s1' s2 dt t0 t1 t2,
    mainScope fromisoformat s0 s1 dt = some (.range t0 t1) →
    mainScope fromisoformat s1' s2 dt = some (.range t1 t2) → t0 ≤ t1 → t1 ≤ t2 →
      mainScope fromisoformat s0 s2 dt = some (.range t0 t2) ∧
      Disjoint (minutesIn t0 t1) (minutesIn t1 t2) ∧
      minutesIn t0 t1 ∪ minutesIn t1 t2 = minutesIn t0 t2 ∧
      ∀ column c, figure d (.range t0 t1) c column + figure d (.range t1 t2) c column =
        figure d (.range t0 t2) c column
  /-- A day is the range of its minutes. -/
  sameDay : ∀ dt c, reconcileIn d (.day dt) c =
    reconcileIn d (.range (dt * 86400000) ((dt + 1) * 86400000)) c

/-! ## The minutes of a text -/

section

variable {fromisoformat : String → Option DateTime} {s : String} {u : DateTime}

/-- The UTC value of a time, cut to the minute. -/
theorem epochMillis_cutToMinute {v : DateTime} (h : u.inUtc = some v) :
    v.cutToMinute.epochMillis = floorToMinute u.epochMillis := by
  obtain ⟨hwall, hutc⟩ := DateTime.inUtc_eq_some h
  have hcut : v.cutToMinute.epochMicros = u.epochMicros - u.epochMicros % 60000000 := by
    rw [DateTime.epochMicros, DateTime.wall_cutToMinute, hwall]
    show _ - v.utcoffset.getD 0 = _
    rw [hutc, Option.getD_some, Int.sub_zero]
  rw [DateTime.epochMillis, DateTime.epochMillis, hcut, floorToMinute, minute]
  omega

/-- `parse_utc` reads the texts of times and gives their minute. -/
theorem Denotes.parseUtc (h : Denotes fromisoformat s u) :
    ∃ t, parseUtc fromisoformat s = some t ∧ t.epochMillis = floorToMinute u.epochMillis := by
  obtain ⟨v, hv⟩ := Option.isSome_iff_exists.1 (u.inUtc_isSome_iff.2 h.inYears)
  refine ⟨v.cutToMinute, ?_, epochMillis_cutToMinute hv⟩
  exact Option.bind_eq_some_iff.2 ⟨u, h.reads, Option.bind_eq_some_iff.2 ⟨v, hv, rfl⟩⟩

/-- It reads no other texts. -/
theorem denotes_of_parseUtc {t : DateTime} (hs : s ≠ "") (h : parseUtc fromisoformat s = some t) :
    ∃ u, Denotes fromisoformat s u ∧ t.epochMillis = floorToMinute u.epochMillis := by
  obtain ⟨u, hu, h⟩ := Option.bind_eq_some_iff.1 h
  obtain ⟨v, hv, h⟩ := Option.bind_eq_some_iff.1 h
  obtain rfl := Option.some.inj h
  have hyears : u.InYears := u.inUtc_isSome_iff.1 (by rw [hv, Option.isSome_some])
  exact ⟨u, ⟨hs, hu, hyears⟩, epochMillis_cutToMinute hv⟩

end

/-- A range was read from the texts of two times, and goes from one minute to another. -/
theorem mainScope_range_iff {fromisoformat : String → Option DateTime} {rFrom rTo : String}
    {dt t0 t1 : ℤ} : mainScope fromisoformat rFrom rTo dt = some (.range t0 t1) ↔
      ∃ u0 u1, Denotes fromisoformat rFrom u0 ∧ Denotes fromisoformat rTo u1 ∧
        t0 = floorToMinute u0.epochMillis ∧ t1 = floorToMinute u1.epochMillis := by
  constructor
  · intro h
    unfold mainScope at h
    split_ifs at h with hranged
    · obtain ⟨v0, hv0, h⟩ := Option.bind_eq_some_iff.1 h
      obtain ⟨v1, hv1, h⟩ := Option.bind_eq_some_iff.1 h
      obtain ⟨rfl, rfl⟩ := Scope.range.inj (Option.some.inj h)
      obtain ⟨u0, hu0, heq0⟩ := denotes_of_parseUtc hranged.1 hv0
      obtain ⟨u1, hu1, heq1⟩ := denotes_of_parseUtc hranged.2 hv1
      exact ⟨u0, u1, hu0, hu1, heq0, heq1⟩
    · cases Option.some.inj h
  · rintro ⟨u0, u1, hu0, hu1, rfl, rfl⟩
    obtain ⟨v0, hv0, heq0⟩ := hu0.parseUtc
    obtain ⟨v1, hv1, heq1⟩ := hu1.parseUtc
    rw [mainScope, if_pos ⟨hu0.given, hu1.given⟩, hv0, hv1, ← heq0, ← heq1]
    rfl

theorem aligned_of_mainScope {fromisoformat : String → Option DateTime} {rFrom rTo : String}
    {dt t0 t1 : ℤ} (h : mainScope fromisoformat rFrom rTo dt = some (.range t0 t1)) :
    t0 % minute = 0 ∧ t1 % minute = 0 := by
  obtain ⟨u0, u1, -, -, rfl, rfl⟩ := mainScope_range_iff.1 h
  exact ⟨floorToMinute_mod _, floorToMinute_mod _⟩

theorem aligned_day (dt : ℤ) : (Scope.day dt).Aligned := by
  unfold Scope.Aligned Scope.t0 Scope.t1 minute
  simp only
  omega

/-! ## A figure minute by minute -/

theorem mem_minutesIn {t0 t1 m : ℤ} : m ∈ minutesIn t0 t1 ↔ (t0 ≤ m ∧ m < t1) ∧ m % minute = 0 :=
  mem_stepsIn

/-- An instant is in a range exactly when its minute is one of the range. -/
theorem floorToMinute_mem_minutesIn {t0 t1 : ℤ} (h0 : t0 % minute = 0) (h1 : t1 % minute = 0)
    (t : ℤ) : floorToMinute t ∈ minutesIn t0 t1 ↔ (Scope.range t0 t1).contains t = true := by
  rw [mem_minutesIn, Scope.contains_iff]
  show _ ↔ t0 ≤ t ∧ t < t1
  rw [← floorToMinute_mem_iff h0 h1 t]
  exact and_iff_left (floorToMinute_mod t)

/-- A window is found by the seconds that the scope asks for exactly when it starts in the scope. -/
theorem window_mem_iff {t0 t1 : ℤ} (h0 : t0 % minute = 0) (h1 : t1 % minute = 0) {t : Instant}
    (ht : IsMinute t) :
    ((summaryRange (t0.tdiv 1000) (t1.tdiv 1000)).1 ≤ t.nanos.tdiv 1000000000 ∧
      t.nanos.tdiv 1000000000 ≤ (summaryRange (t0.tdiv 1000) (t1.tdiv 1000)).2) ↔
        t.toEpochMilli ∈ minutesIn t0 t1 := by
  unfold IsMinute at ht
  rw [mem_minutesIn]
  unfold minute at *
  have hd0 : t0.tdiv 1000 = t0 / 1000 := Int.tdiv_eq_ediv_of_dvd (by omega)
  have hd1 : t1.tdiv 1000 = t1 / 1000 := Int.tdiv_eq_ediv_of_dvd (by omega)
  have hd : t.nanos.tdiv 1000000000 = t.nanos / 1000000000 := Int.tdiv_eq_ediv_of_dvd (by omega)
  rw [hd0, hd1, hd]
  simp only [summaryRange, Instant.toEpochMilli]
  omega

/-- The realtime figure adds up the windows of each minute. -/
theorem figure_realtime {d : Stores} (hd : Indexed d.redis) {t0 t1 : ℤ} (h0 : t0 % minute = 0)
    (h1 : t1 % minute = 0) (c : String) :
    figure d (.range t0 t1) c .realtime =
      ∑ m ∈ minutesIn t0 t1, figureAt d m c .realtime := by
  have hsum : figure d (.range t0 t1) c .realtime =
      (((d.redis.live d.now).filter fun h =>
        (if h.campaignId ≠ "" ∧ h.campaignId = c then some h.windowStart.toEpochMilli
          else none).any fun m => m ∈ minutesIn t0 t1).map
            fun h => intFloat h.impressions).sum := by
    rw [figure, fetchSummary, entry_map, aggSummary,
      entry_sumRange (fun _ _ => rfl) (fun _ _ => rfl) c]
    refine ((((perm_windows hd).filter _).map _).sum_eq).trans ?_
    rw [List.filter_filter]
    congr 2
    apply List.filter_congr
    intro h hh
    have hin : (decide ((summaryRange (t0.tdiv 1000) (t1.tdiv 1000)).1 ≤
        h.windowStart.nanos.tdiv 1000000000) && decide (h.windowStart.nanos.tdiv 1000000000 ≤
        (summaryRange (t0.tdiv 1000) (t1.tdiv 1000)).2)) =
          decide (h.windowStart.toEpochMilli ∈ minutesIn t0 t1) := by
      rw [← Bool.decide_and]
      exact decide_eq_decide.2 (window_mem_iff h0 h1 (isMinute_of_mem_live hd hh))
    refine (congrArg (fun b => decide (h.campaignId = c) && (decide (h.campaignId ≠ "") && b))
      hin).trans ?_
    by_cases hcamp : h.campaignId = c
    · by_cases hempty : c = "" <;> simp [hcamp, hempty]
    · simp [hcamp]
  rw [hsum, ← sum_sum_filter_key]
  refine Finset.sum_congr rfl fun m _ => ?_
  rw [figureAt]
  congr 2
  apply List.filter_congr
  intro h _
  by_cases hcamp : h.campaignId = c
  · by_cases hempty : c = "" <;> simp [hcamp, hempty]
  · simp [hcamp]

section

variable {ssaiPriority : List String} {rates : Rates} {archive : List ArchiveRow}
variable {d : Stores} {t0 t1 : ℤ} {c : String}

/-- The rows of a scope, minute by minute. -/
theorem countP_rowInScope (rows : List ArchiveRow) (h0 : t0 % minute = 0) (h1 : t1 % minute = 0) :
    rows.countP (rowInScope (.range t0 t1) c) =
      ∑ m ∈ minutesIn t0 t1, rows.countP fun r => minuteKey r = (some m, some c) := by
  have hkey : ∀ m (r : ArchiveRow), decide (minuteKey r = (some m, some c)) =
      decide ((if r.campaignId = some c then r.eventTime.map floorToMinute else none) =
        some m) := by
    intro m r
    by_cases hcamp : r.campaignId = some c <;> simp [minuteKey, hcamp]
  simp only [hkey]
  rw [sum_countP_key]
  apply List.countP_congr
  intro r _
  by_cases hcamp : r.campaignId = some c
  · rw [rowInScope, hcamp, if_pos rfl, Option.any_map]
    simp [floorToMinute_mem_minutesIn h0 h1]
  · simp [rowInScope, hcamp]

/-- The figures of the settled table add up its rows of each minute. -/
theorem figure_settled (hminutes : d.minutes = minuteSettlement ssaiPriority archive)
    (hdaily : d.daily = dailySettlement ssaiPriority rates archive) (h0 : t0 % minute = 0)
    (h1 : t1 % minute = 0) :
    figure d (.range t0 t1) c .batch = ∑ m ∈ minutesIn t0 t1, figureAt d m c .batch ∧
      figure d (.range t0 t1) c .raw = ∑ m ∈ minutesIn t0 t1, figureAt d m c .raw := by
  by_cases hc : c = ""
  · -- neither the scope nor its minutes have an empty campaign
    subst hc
    have hnone : ∀ f, sumWhere (fun _ => false) f d.minutes = 0 :=
      fun f => sumWhere_zero fun _ _ h => absurd h Bool.false_ne_true
    simp only [figure, figureAt, fetchBatch, entry_campaignEntries_empty, Option.getD_none,
      ne_eq, not_true_eq_false, false_and, decide_false, hnone, Finset.sum_const_zero]
    exact ⟨rfl, rfl⟩
  have haligned : (Scope.range t0 t1).Aligned := ⟨h0, h1⟩
  have hrows : (entry c (fetchBatch (.range t0 t1) d.daily d.minutes)).getD .zero =
      ⟨(imp ssaiPriority archive).countP (rowInScope (.range t0 t1) c),
        (impAll archive).countP (rowInScope (.range t0 t1) c)⟩ := by
    rw [hminutes, hdaily, entry_fetchBatch haligned hc]
  constructor
  · rw [figure, hrows]
    refine (countP_rowInScope _ h0 h1).trans (Finset.sum_congr rfl fun m _ => ?_)
    simp only [figureAt, ne_eq, hc, not_false_eq_true, true_and]
    rw [hminutes, sumWhere_minute_impressions]
  · rw [figure, hrows]
    refine (countP_rowInScope _ h0 h1).trans (Finset.sum_congr rfl fun m _ => ?_)
    simp only [figureAt, ne_eq, hc, not_false_eq_true, true_and]
    rw [hminutes, sumWhere_minute_rawImpressions]

/-- The late figure adds up the dropped impressions of each minute. -/
theorem figure_late (h0 : t0 % minute = 0) (h1 : t1 % minute = 0) :
    figure d (.range t0 t1) c .late = ∑ m ∈ minutesIn t0 t1, figureAt d m c .late := by
  have hkey : ∀ m (r : LateRow), ((decide (r.kind = .impression) && decide (r.campaignId = c)) &&
        decide (floorToMinute r.eventTime = m)) =
      decide ((if r.kind = .impression ∧ r.campaignId = c then some (floorToMinute r.eventTime)
        else none) = some m) := by
    intro m r
    by_cases hkind : r.kind = .impression <;> by_cases hcamp : r.campaignId = c <;>
      simp [hkind, hcamp]
  simp only [figureAt, hkey]
  rw [sum_countP_key, figure, entry_fetchLateDropped]
  apply List.countP_congr
  intro r _
  by_cases hkind : r.kind = .impression <;> by_cases hcamp : r.campaignId = c <;>
    simp [hkind, hcamp, floorToMinute_mem_minutesIn h0 h1]

/-- Every figure of a range adds up its minutes. -/
theorem figure_range (hredis : Indexed d.redis)
    (hminutes : d.minutes = minuteSettlement ssaiPriority archive)
    (hdaily : d.daily = dailySettlement ssaiPriority rates archive) (h0 : t0 % minute = 0)
    (h1 : t1 % minute = 0) (column : Column) :
    figure d (.range t0 t1) c column = ∑ m ∈ minutesIn t0 t1, figureAt d m c column := by
  obtain ⟨hbatch, hraw⟩ := figure_settled hminutes hdaily h0 h1
  cases column with
  | realtime => exact figure_realtime hredis h0 h1 c
  | batch => exact hbatch
  | raw => exact hraw
  | late => exact figure_late h0 h1

end

/-! ## Days -/

/-- A day and the range of its minutes contain the same instants. -/
theorem contains_day (dt : ℤ) :
    (Scope.day dt).contains = (Scope.range (dt * 86400000) ((dt + 1) * 86400000)).contains := by
  funext t
  rw [Bool.eq_iff_iff, Scope.contains_iff, Scope.contains_iff]
  simp only [Scope.t0, Scope.t1]
  omega

/-- The entries of a collected table are the same on a day and in the range of its minutes. -/
theorem entry_fetchBatch_day_eq_range (ssaiPriority : List String) (rates : Rates)
    (archive : List ArchiveRow) (dt : ℤ) (c : String) :
    (entry c (fetchBatch (.day dt) (dailySettlement ssaiPriority rates archive)
        (minuteSettlement ssaiPriority archive))).getD .zero =
      (entry c (fetchBatch (.range (dt * 86400000) ((dt + 1) * 86400000))
        (dailySettlement ssaiPriority rates archive)
        (minuteSettlement ssaiPriority archive))).getD .zero := by
  by_cases hc : c = ""
  · subst hc
    rw [fetchBatch, fetchBatch, entry_campaignEntries_empty, entry_campaignEntries_empty]
  · have haligned : (Scope.range (dt * 86400000) ((dt + 1) * 86400000)).Aligned := by
      unfold Scope.Aligned Scope.t0 Scope.t1 minute
      simp only
      omega
    have hrow : rowInScope (.day dt) c =
        rowInScope (.range (dt * 86400000) ((dt + 1) * 86400000)) c := by
      funext r
      rw [rowInScope, rowInScope, contains_day]
    rw [entry_fetchBatch (aligned_day dt) hc, entry_fetchBatch haligned hc, hrow]

/-- Reconciliation compares like with like: the realtime windows of a Redis to which the writer
wrote one-minute windows, the tables that the batch makes of any archive, and any dropped events. -/
theorem likeWithLike {ttl : ℤ} {redis : Redis} (hredis : Written ttl redis) (now : Instant)
    (ssaiPriority : List String) (rates : Rates) (archive : List ArchiveRow)
    (lateDropped : List LateRow) :
    LikeWithLike (stores redis now ssaiPriority rates archive lateDropped) := by
  have hindexed : Indexed (stores redis now ssaiPriority rates archive lateDropped).redis :=
    indexed_of_written hredis
  have hminutes : (stores redis now ssaiPriority rates archive lateDropped).minutes =
      minuteSettlement ssaiPriority archive := by simp only [stores]
  have hdaily : (stores redis now ssaiPriority rates archive lateDropped).daily =
      dailySettlement ssaiPriority rates archive := by simp only [stores]
  constructor
  · intro fromisoformat rFrom rTo dt u0 u1 hu0 hu1
    exact ⟨mainScope_range_iff.2 ⟨u0, u1, hu0, hu1, rfl, rfl⟩, fun column c =>
      figure_range hindexed hminutes hdaily (floorToMinute_mod _) (floorToMinute_mod _) column⟩
  · intro fromisoformat rFrom rTo dt t0 t1 hscope
    exact mainScope_range_iff.1 hscope
  · intro fromisoformat s0 s1 s1' s2 dt t0 t1 t2 hfirst hsecond h01 h12
    obtain ⟨h0, h1⟩ := aligned_of_mainScope hfirst
    obtain ⟨-, h2⟩ := aligned_of_mainScope hsecond
    obtain ⟨u0, u1, hu0, -, rfl, rfl⟩ := mainScope_range_iff.1 hfirst
    obtain ⟨u1', u2, -, hu2, -, rfl⟩ := mainScope_range_iff.1 hsecond
    refine ⟨mainScope_range_iff.2 ⟨u0, u2, hu0, hu2, rfl, rfl⟩, disjoint_stepsIn minute _ _ _,
      stepsIn_union h01 h12, fun column c => ?_⟩
    rw [figure_range hindexed hminutes hdaily h0 h1 column,
      figure_range hindexed hminutes hdaily h1 h2 column,
      figure_range hindexed hminutes hdaily h0 h2 column]
    exact sum_stepsIn_consecutive _ h01 h12
  · intro dt c
    have hend : (Scope.day dt).t1 = (Scope.range (dt * 86400000) ((dt + 1) * 86400000)).t1 := by
      simp only [Scope.t1]
      omega
    have hsummary : ∀ d, fetchSummary d (.day dt) =
        fetchSummary d (.range (dt * 86400000) ((dt + 1) * 86400000)) := by
      intro d
      rw [fetchSummary, hend]
      rfl
    have hlate : fetchLateDropped (.day dt) lateDropped =
        fetchLateDropped (.range (dt * 86400000) ((dt + 1) * 86400000)) lateDropped := by
      rw [fetchLateDropped, contains_day]
      rfl
    have hbatch := entry_fetchBatch_day_eq_range ssaiPriority rates archive dt c
    simp only [reconcileIn, reconcile, stores, hsummary, hlate, hbatch]

/-- A window of three impressions, of which the archive has one. -/
def sampleStores : Stores :=
  stores (handleAgg 172800 ⟨0⟩ .empty Consumer.sampleMinute) ⟨0⟩ ["server", "client"] noRates
    [impressionRow "e1" (some "a1") "cmp-1" "client"] []

/-- The consumer has written the window. -/
theorem written_sampleStores : Written 172800 sampleStores.redis := by
  have h0 : (Consumer.consumer Unit 172800).Reaches Consumer.OneMinute Consumer.start := .init
  have h1 := h0.take (.produce () (.aggMinute Consumer.sampleMinute))
    (show IsMinute Consumer.sampleMinute.windowStart by decide) rfl
  have h2 := h1.take (.poll ()) trivial rfl
  have h3 := h2.take (.handle .executed ⟨0⟩) trivial rfl
  exact Consumer.written_of_oneMinute h3

/-- The range between a time with a fraction and an offset and one with seconds is the first minute
of 1970, in which the window is. -/
theorem likeWithLike_sample :
    mainScope DateTime.fromisoformat "1970-01-01T09:00:15.250+09:00" "1970-01-01T00:01:59" 7 =
      some (.range 0 60000) ∧
    figure sampleStores (.range 0 60000) "cmp-1" .realtime = 3 ∧
    figure sampleStores (.range 0 60000) "cmp-1" .batch = 1 ∧
    figure sampleStores (.day 0) "cmp-1" .batch = 1 ∧ LikeWithLike sampleStores := by
  have hlike : LikeWithLike sampleStores := likeWithLike written_sampleStores ⟨0⟩
    ["server", "client"] noRates [impressionRow "e1" (some "a1") "cmp-1" "client"] []
  obtain ⟨u0, hu0, hfloor0⟩ : ∃ u,
      Denotes DateTime.fromisoformat "1970-01-01T09:00:15.250+09:00" u ∧
        floorToMinute u.epochMillis = 0 := ⟨_, ⟨by decide, rfl, by decide⟩, by decide⟩
  obtain ⟨u1, hu1, hfloor1⟩ : ∃ u, Denotes DateTime.fromisoformat "1970-01-01T00:01:59" u ∧
      floorToMinute u.epochMillis = 60000 := ⟨_, ⟨by decide, rfl, by decide⟩, by decide⟩
  have hscope := (hlike.sameMinutes _ _ _ 7 u0 u1 hu0 hu1).1
  rw [hfloor0, hfloor1] at hscope
  exact ⟨hscope, by decide, by decide, by decide, hlike⟩

end AdPipeline.Settlement
