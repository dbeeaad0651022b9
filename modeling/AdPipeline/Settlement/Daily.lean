import AdPipeline.Settlement.Retransmission

/-!
# The daily table against the minute table

`daily_settlement` row by row: its joins start from the raw impressions and look up every other
count, so a day and campaign has its row, with the counts of that day, exactly when it has a
deduplicated impression (`complete_iff`). The minute table is joined with `full_outer` and has all
the counts.
-/

namespace AdPipeline.Settlement

open Collector Lib AdPipeline.Stream

variable (ssaiPriority : List String) (rates : Rates) (archive : List ArchiveRow)

/-! ## The daily table in closed form -/

/-- The rows of a key, as a join with their counts sees them: none when the key has a null. -/
def joinedCount (k : GroupKey) (rows : List ArchiveRow) : ℕ :=
  if keyed k then rows.countP fun r => dayKey r = k else 0

/-- The row of `final` of a day and campaign. -/
def dayRow (k : GroupKey) : DailySettlement :=
  let rawImpressions := (impAll archive).countP fun r => dayKey r = k
  let impressions := joinedCount k (imp ssaiPriority archive)
  let impRowsRaw := joinedCount k
    (((raw archive).filter isImpression).filter fun r => r.campaignId.isSome)
  let cpm := (k.2.bind rates.cpm).getD 0
  { requests := joinedCount k ((dedup archive).filter isRequest)
    impressions := impressions
    clicks := joinedCount k ((dedup archive).filter isClick)
    completes := joinedCount k ((dedup archive).filter isComplete)
    rawImpressions := rawImpressions
    dupesRemoved := impRowsRaw - rawImpressions
    lateImpressions := joinedCount k
      ((imp ssaiPriority archive).filter fun r => r.late = some true)
    cpm := cpm
    amount := rates.amount impressions cpm }

/-- A count looked up in the aggregate of some rows, null as zero. -/
theorem matched_countBy_getD (k : GroupKey) (rows : List ArchiveRow) :
    (matched keyed (countBy dayKey rows) k).getD 0 = joinedCount k rows := by
  rw [matched, joinedCount]
  split_ifs with hk
  · exact entry_countBy_getD dayKey rows k
  · rfl

/-- `daily_settlement`: the days and campaigns of `imp_all`, each with its counts. -/
theorem dailySettlement_eq :
    dailySettlement ssaiPriority rates archive =
      ((impAll archive).map dayKey).dedup.map
        fun k => (k, dayRow ssaiPriority rates archive k) := by
  rw [dailySettlement, agg]
  rw [leftJoin_eq_map (KeyUnique.countBy _ _), leftJoin_eq_map (KeyUnique.countBy _ _),
    leftJoin_eq_map (KeyUnique.countBy _ _), leftJoin_eq_map (KeyUnique.countBy _ _),
    leftJoin_eq_map (KeyUnique.countBy _ _), leftJoin_eq_map (KeyUnique.countBy _ _),
    rawImpAgg, countBy_eq dayKey (impAll archive)]
  simp only [List.map_map]
  apply List.map_congr_left
  intro k _
  simp only [Function.comp_apply, finalRow, dayRow, DayColumns.setLateImpressions,
    DayColumns.setImpRowsRaw, DayColumns.setRequests, DayColumns.setCompletes,
    DayColumns.setClicks, DayColumns.setImpressions, DayColumns.ofRaw, matched_countBy_getD]

/-! ## Complete days -/

/-- The day of a minute, with its campaign. -/
def dayOf (k : GroupKey) : GroupKey := (k.1.map (· / 86400000), k.2)

/-- The total of a column of `minute_settlement` over the minutes of a day. -/
def minutesOfDay (k : GroupKey) (f : MinuteSettlement → ℕ) : ℕ :=
  sumWhere (fun m => dayOf m = k) f (minuteSettlement ssaiPriority archive)

/-- The day and campaign have a deduplicated impression, click, completed quartile or filled
response. -/
def Active (k : GroupKey) : Prop :=
  ∃ r ∈ dedup archive, dayKey r = k ∧
    (isImpression r || isClick r || isComplete r || isRequest r) = true

/-- The columns of a row are the counts of the day and campaign. -/
structure Counted (k : GroupKey) (row : DailySettlement) : Prop where
  requests : row.requests = (dedup archive).countP fun r => isRequest r && dayKey r = k
  clicks : row.clicks = (dedup archive).countP fun r => isClick r && dayKey r = k
  completes : row.completes = (dedup archive).countP fun r => isComplete r && dayKey r = k
  impressions : row.impressions = (imp ssaiPriority archive).countP fun r => dayKey r = k
  rawImpressions :
    row.rawImpressions = (dedup archive).countP fun r => isImpression r && dayKey r = k

/-- The columns of a row are the totals over the minutes of the day. -/
structure SumOfMinutes (k : GroupKey) (row : DailySettlement) : Prop where
  requests : row.requests = minutesOfDay ssaiPriority archive k MinuteSettlement.requests
  clicks : row.clicks = minutesOfDay ssaiPriority archive k MinuteSettlement.clicks
  completes : row.completes = minutesOfDay ssaiPriority archive k MinuteSettlement.completes
  impressions : row.impressions = minutesOfDay ssaiPriority archive k MinuteSettlement.impressions
  rawImpressions :
    row.rawImpressions = minutesOfDay ssaiPriority archive k MinuteSettlement.rawImpressions

/-- The day and campaign has one row, with its counts. -/
def SettledOnce (k : GroupKey) : Prop :=
  ∃ row, (dailySettlement ssaiPriority rates archive).filter (fun x => x.1 = k) = [(k, row)] ∧
    Counted ssaiPriority archive k row ∧ SumOfMinutes ssaiPriority archive k row

/-- Every day and campaign with activity has its row. -/
def Complete : Prop :=
  ∀ d c, Active archive (some d, some c) →
    SettledOnce ssaiPriority rates archive (some d, some c)

variable {ssaiPriority rates archive}

theorem dayOf_minuteKey (r : ArchiveRow) : dayOf (minuteKey r) = dayKey r := by
  have hday : ∀ t : ℤ, floorToMinute t / 86400000 = t / 86400000 := by
    intro t
    unfold floorToMinute minute
    omega
  rw [dayOf, minuteKey, dayKey, Option.map_map]
  congr 2
  funext t
  exact hday t

theorem countP_filter_dayKey (q : ArchiveRow → Bool) (k : GroupKey) (rows : List ArchiveRow) :
    (rows.filter q).countP (fun r => dayKey r = k) = rows.countP fun r => q r && dayKey r = k := by
  rw [List.countP_filter]
  apply List.countP_congr
  intro r _
  rw [Bool.and_comm]

/-- The row of a day and campaign without nulls holds its counts. -/
theorem counted_dayRow {k : GroupKey} (hk : keyed k = true) :
    Counted ssaiPriority archive k (dayRow ssaiPriority rates archive k) := by
  constructor <;> simp only [dayRow, joinedCount, if_pos hk, impAll, countP_filter_dayKey]

/-- The minutes of a day have the same counts together. -/
theorem sumOfMinutes_of_counted {k : GroupKey} {row : DailySettlement}
    (h : Counted ssaiPriority archive k row) : SumOfMinutes ssaiPriority archive k row := by
  constructor
  · rw [h.requests, minutesOfDay, sumWhere_minute_requests, ← countP_filter_dayKey]
    simp only [dayOf_minuteKey]
  · rw [h.clicks, minutesOfDay, sumWhere_minute_clicks, ← countP_filter_dayKey]
    simp only [dayOf_minuteKey]
  · rw [h.completes, minutesOfDay, sumWhere_minute_completes, ← countP_filter_dayKey]
    simp only [dayOf_minuteKey]
  · rw [h.impressions, minutesOfDay, sumWhere_minute_impressions]
    simp only [dayOf_minuteKey]
  · rw [h.rawImpressions, minutesOfDay, sumWhere_minute_rawImpressions, ← countP_filter_dayKey]
    simp only [dayOf_minuteKey]
    rfl

/-- The rows of a key in a table with one row for each of some keys. -/
theorem filter_key_map {α : Type*} {ks : List GroupKey} (hnodup : ks.Nodup) {k : GroupKey}
    (hk : k ∈ ks) (f : GroupKey → α) :
    (ks.map fun k' => (k', f k')).filter (fun x => x.1 = k) = [(k, f k)] := by
  rw [List.filter_map]
  have hcomp : ((fun x : GroupKey × α => decide (x.1 = k)) ∘ fun k' => (k', f k')) =
      fun k' => k' == k := by
    funext k'
    rw [Bool.beq_eq_decide_eq]
    rfl
  rw [hcomp, List.filter_beq, List.count_eq_one_of_mem hnodup hk]
  rfl

/-- A day and campaign without nulls has its row exactly when it has a deduplicated impression. -/
theorem settledOnce_iff {k : GroupKey} (hk : keyed k = true) :
    SettledOnce ssaiPriority rates archive k ↔ ∃ r ∈ impAll archive, dayKey r = k := by
  constructor
  · rintro ⟨row, hrow, -, -⟩
    have hmem : (k, row) ∈ dailySettlement ssaiPriority rates archive := by
      refine List.mem_of_mem_filter (p := fun x => decide (x.1 = k)) ?_
      rw [hrow]
      exact List.mem_singleton_self _
    exact List.mem_map.1 (mem_keys_dailySettlement.1 (List.mem_map_of_mem hmem))
  · rintro ⟨r, hr, rfl⟩
    have hmem : dayKey r ∈ ((impAll archive).map dayKey).dedup :=
      List.mem_dedup.2 (List.mem_map_of_mem hr)
    have hcounted : Counted ssaiPriority archive (dayKey r)
        (dayRow ssaiPriority rates archive (dayKey r)) := counted_dayRow hk
    refine ⟨dayRow ssaiPriority rates archive (dayKey r), ?_, hcounted,
      sumOfMinutes_of_counted hcounted⟩
    rw [dailySettlement_eq]
    exact filter_key_map (List.nodup_dedup _) hmem _

/-- The daily table is complete exactly when every day and campaign with activity has a deduplicated
impression. -/
theorem complete_iff :
    Complete ssaiPriority rates archive ↔
      ∀ d c, Active archive (some d, some c) →
        ∃ r ∈ impAll archive, dayKey r = (some d, some c) := by
  constructor
  · intro h d c hactive
    exact (settledOnce_iff rfl).1 (h d c hactive)
  · intro h d c hactive
    exact (settledOnce_iff rfl).2 (h d c hactive)

/-- A filled response of the first day of 1970. -/
def filledRow : ArchiveRow :=
  archiveRow .request
    { eventId := some "e1", eventType := some "ad_response", campaignId := some "c1",
      adRequestId := some "a1", quartile := none, source := some "server", ssaiTwinOf := none,
      fill := some true, late := none, eventTime := some 0 }

/-- A campaign whose ads were all filled and never rendered: the minute table has its request, the
daily table no row. -/
theorem unrendered_campaign_missing :
    filledRow.eventTime.isSome = true ∧
    Active [filledRow] (some 0, some "c1") ∧
    minutesOfDay ["server", "client"] [filledRow] (some 0, some "c1")
      MinuteSettlement.requests = 1 ∧
    dailySettlement ["server", "client"] noRates [filledRow] = [] ∧
    ¬ Complete ["server", "client"] noRates [filledRow] := by
  have hactive : Active [filledRow] (some 0, some "c1") :=
    ⟨filledRow, by decide, by decide, by decide⟩
  have hempty : dailySettlement ["server", "client"] noRates [filledRow] = [] := rfl
  refine ⟨rfl, hactive, by decide, hempty, ?_⟩
  intro h
  obtain ⟨row, hrow, -⟩ := h 0 "c1" hactive
  rw [hempty] at hrow
  cases hrow

end AdPipeline.Settlement
