import AdPipeline.Lib.Join
import AdPipeline.Stream.Tables
import Mathlib.Algebra.Order.Field.Rat

/-!
# The settlement batch

`batch_settlement.py` on the archived rows: deduplication by `event_id` over the whole archive, the
SSAI merge by `ad_request_id`, and the daily and per-minute aggregates. A table is a list in the
order Spark happens to see its rows. Comparisons are SQL's, so that a filter drops the rows on which
its condition is null. Times are epoch milliseconds, `dt_date` is a day number.
-/

namespace AdPipeline.Settlement

open Collector Lib AdPipeline.Stream

/-! ## The archive -/

/-- A row of `events_archive`. -/
structure ArchiveRow extends EventRow where
  sourceTopic : String
deriving DecidableEq

/-- The archive job's insert for a topic: only `ad.request` has the column `fill`. -/
def archiveRow (topic : Topic) (r : EventRow) : ArchiveRow :=
  { r with fill := if topic = .request then r.fill else none, sourceTopic := topic.name }

/-! ## Orders -/

/-- `asc_nulls_last`. -/
def ltNullsLast {α : Type*} [LT α] [DecidableRel (α := α) (· < ·)] : Option α → Option α → Bool
  | some a, some b => a < b
  | some _, none => true
  | none, _ => false

/-- `asc`, with nulls first. -/
def ltNullsFirst {α : Type*} [LT α] [DecidableRel (α := α) (· < ·)] : Option α → Option α → Bool
  | some a, some b => a < b
  | none, some _ => true
  | _, none => false

/-- `w_evt`: earliest `event_time` first, then `source_topic`. -/
def eventOrder (r r' : ArchiveRow) : Bool :=
  ltNullsLast r.eventTime r'.eventTime ||
    (r.eventTime = r'.eventTime && r.sourceTopic < r'.sourceTopic)

/-! ## Deduplication -/

/-- The rows with an `event_id`. -/
def raw (archive : List ArchiveRow) : List ArchiveRow := archive.filter fun r => r.eventId.isSome

/-- `dedup`: one row of each `event_id`. -/
def dedup (archive : List ArchiveRow) : List ArchiveRow :=
  rowNumberOne (fun r => r.eventId) eventOrder (raw archive)

/-! ## Classification of rows -/

/-- `NON_CAMPAIGN`. -/
def nonCampaign : List String := ["none", "nofill", "pending"]

/-- `~campaign_id.isin(NON_CAMPAIGN)`, which is null on a null campaign. -/
def inCampaign (r : ArchiveRow) : Bool := r.campaignId.any fun c => c ∉ nonCampaign

/-- The filter of `imp_all`. -/
def isImpression (r : ArchiveRow) : Bool := r.eventType = some "impression" && inCampaign r

/-- The filter of `base`. -/
def inBase (r : ArchiveRow) : Bool := inCampaign r && r.campaignId.isSome

/-- The filter of `clicks`, with that of `base`. -/
def isClick (r : ArchiveRow) : Bool := inBase r && r.eventType = some "click"

/-- The filter of `completes`. -/
def isComplete (r : ArchiveRow) : Bool :=
  inBase r && (r.eventType = some "quartile" && r.quartile = some "complete")

/-- The filter of `requests`. -/
def isRequest (r : ArchiveRow) : Bool :=
  inBase r && (r.eventType = some "ad_response" && r.fill = some true)

/-! ## The SSAI merge -/

section

variable (ssaiPriority : List String)

/-- `prio`: the loop over the reversed list wraps each entry's `when` around the ones before it. -/
def prio (source : Option String) : ℕ :=
  ssaiPriority.reverse.zipIdx.foldl
    (fun otherwise x =>
      if source = some (Text.strip x.1) then ssaiPriority.length - 1 - x.2 else otherwise)
    (ssaiPriority.length + 1)

/-- `coalesce(ad_request_id, event_id)`. -/
def grp (r : ArchiveRow) : Option String := r.adRequestId <|> r.eventId

/-- `w_ssai`: by priority of the source, then `event_time`, then `event_id`. -/
def ssaiOrder (r r' : ArchiveRow) : Bool :=
  prio ssaiPriority r.source < prio ssaiPriority r'.source ||
    (prio ssaiPriority r.source = prio ssaiPriority r'.source &&
      (ltNullsLast r.eventTime r'.eventTime ||
        (r.eventTime = r'.eventTime && ltNullsFirst r.eventId r'.eventId)))

/-- `imp_all`. -/
def impAll (archive : List ArchiveRow) : List ArchiveRow := (dedup archive).filter isImpression

/-- `imp`: one impression of each group. -/
def imp (archive : List ArchiveRow) : List ArchiveRow :=
  rowNumberOne grp (ssaiOrder ssaiPriority) (impAll archive)

/-! ## Daily aggregates -/

/-- A day number or the start of a minute, with a campaign. -/
abbrev GroupKey := Option ℤ × Option String

/-- A key without nulls. -/
def keyed (k : GroupKey) : Bool := k.1.isSome && k.2.isSome

/-- `dt_date` and campaign. -/
def dayKey (r : ArchiveRow) : GroupKey := (r.eventTime.map (· / 86400000), r.campaignId)

/-- `date_trunc("minute")` and campaign. -/
def minuteKey (r : ArchiveRow) : GroupKey := (r.eventTime.map floorToMinute, r.campaignId)

/-- A row of `agg` before `fillna`. -/
structure DayColumns where
  rawImpressions : ℕ
  impressions : Option ℕ
  clicks : Option ℕ
  completes : Option ℕ
  requests : Option ℕ
  impRowsRaw : Option ℕ
  lateImpressions : Option ℕ

/-- A row before anything is joined to it. -/
def DayColumns.ofRaw (n : ℕ) : DayColumns := ⟨n, none, none, none, none, none, none⟩

namespace DayColumns

/-! The joined counts, null where the join finds none. -/

def setImpressions (row : DayColumns) (n : Option ℕ) : DayColumns := { row with impressions := n }

def setClicks (row : DayColumns) (n : Option ℕ) : DayColumns := { row with clicks := n }

def setCompletes (row : DayColumns) (n : Option ℕ) : DayColumns := { row with completes := n }

def setRequests (row : DayColumns) (n : Option ℕ) : DayColumns := { row with requests := n }

def setImpRowsRaw (row : DayColumns) (n : Option ℕ) : DayColumns := { row with impRowsRaw := n }

def setLateImpressions (row : DayColumns) (n : Option ℕ) : DayColumns :=
  { row with lateImpressions := n }

end DayColumns

/-- The columns of `daily_settlement` next to its key. -/
structure DailySettlement where
  requests : ℕ
  impressions : ℕ
  clicks : ℕ
  completes : ℕ
  rawImpressions : ℕ
  dupesRemoved : ℤ
  lateImpressions : ℕ
  cpm : ℚ
  amount : ℚ
deriving DecidableEq

/-- `raw_imp_agg`. -/
def rawImpAgg (archive : List ArchiveRow) : List (GroupKey × DayColumns) :=
  (countBy dayKey (impAll archive)).map fun x => (x.1, .ofRaw x.2)

/-- `agg`: the raw impressions of each day and campaign, with the other counts joined to them. -/
def agg (archive : List ArchiveRow) : List (GroupKey × DayColumns) :=
  let impAgg := countBy dayKey (imp ssaiPriority archive)
  let clicks := countBy dayKey ((dedup archive).filter isClick)
  let completes := countBy dayKey ((dedup archive).filter isComplete)
  let requests := countBy dayKey ((dedup archive).filter isRequest)
  let impRawRows := countBy dayKey
    (((raw archive).filter isImpression).filter fun r => r.campaignId.isSome)
  let lateImp := countBy dayKey ((imp ssaiPriority archive).filter fun r => r.late = some true)
  let t := rawImpAgg archive
  let t := leftJoin keyed DayColumns.setImpressions t impAgg
  let t := leftJoin keyed DayColumns.setClicks t clicks
  let t := leftJoin keyed DayColumns.setCompletes t completes
  let t := leftJoin keyed DayColumns.setRequests t requests
  let t := leftJoin keyed DayColumns.setImpRowsRaw t impRawRows
  leftJoin keyed DayColumns.setLateImpressions t lateImp

/-- `campaign_rates`, whose key is the campaign, and the amount `round(impressions / 1000.0 * cpm,
2)` in double arithmetic. -/
structure Rates where
  cpm : String → Option ℚ
  amount : ℕ → ℚ → ℚ

variable (rates : Rates)

/-- A row of `final`: `fillna`, the price of the campaign and the amount. -/
def finalRow (campaignId : Option String) (row : DayColumns) : DailySettlement :=
  let impressions := row.impressions.getD 0
  let cpm := (campaignId.bind rates.cpm).getD 0
  { requests := row.requests.getD 0
    impressions := impressions
    clicks := row.clicks.getD 0
    completes := row.completes.getD 0
    rawImpressions := row.rawImpressions
    dupesRemoved := row.impRowsRaw.getD 0 - row.rawImpressions
    lateImpressions := row.lateImpressions.getD 0
    cpm := cpm
    amount := rates.amount impressions cpm }

/-- `final`, the rows written to `daily_settlement`. -/
def dailySettlement (archive : List ArchiveRow) : List (GroupKey × DailySettlement) :=
  (agg ssaiPriority archive).map fun x => (x.1, finalRow rates x.1.2 x.2)

/-- The rows can be written: `dt` and `campaign_id` are `NOT NULL` in PostgreSQL. -/
def Writable (archive : List ArchiveRow) : Prop :=
  ∀ x ∈ dailySettlement ssaiPriority rates archive, keyed x.1 = true

/-! ## Aggregates by minute -/

/-- A row of `minute_df` before `fillna`. -/
structure MinuteColumns where
  impressions : Option ℕ
  rawImpressions : Option ℕ
  clicks : Option ℕ
  completes : Option ℕ
  requests : Option ℕ

/-- The columns of a row that a join found nothing for. -/
def MinuteColumns.null : MinuteColumns := ⟨none, none, none, none, none⟩

/-- The columns of `minute_settlement` next to its key. -/
structure MinuteSettlement where
  impressions : ℕ
  rawImpressions : ℕ
  clicks : ℕ
  completes : ℕ
  requests : ℕ
deriving DecidableEq

/-- `m_imp` joined with `m_raw`. -/
def minuteImpressions (archive : List ArchiveRow) : List (GroupKey × MinuteColumns) :=
  fullOuter keyed (fun i r => { MinuteColumns.null with impressions := i, rawImpressions := r })
    (countBy minuteKey (imp ssaiPriority archive)) (countBy minuteKey (impAll archive))

/-- `minute_df`: the five counts of each minute and campaign. -/
def minuteDf (archive : List ArchiveRow) : List (GroupKey × MinuteColumns) :=
  let mClk := countBy minuteKey ((dedup archive).filter isClick)
  let mCmp := countBy minuteKey ((dedup archive).filter isComplete)
  let mReq := countBy minuteKey ((dedup archive).filter isRequest)
  let t := minuteImpressions ssaiPriority archive
  let t := fullOuter keyed (fun row n => { row.getD .null with clicks := n }) t mClk
  let t := fullOuter keyed (fun row n => { row.getD .null with completes := n }) t mCmp
  fullOuter keyed (fun row n => { row.getD .null with requests := n }) t mReq

/-- `fillna(0)`. -/
def MinuteColumns.fillna (row : MinuteColumns) : MinuteSettlement where
  impressions := row.impressions.getD 0
  rawImpressions := row.rawImpressions.getD 0
  clicks := row.clicks.getD 0
  completes := row.completes.getD 0
  requests := row.requests.getD 0

/-- The rows written to `minute_settlement`. -/
def minuteSettlement (archive : List ArchiveRow) : List (GroupKey × MinuteSettlement) :=
  (minuteDf ssaiPriority archive).map fun x => (x.1, x.2.fillna)

end

/-! ## What the tables hold -/

variable {ssaiPriority : List String} {rates : Rates} {archive : List ArchiveRow}

theorem mem_raw {r : ArchiveRow} : r ∈ raw archive ↔ r ∈ archive ∧ r.eventId.isSome = true :=
  List.mem_filter

theorem mem_of_mem_dedup {r : ArchiveRow} (h : r ∈ dedup archive) : r ∈ raw archive :=
  mem_of_mem_rowNumberOne h

theorem mem_impAll {r : ArchiveRow} :
    r ∈ impAll archive ↔ r ∈ dedup archive ∧ isImpression r = true :=
  List.mem_filter

theorem mem_of_mem_imp {r : ArchiveRow} (h : r ∈ imp ssaiPriority archive) : r ∈ impAll archive :=
  mem_of_mem_rowNumberOne h

/-- A column of the first two tables keeps its total through the joins with the other three. -/
theorem sumWhere_minuteDf {f : MinuteColumns → ℕ} (hnull : f .null = 0)
    (hclicks : ∀ (row : MinuteColumns) n, f { row with clicks := n } = f row)
    (hcompletes : ∀ (row : MinuteColumns) n, f { row with completes := n } = f row)
    (hrequests : ∀ (row : MinuteColumns) n, f { row with requests := n } = f row)
    (p : GroupKey → Bool) :
    sumWhere p f (minuteDf ssaiPriority archive) =
      sumWhere p f (minuteImpressions ssaiPriority archive) := by
  rw [minuteDf]
  rw [sumWhere_fullOuter_left (fun row n => hrequests row n)
      (fun n => (hrequests .null n).trans hnull) (KeyUnique.countBy _ _),
    sumWhere_fullOuter_left (fun row n => hcompletes row n)
      (fun n => (hcompletes .null n).trans hnull) (KeyUnique.countBy _ _),
    sumWhere_fullOuter_left (fun row n => hclicks row n)
      (fun n => (hclicks .null n).trans hnull) (KeyUnique.countBy _ _)]

/-- The total of `raw_impressions` over minutes and campaigns counts the rows of `imp_all`. -/
theorem sumWhere_minute_rawImpressions (p : GroupKey → Bool) :
    sumWhere p MinuteSettlement.rawImpressions (minuteSettlement ssaiPriority archive) =
      (impAll archive).countP fun r => p (minuteKey r) := by
  rw [minuteSettlement, sumWhere_map p MinuteSettlement.rawImpressions MinuteColumns.fillna,
    sumWhere_minuteDf rfl (fun _ _ => rfl) (fun _ _ => rfl) (fun _ _ => rfl), minuteImpressions,
    sumWhere_fullOuter_right (g := id) (fun _ => rfl) (fun _ _ => rfl) (KeyUnique.countBy _ _),
    sumWhere_countBy]

/-- The total of `impressions` counts the rows of `imp`. -/
theorem sumWhere_minute_impressions (p : GroupKey → Bool) :
    sumWhere p MinuteSettlement.impressions (minuteSettlement ssaiPriority archive) =
      (imp ssaiPriority archive).countP fun r => p (minuteKey r) := by
  rw [minuteSettlement, sumWhere_map p MinuteSettlement.impressions MinuteColumns.fillna,
    sumWhere_minuteDf rfl (fun _ _ => rfl) (fun _ _ => rfl) (fun _ _ => rfl), minuteImpressions,
    sumWhere_fullOuter_left (g := id) (fun _ _ => rfl) (fun _ => rfl) (KeyUnique.countBy _ _),
    sumWhere_countBy]

theorem keyUnique_minuteImpressions :
    KeyUnique keyed (minuteImpressions ssaiPriority archive) :=
  (KeyUnique.countBy _ _).fullOuter (KeyUnique.countBy _ _)

/-- The total of `clicks` counts the deduplicated clicks. -/
theorem sumWhere_minute_clicks (p : GroupKey → Bool) :
    sumWhere p MinuteSettlement.clicks (minuteSettlement ssaiPriority archive) =
      ((dedup archive).filter isClick).countP fun r => p (minuteKey r) := by
  have hnone : ∀ row : Option MinuteColumns,
      ({ row.getD .null with clicks := none } : MinuteColumns).fillna.clicks = 0 := fun _ => rfl
  have hsome : ∀ (row : Option MinuteColumns) (n : ℕ),
      ({ row.getD .null with clicks := some n } : MinuteColumns).fillna.clicks = id n :=
    fun _ _ => rfl
  rw [minuteSettlement, sumWhere_map p MinuteSettlement.clicks MinuteColumns.fillna, minuteDf]
  rw [sumWhere_fullOuter_left (g := fun row => row.fillna.clicks) (fun _ _ => rfl) (fun _ => rfl)
      (KeyUnique.countBy _ _),
    sumWhere_fullOuter_left (g := fun row => row.fillna.clicks) (fun _ _ => rfl) (fun _ => rfl)
      (KeyUnique.countBy _ _),
    sumWhere_fullOuter_right hnone hsome keyUnique_minuteImpressions, sumWhere_countBy]

/-- The total of `completes` counts the deduplicated completed quartiles. -/
theorem sumWhere_minute_completes (p : GroupKey → Bool) :
    sumWhere p MinuteSettlement.completes (minuteSettlement ssaiPriority archive) =
      ((dedup archive).filter isComplete).countP fun r => p (minuteKey r) := by
  have hnone : ∀ row : Option MinuteColumns,
      ({ row.getD .null with completes := none } : MinuteColumns).fillna.completes = 0 :=
    fun _ => rfl
  have hsome : ∀ (row : Option MinuteColumns) (n : ℕ),
      ({ row.getD .null with completes := some n } : MinuteColumns).fillna.completes = id n :=
    fun _ _ => rfl
  rw [minuteSettlement, sumWhere_map p MinuteSettlement.completes MinuteColumns.fillna, minuteDf]
  rw [sumWhere_fullOuter_left (g := fun row => row.fillna.completes) (fun _ _ => rfl)
      (fun _ => rfl) (KeyUnique.countBy _ _),
    sumWhere_fullOuter_right hnone hsome
      (keyUnique_minuteImpressions.fullOuter (KeyUnique.countBy _ _)),
    sumWhere_countBy]

/-- The total of `requests` counts the deduplicated filled responses. -/
theorem sumWhere_minute_requests (p : GroupKey → Bool) :
    sumWhere p MinuteSettlement.requests (minuteSettlement ssaiPriority archive) =
      ((dedup archive).filter isRequest).countP fun r => p (minuteKey r) := by
  have hnone : ∀ row : Option MinuteColumns,
      ({ row.getD .null with requests := none } : MinuteColumns).fillna.requests = 0 :=
    fun _ => rfl
  have hsome : ∀ (row : Option MinuteColumns) (n : ℕ),
      ({ row.getD .null with requests := some n } : MinuteColumns).fillna.requests = id n :=
    fun _ _ => rfl
  rw [minuteSettlement, sumWhere_map p MinuteSettlement.requests MinuteColumns.fillna, minuteDf]
  rw [sumWhere_fullOuter_right hnone hsome
      ((keyUnique_minuteImpressions.fullOuter (KeyUnique.countBy _ _)).fullOuter
        (KeyUnique.countBy _ _)),
    sumWhere_countBy]

theorem keys_rawImpAgg (archive : List ArchiveRow) :
    (rawImpAgg archive).map Prod.fst = ((impAll archive).map dayKey).dedup := by
  rw [← keys_countBy, rawImpAgg, List.map_map]
  rfl

theorem keyUnique_rawImpAgg (archive : List ArchiveRow) : KeyUnique keyed (rawImpAgg archive) :=
  (KeyUnique.countBy dayKey (impAll archive)).map DayColumns.ofRaw

/-- The days and campaigns of `daily_settlement` are those of `imp_all`. -/
theorem mem_keys_dailySettlement {k : GroupKey} :
    k ∈ (dailySettlement ssaiPriority rates archive).map Prod.fst ↔
      k ∈ (impAll archive).map dayKey := by
  have hkeys : (dailySettlement ssaiPriority rates archive).map Prod.fst =
      (agg ssaiPriority archive).map Prod.fst := by
    rw [dailySettlement, List.map_map]
    rfl
  rw [hkeys, agg]
  rw [mem_keys_leftJoin, mem_keys_leftJoin, mem_keys_leftJoin, mem_keys_leftJoin,
    mem_keys_leftJoin, mem_keys_leftJoin, keys_rawImpAgg, List.mem_dedup]

/-- The rows can be written exactly when every row of `imp_all` has a day. -/
theorem writable_iff :
    Writable ssaiPriority rates archive ↔ ∀ r ∈ impAll archive, keyed (dayKey r) = true := by
  constructor
  · intro h r hr
    have hkey : dayKey r ∈ (dailySettlement ssaiPriority rates archive).map Prod.fst :=
      mem_keys_dailySettlement.2 (List.mem_map_of_mem hr)
    obtain ⟨x, hx, hxr⟩ := List.mem_map.1 hkey
    rw [← hxr]
    exact h x hx
  · intro h x hx
    obtain ⟨r, hr, hrx⟩ := List.mem_map.1 (mem_keys_dailySettlement.1 (List.mem_map_of_mem hx))
    rw [← hrx]
    exact h r hr

/-- A column that a join does not set keeps its total. -/
theorem sumWhere_leftJoin_keep {f : DayColumns → ℕ} (set : DayColumns → Option ℕ → DayColumns)
    (hset : ∀ row n, f (set row n) = f row) (p : GroupKey → Bool)
    (t : List (GroupKey × DayColumns)) (rows : List ArchiveRow) :
    sumWhere p f (leftJoin keyed set t (countBy dayKey rows)) = sumWhere p f t :=
  sumWhere_leftJoin_left hset (KeyUnique.countBy _ _) p t

/-- A column that the later joins do not set has the total it has after the first one. -/
theorem sumWhere_agg {f : DayColumns → ℕ}
    (hclicks : ∀ row n, f (DayColumns.setClicks row n) = f row)
    (hcompletes : ∀ row n, f (DayColumns.setCompletes row n) = f row)
    (hrequests : ∀ row n, f (DayColumns.setRequests row n) = f row)
    (himpRowsRaw : ∀ row n, f (DayColumns.setImpRowsRaw row n) = f row)
    (hlate : ∀ row n, f (DayColumns.setLateImpressions row n) = f row) (p : GroupKey → Bool) :
    sumWhere p f (agg ssaiPriority archive) =
      sumWhere p f (leftJoin keyed DayColumns.setImpressions (rawImpAgg archive)
        (countBy dayKey (imp ssaiPriority archive))) := by
  rw [agg]
  rw [sumWhere_leftJoin_keep _ hlate, sumWhere_leftJoin_keep _ himpRowsRaw,
    sumWhere_leftJoin_keep _ hrequests, sumWhere_leftJoin_keep _ hcompletes,
    sumWhere_leftJoin_keep _ hclicks]

/-- The total of `impressions` over days and campaigns counts the rows of `imp` that have a day. -/
theorem sumWhere_day_impressions (p : GroupKey → Bool) :
    sumWhere p DailySettlement.impressions (dailySettlement ssaiPriority rates archive) =
      (imp ssaiPriority archive).countP fun r => p (dayKey r) && keyed (dayKey r) := by
  rw [dailySettlement,
    sumWhere_map_of (fun x : GroupKey × DayColumns => finalRow rates x.1.2 x.2)
      (fun row => row.impressions.getD 0) (fun _ => rfl),
    sumWhere_agg (fun _ _ => rfl) (fun _ _ => rfl) (fun _ _ => rfl) (fun _ _ => rfl)
      (fun _ _ => rfl)]
  have hnone : ∀ row : DayColumns, (row.setImpressions none).impressions.getD 0 = 0 := fun _ => rfl
  have hsome : ∀ (row : DayColumns) (n : ℕ),
      (row.setImpressions (some n)).impressions.getD 0 = id n := fun _ _ => rfl
  rw [sumWhere_leftJoin_right hnone hsome (keyUnique_rawImpAgg archive), sumWhere_countBy]
  apply List.countP_congr
  intro r hr
  have hkey : dayKey r ∈ (rawImpAgg archive).map Prod.fst := by
    rw [keys_rawImpAgg, List.mem_dedup]
    exact List.mem_map_of_mem (mem_of_mem_imp hr)
  simp only [hkey, decide_true, Bool.and_true]

/-- `daily_settlement` has one row for each day and campaign. -/
theorem keyUnique_dailySettlement :
    KeyUnique keyed (dailySettlement ssaiPriority rates archive) := by
  have hagg : KeyUnique keyed (agg ssaiPriority archive) :=
    ((((((keyUnique_rawImpAgg archive).leftJoin (KeyUnique.countBy _ _)).leftJoin
      (KeyUnique.countBy _ _)).leftJoin (KeyUnique.countBy _ _)).leftJoin
      (KeyUnique.countBy _ _)).leftJoin (KeyUnique.countBy _ _)).leftJoin (KeyUnique.countBy _ _)
  intro k hk
  rw [dailySettlement, List.countP_map]
  exact hagg k hk

/-- The total of `raw_impressions` over days and campaigns counts the rows of `imp_all`. -/
theorem sumWhere_day_rawImpressions (p : GroupKey → Bool) :
    sumWhere p DailySettlement.rawImpressions (dailySettlement ssaiPriority rates archive) =
      (impAll archive).countP fun r => p (dayKey r) := by
  rw [dailySettlement,
    sumWhere_map_of (fun x : GroupKey × DayColumns => finalRow rates x.1.2 x.2)
      DayColumns.rawImpressions (fun _ => rfl),
    sumWhere_agg (fun _ _ => rfl) (fun _ _ => rfl) (fun _ _ => rfl) (fun _ _ => rfl)
      (fun _ _ => rfl),
    sumWhere_leftJoin_keep DayColumns.setImpressions fun _ _ => rfl,
    rawImpAgg, sumWhere_map p DayColumns.rawImpressions DayColumns.ofRaw]
  exact sumWhere_countBy p dayKey (impAll archive)

end AdPipeline.Settlement
