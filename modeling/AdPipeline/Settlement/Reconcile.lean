import AdPipeline.Lib.Keyed
import AdPipeline.Settlement.Batch
import AdPipeline.Stream.Realtime
import Mathlib.Data.List.Sort
import Mathlib.Data.String.Basic

/-!
# Reconciliation

`reconcile.py`: for each campaign the realtime count, the settled count, the late impressions and
the SSAI duplicates of a scope, and the residual that these leave. A scope is a range of minutes,
read from `minute_settlement`, or one day, read from `daily_settlement`. The realtime counts are
those of the windows that start in the scope.
-/

namespace AdPipeline.Settlement

open Lib AdPipeline.Stream

/-! ## Scopes -/

/-- `RECON_FROM` and `RECON_TO`, both cut to the minute, or `RECON_DT` as a day number. -/
inductive Scope where
  | range (t0 t1 : ℤ)
  | day (dt : ℤ)

/-- The first instant of a scope. -/
def Scope.t0 : Scope → ℤ
  | range t0 _ => t0
  | day dt => dt * 86400000

/-- The first instant after a scope. -/
def Scope.t1 : Scope → ℤ
  | range _ t1 => t1
  | day dt => dt * 86400000 + 86400000

/-- `t0 <= t < t1`. -/
def Scope.contains (scope : Scope) (t : ℤ) : Bool := scope.t0 ≤ t && t < scope.t1

/-- The scope consists of whole minutes. -/
def Scope.Aligned (scope : Scope) : Prop := scope.t0 % minute = 0 ∧ scope.t1 % minute = 0

theorem Scope.contains_iff {scope : Scope} {t : ℤ} :
    scope.contains t = true ↔ scope.t0 ≤ t ∧ t < scope.t1 := by
  simp [contains]

/-- A scope of whole minutes contains an instant exactly when it contains its minute. -/
theorem Scope.contains_floorToMinute {scope : Scope} (h : scope.Aligned) (t : ℤ) :
    scope.contains (floorToMinute t) = scope.contains t := by
  rw [Bool.eq_iff_iff, contains_iff, contains_iff]
  exact floorToMinute_mem_iff h.1 h.2 t

/-! ## The three sources -/

/-- The realtime impressions of each campaign: the windows that start in the scope. -/
def fetchRealtime (scope : Scope) (agg1m : List (WindowKey × Counts)) : List (String × ℕ) :=
  groupBy (fun x => x.1.campaignId) (fun rows => (rows.map fun x => x.2.impressions).sum)
    (agg1m.filter fun x => scope.contains x.1.windowStart)

/-- `fetch_late_dropped`: the late impressions of each campaign. -/
def fetchLateDropped (scope : Scope) (lateDropped : List LateRow) : List (String × ℕ) :=
  groupBy LateRow.campaignId List.length
    (lateDropped.filter fun r => r.kind = .impression && scope.contains r.eventTime)

/-- The two columns of a settled campaign. -/
structure BatchFigures where
  impressions : ℕ
  rawImpressions : ℕ
deriving DecidableEq

/-- The figures of a campaign without rows. -/
def BatchFigures.zero : BatchFigures := ⟨0, 0⟩

/-- The entries of a collected table whose campaign is neither null nor empty. -/
def campaignEntries (rows : List (Option String × BatchFigures)) : List (String × BatchFigures) :=
  rows.filterMap fun x => (x.1.filter fun c => c ≠ "").map fun c => (c, x.2)

/-- `fetch_batch`. -/
def fetchBatch (scope : Scope) (daily : List (GroupKey × DailySettlement))
    (minutes : List (GroupKey × MinuteSettlement)) : List (String × BatchFigures) :=
  match scope with
  | .range t0 t1 =>
    campaignEntries <|
      groupBy (fun x => x.1.2)
        (fun rows => ⟨(rows.map fun x => x.2.impressions).sum,
          (rows.map fun x => x.2.rawImpressions).sum⟩)
        (minutes.filter fun x => x.1.1.any fun t => t0 ≤ t && t < t1)
  | .day dt =>
    campaignEntries <|
      (daily.filter fun x => x.1.1 = some dt).map fun x =>
        (x.1.2, ⟨x.2.impressions, x.2.rawImpressions⟩)

/-! ## The comparison -/

/-- `classify`. -/
def classify (ssai late residual rt bt : ℤ) : String :=
  if rt = 0 ∧ bt > 0 then "실시간 미집계(Flink 잡이 그 구간에 없었거나 윈도우 미확정)"
  else if bt = 0 ∧ rt > 0 then "배치 미적재(archive 잡이 그 구간에 없었거나 Parquet 커밋 전)"
  else
    let parts :=
      (if late ≠ 0 then ["지연반영 +" ++ toString late] else []) ++
      (if ssai ≠ 0 then ["SSAI이중경로 -" ++ toString ssai] else []) ++
      (if residual > 0 then
        ["잔차 +" ++ toString residual ++ "(실시간 미확정 창 - 부하가 멈추면 워터마크도 멈춘다. " ++
          "scripts/flush-windows.sh / 또는 그 구간에 Flink 잡이 없었음)"]
      else if residual < 0 then
        ["잔차 " ++ toString residual ++ "(TTL 1시간을 넘긴 재전송을 실시간이 중복으로 셌거나 " ++
          "그 구간에 archive 잡이 없어 원본 누락)"]
      else [])
    if parts = [] then "차이 없음" else String.intercalate " , " parts

/-- A row of `reconciliation`, with the figures it is explained by. -/
structure Reconciliation where
  campaignId : String
  realtimeImpressions : ℤ
  batchImpressions : ℤ
  ssai : ℤ
  late : ℤ
  diff : ℤ
  residual : ℤ
  likelyCause : String
deriving DecidableEq

/-- The body of the loop over the campaigns. -/
def reconcile (rt : List (String × ℕ)) (bRows : List (String × BatchFigures))
    (lateBy : List (String × ℕ)) (cid : String) : Reconciliation :=
  let rImp : ℤ := (entry cid rt).getD 0
  let b := (entry cid bRows).getD .zero
  let bImp : ℤ := b.impressions
  let ssai : ℤ := b.rawImpressions - bImp
  let late : ℤ := (entry cid lateBy).getD 0
  let diff := bImp - rImp
  let residual := diff - (late - ssai)
  { campaignId := cid, realtimeImpressions := rImp, batchImpressions := bImp, ssai := ssai,
    late := late, diff := diff, residual := residual,
    likelyCause := classify ssai late residual rImp bImp }

/-- The rows written: one for each campaign of either side, in order. -/
def reconciliation (rt : List (String × ℕ)) (bRows : List (String × BatchFigures))
    (lateBy : List (String × ℕ)) : List Reconciliation :=
  ((rt.map Prod.fst ++ bRows.map Prod.fst).dedup.insertionSort (· ≤ ·)).map
    (reconcile rt bRows lateBy)

/-- The settled impressions cancel out of the residual: it is what the raw impressions exceed the
realtime and the late ones by. -/
theorem residual_eq (rt : List (String × ℕ)) (bRows : List (String × BatchFigures))
    (lateBy : List (String × ℕ)) (cid : String) :
    (reconcile rt bRows lateBy cid).residual =
      ((entry cid bRows).getD .zero).rawImpressions -
        (((entry cid rt).getD 0 : ℕ) + ((entry cid lateBy).getD 0 : ℕ)) := by
  simp only [reconcile]
  omega

/-! ## The figures as counts -/

/-- The realtime figure of a campaign. -/
theorem entry_fetchRealtime (scope : Scope) (agg1m : List (WindowKey × Counts)) (c : String) :
    (entry c (fetchRealtime scope agg1m)).getD 0 =
      sumWhere (fun k => scope.contains k.windowStart && k.campaignId = c) Counts.impressions
        agg1m := by
  have h := entry_groupBy_getD (fun x : WindowKey × Counts => x.1.campaignId)
    (fun rows => (rows.map fun x => x.2.impressions).sum)
    (agg1m.filter fun x => scope.contains x.1.windowStart) c
  refine h.trans ?_
  rw [List.filter_filter, sumWhere]
  simp only [Bool.and_comm]

/-- The late figure of a campaign. -/
theorem entry_fetchLateDropped (scope : Scope) (lateDropped : List LateRow) (c : String) :
    (entry c (fetchLateDropped scope lateDropped)).getD 0 =
      lateDropped.countP fun r =>
        r.campaignId = c && (r.kind = .impression && scope.contains r.eventTime) := by
  have h := entry_groupBy_getD LateRow.campaignId List.length
    (lateDropped.filter fun r => r.kind = .impression && scope.contains r.eventTime) c
  refine h.trans ?_
  rw [List.filter_filter, List.countP_eq_length_filter]

/-- A campaign of a collected table, when it is not empty. -/
theorem entry_campaignEntries {rows : List (Option String × BatchFigures)} {c : String}
    (hc : c ≠ "") : entry c (campaignEntries rows) = entry (some c) rows := by
  induction rows with
  | nil => rfl
  | cons x rows ih =>
      unfold campaignEntries at *
      rw [entry]
      by_cases hx : x.1 = some c
      · have hfilter : (some c).filter (fun c => c ≠ "") = some c := by
          rw [Option.filter_some, if_pos (by simpa using hc)]
        rw [List.filterMap_cons, hx, hfilter, Option.map_some]
        simp [entry]
      · rw [if_neg hx, List.filterMap_cons]
        cases hx1 : x.1.filter fun c => c ≠ "" with
        | none => simpa using ih
        | some c' =>
            have hc' : x.1 = some c' := (Option.filter_eq_some_iff.1 hx1).1
            have hne : c' ≠ c := by
              rintro rfl
              exact hx hc'
            simp only [Option.map_some, entry, if_neg hne]
            exact ih

/-- The empty campaign has no entry. -/
theorem entry_campaignEntries_empty (rows : List (Option String × BatchFigures)) :
    entry "" (campaignEntries rows) = none := by
  induction rows with
  | nil => rfl
  | cons x rows ih =>
      unfold campaignEntries at *
      rw [List.filterMap_cons]
      cases hx : x.1.filter fun c => c ≠ "" with
      | none => simpa using ih
      | some c =>
          have hne : c ≠ "" := of_decide_eq_true (Option.filter_eq_some_iff.1 hx).2
          simp only [Option.map_some, entry, if_neg hne]
          exact ih

/-- A day of the daily table, looked up by campaign. -/
theorem entry_day {α β : Type*} (g : α → β) (dt : ℤ) (campaignId : Option String)
    (t : List (GroupKey × α)) :
    entry campaignId ((t.filter fun x => x.1.1 = some dt).map fun x => (x.1.2, g x.2)) =
      (entry (some dt, campaignId) t).map g := by
  induction t with
  | nil => rfl
  | cons x t ih =>
      rw [entry]
      by_cases hday : x.1.1 = some dt
      · rw [List.filter_cons_of_pos (by simpa using hday), List.map_cons, entry, ih]
        have hkey : x.1 = (some dt, campaignId) ↔ x.1.2 = campaignId := by
          rw [Prod.ext_iff]
          exact and_iff_right hday
        simp only [hkey]
        split_ifs <;> rfl
      · have hkey : x.1 ≠ (some dt, campaignId) := fun h => hday (congrArg Prod.fst h)
        rw [List.filter_cons_of_neg (by simpa using hday), ih, if_neg hkey]

/-- The settled figures of a campaign in a range of minutes. -/
theorem entry_fetchBatch_range {t0 t1 : ℤ} {daily : List (GroupKey × DailySettlement)}
    {minutes : List (GroupKey × MinuteSettlement)} {c : String} (hc : c ≠ "") :
    (entry c (fetchBatch (.range t0 t1) daily minutes)).getD .zero =
      ⟨sumWhere (fun k => k.1.any (fun t => t0 ≤ t && t < t1) && k.2 = some c)
          MinuteSettlement.impressions minutes,
        sumWhere (fun k => k.1.any (fun t => t0 ≤ t && t < t1) && k.2 = some c)
          MinuteSettlement.rawImpressions minutes⟩ := by
  have h := entry_groupBy_getD (fun x : GroupKey × MinuteSettlement => x.1.2)
    (fun rows => (⟨(rows.map fun x => x.2.impressions).sum,
      (rows.map fun x => x.2.rawImpressions).sum⟩ : BatchFigures))
    (minutes.filter fun x => x.1.1.any fun t => t0 ≤ t && t < t1) (some c)
  unfold fetchBatch
  rw [entry_campaignEntries hc]
  refine h.trans ?_
  simp only [List.filter_filter, sumWhere, Bool.and_comm]

/-- The settled figures of a campaign on a day. -/
theorem entry_fetchBatch_day {dt : ℤ} {daily : List (GroupKey × DailySettlement)}
    {minutes : List (GroupKey × MinuteSettlement)} {c : String} (hc : c ≠ "")
    (hunique : KeyUnique keyed daily) :
    (entry c (fetchBatch (.day dt) daily minutes)).getD .zero =
      ⟨sumWhere (fun k => k = (some dt, some c)) DailySettlement.impressions daily,
        sumWhere (fun k => k = (some dt, some c)) DailySettlement.rawImpressions daily⟩ := by
  unfold fetchBatch
  rw [entry_campaignEntries hc,
    entry_day (fun x : DailySettlement => (⟨x.impressions, x.rawImpressions⟩ : BatchFigures)),
    ← entry_eq_sumWhere DailySettlement.impressions (hunique (some dt, some c) rfl),
    ← entry_eq_sumWhere DailySettlement.rawImpressions (hunique (some dt, some c) rfl)]
  cases entry (some dt, some c) daily <;> rfl

/-- An archived row of a campaign in a scope. -/
def rowInScope (scope : Scope) (c : String) (r : ArchiveRow) : Bool :=
  r.eventTime.any scope.contains && r.campaignId = some c

variable {ssaiPriority : List String} {rates : Rates} {archive : List ArchiveRow}

/-- The settled figures of a campaign count rows of the archive, in a scope of either kind. -/
theorem entry_fetchBatch {scope : Scope} (haligned : scope.Aligned) {c : String} (hc : c ≠ "") :
    (entry c (fetchBatch scope (dailySettlement ssaiPriority rates archive)
      (minuteSettlement ssaiPriority archive))).getD .zero =
        ⟨(imp ssaiPriority archive).countP (rowInScope scope c),
          (impAll archive).countP (rowInScope scope c)⟩ := by
  cases scope with
  | range t0 t1 =>
      have hrow : ∀ r : ArchiveRow, ((minuteKey r).1.any (fun t => t0 ≤ t && t < t1) &&
          decide ((minuteKey r).2 = some c)) = rowInScope (.range t0 t1) c r := by
        intro r
        have hminute : ∀ t, (t0 ≤ floorToMinute t && floorToMinute t < t1) = _ :=
          Scope.contains_floorToMinute haligned
        simp only [rowInScope, minuteKey, Option.any_map, hminute]
        rfl
      rw [entry_fetchBatch_range hc, sumWhere_minute_impressions, sumWhere_minute_rawImpressions]
      simp only [hrow]
  | day dt =>
      have hday : ∀ t : ℤ, t / 86400000 = dt ↔ (Scope.day dt).contains t = true := by
        intro t
        rw [Scope.contains_iff]
        simp only [Scope.t0, Scope.t1]
        omega
      have hrow : ∀ r : ArchiveRow,
          decide (dayKey r = (some dt, some c)) = rowInScope (.day dt) c r := by
        intro r
        cases ht : r.eventTime with
        | none => simp [rowInScope, dayKey, ht]
        | some t => simp [rowInScope, dayKey, ht, hday]
      have hkeyed : ∀ r : ArchiveRow, (decide (dayKey r = (some dt, some c)) &&
          keyed (dayKey r)) = rowInScope (.day dt) c r := by
        intro r
        rw [Bool.and_eq_left_iff_imp.2, hrow]
        intro hkey
        rw [of_decide_eq_true hkey]
        rfl
      rw [entry_fetchBatch_day hc keyUnique_dailySettlement, sumWhere_day_impressions,
        sumWhere_day_rawImpressions]
      simp only [hkeyed]
      simp only [hrow]

end AdPipeline.Settlement
