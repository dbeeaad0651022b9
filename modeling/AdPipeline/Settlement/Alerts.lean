import AdPipeline.Settlement.Kinds

/-!
# Alerts against the settlement

`alert_sink` raises an alert for a window with enough requests and too few impressions for them. It
sees what the realtime job has counted, so a window alerts exactly when the settled minute does
without its late events (`alert_iff_settled`).
-/

namespace AdPipeline.Settlement

open Lib AdPipeline.Stream
open Collector (Topic topicFor)

/-- The thresholds of `alert_sink`. The comparison of the quotient with the threshold is in double
arithmetic, where a quotient by zero is below nothing. -/
structure AlertSettings where
  minRequests : ℕ
  lowRatio : ℕ → ℕ → Bool
  lowRatio_zero : ∀ impressions, lowRatio impressions 0 = false

/-- The condition of `alert_sink`. -/
def AlertSettings.raises (a : AlertSettings) (impressions requests : ℕ) : Bool :=
  a.minRequests ≤ requests && a.lowRatio impressions requests

/-- `alert_sink`: the rows of `agg_1m` that raise an alert. -/
def alertSink (a : AlertSettings) (agg1m : List (WindowKey × Counts)) :
    List (WindowKey × Counts) :=
  agg1m.filter fun x => a.raises x.2.impressions x.2.requests

/-- One minute as a scope. -/
def minuteScope (start : ℤ) : Scope := .range start (start + minute)

/-- What is settled of a kind for a minute and campaign. -/
def settledOf (ssaiPriority : List String) (archive : List ArchiveRow) (start : ℤ) (c : String)
    (kind : Kind) : ℕ :=
  sumWhere (fun k => k.1.any (minuteScope start).contains && k.2 = some c) (settledColumn kind)
    (minuteSettlement ssaiPriority archive)

/-- What is in `late_dropped` of a kind for a minute and campaign. -/
def lateOf (s : Job) (start : ℤ) (c : String) (kind : Kind) : ℕ :=
  s.lateDropped.countP fun r =>
    r.kind = kind && ((minuteScope start).contains r.eventTime && r.campaignId = c)

theorem aligned_minuteScope {start : ℤ} (haligned : start % minute = 0) :
    (minuteScope start).Aligned := by
  refine ⟨haligned, ?_⟩
  simp only [minuteScope, Scope.t1, minute] at haligned ⊢
  omega

/-- The windows of a minute are those that start with it. -/
theorem contains_minuteScope {start t : ℤ} (haligned : start % minute = 0) :
    (minuteScope start).contains t = true ↔ floorToMinute t = start := by
  rw [Scope.contains_iff]
  simp only [minuteScope, Scope.t0, Scope.t1, floorToMinute, minute] at haligned ⊢
  omega

/-- In a table with each key once the total over a key is its row. -/
theorem sumWhere_key {κ α : Type*} [DecidableEq κ] {t : List (κ × α)}
    (hnodup : (t.map Prod.fst).Nodup) {x : κ × α} (hx : x ∈ t) (f : α → ℕ) :
    sumWhere (fun k => k = x.1) f t = f x.2 := by
  rw [sumWhere, filter_key_eq_singleton hnodup hx, List.map_singleton, List.sum_singleton]

section

variable {log : List Action} {archive : List ArchiveRow} {s : Job} {start : ℤ}

/-- The row of a window that has fired counts the events of its minute and campaign. -/
theorem sumWhere_agg1m (h : job.Reachable s)
    (hpassed : windowFired (start + minute) s.watermark = true) (haligned : start % minute = 0)
    (c : String) (col : Stream.Column) {kind : Kind} (hunit : col.unit = fun e => e.countIf kind) :
    sumWhere (fun k => k = ⟨start, c⟩) col.value s.agg1m =
      s.counted.countP (kindInScope (minuteScope start) kind c) := by
  have hwindows := sumWhere_windows h col fun k => k = ⟨start, c⟩
  have hopen : sumWhere (fun k : WindowKey => k = ⟨start, c⟩) col.value s.openWindows = 0 := by
    refine sumWhere_zero fun x hx hkey => ?_
    have hfired := (windowsFired h).open_ x hx
    rw [of_decide_eq_true hkey, hpassed] at hfired
    cases hfired
  rw [sumWhere_append, hopen, Nat.add_zero, hunit, sum_countIf] at hwindows
  rw [hwindows]
  refine List.countP_congr fun e _ => ?_
  simp only [kindInScope, Bool.and_eq_true, decide_eq_true_eq, contains_minuteScope haligned,
    Event.windowKey, WindowKey.mk.injEq]

/-- What was counted is what is settled without what was late. -/
theorem settledOf_eq (hrun : job.run Job.start log = some s) (hlog : Comparable log)
    (harchive : ∀ r, r ∈ archive ↔ r ∈ (recordsOf log).map archived)
    (haligned : start % minute = 0) (ssaiPriority : List String) (c : String) {kind : Kind}
    (hkind : kind ∈ metrics) :
    settledOf ssaiPriority archive start c kind =
      s.counted.countP (kindInScope (minuteScope start) kind c) + lateOf s start c kind := by
  have h : job.Reachable s := System.reachable_of_run hrun
  have httl : ∀ id, WithinTtl s.arrived id := by
    rw [show s.arrived = log.flatMap arrivalOf from arrived_of_log hrun]
    exact hlog.inTime
  have hlate : (s.late.map Event.eventId).Nodup := by
    have hnodup := nodup_deduped h httl
    rw [((deduped_perm h).map Event.eventId).nodup_iff, List.map_append] at hnodup
    exact (List.nodup_append.1 hnodup).2.1
  rw [settledOf, settledColumn_eq ssaiPriority archive (aligned_minuteScope haligned) hkind,
    dedup_countP_eq hrun hlog harchive (minuteScope start) hkind, countP_deduped h, lateOf,
    countP_lateDropped h hlate]

/-- On a comparable log every window alerts at most once, and exactly when the settled minute would
without the events that came late. -/
theorem alert_iff_settled (a : AlertSettings) (hrun : job.run Job.start log = some s)
    (hlog : Comparable log) (harchive : ∀ r, r ∈ archive ↔ r ∈ (recordsOf log).map archived)
    (haligned : start % minute = 0)
    (hpassed : windowFired (start + minute) s.watermark = true) (ssaiPriority : List String)
    (c : String) :
    ((alertSink a s.agg1m).map Prod.fst).Nodup ∧
      ((⟨start, c⟩ : WindowKey) ∈ (alertSink a s.agg1m).map Prod.fst ↔
        a.raises (settledOf ssaiPriority archive start c .impression - lateOf s start c .impression)
          (settledOf ssaiPriority archive start c .request - lateOf s start c .request) =
            true) := by
  have h : job.Reachable s := System.reachable_of_run hrun
  have hfired : (s.agg1m.map Prod.fst).Nodup := (windowsFired h).nodupFired
  refine ⟨hfired.sublist (List.filter_sublist.map _), ?_⟩
  have himpressions := sumWhere_agg1m h hpassed haligned c Stream.Column.impressions rfl
  have hrequests := sumWhere_agg1m h hpassed haligned c Stream.Column.requests rfl
  have hsettled : ∀ {kind : Kind}, kind ∈ metrics →
      settledOf ssaiPriority archive start c kind - lateOf s start c kind =
        s.counted.countP (kindInScope (minuteScope start) kind c) := by
    intro kind hkind
    rw [settledOf_eq hrun hlog harchive haligned ssaiPriority c hkind, Nat.add_sub_cancel]
  rw [hsettled (by decide : Kind.impression ∈ metrics),
    hsettled (by decide : Kind.request ∈ metrics), ← himpressions, ← hrequests]
  constructor
  · intro hmem
    obtain ⟨x, hx, hkey⟩ := List.mem_map.1 hmem
    obtain ⟨hx, hraises⟩ := List.mem_filter.1 hx
    rw [← hkey, sumWhere_key hfired hx, sumWhere_key hfired hx]
    exact hraises
  · intro hraises
    by_cases hmem : (⟨start, c⟩ : WindowKey) ∈ s.agg1m.map Prod.fst
    · obtain ⟨x, hx, hkey⟩ := List.mem_map.1 hmem
      rw [← hkey, sumWhere_key hfired hx, sumWhere_key hfired hx] at hraises
      exact List.mem_map.2 ⟨x, List.mem_filter.2 ⟨hx, hraises⟩, hkey⟩
    · -- a window nothing was counted in has no requests
      have hnone : sumWhere (fun k : WindowKey => k = ⟨start, c⟩) Stream.Column.requests.value
          s.agg1m = 0 := by
        refine sumWhere_zero fun x hx hkey => absurd ?_ hmem
        exact List.mem_map.2 ⟨x, hx, of_decide_eq_true hkey⟩
      rw [hnone, AlertSettings.raises, a.lowRatio_zero, Bool.and_false] at hraises
      cases hraises

end

/-- Two requests, and their impressions when the window has fired. -/
def outageLog : List Action :=
  [.record .request (kindRow "e1" "ad_response" none (some true) 1000) 0,
    .record .request (kindRow "e2" "ad_response" none (some true) 1500) 10, .watermark 59999,
    .record .impression (kindRow "e3" "impression" none none 2000) 20,
    .record .impression (kindRow "e4" "impression" none none 2500) 30]

theorem comparable_outageLog : Comparable outageLog :=
  comparable_of_checked (by decide)
    (by simp [recordsOf, outageLog, Classified, Settled, kindRow, nonCampaign]) (by decide)
    (by decide)

/-- At least two requests, and fewer than half as many impressions. -/
def halfSettings : AlertSettings := ⟨2, fun i r => 2 * i < r, fun i => decide_eq_false (by omega)⟩

/-- The minute alerts, though both impressions are settled. -/
theorem alert_iff_settled_outage : ∃ s, job.run Job.start outageLog = some s ∧
    (⟨0, "c1"⟩ : WindowKey) ∈ (alertSink halfSettings s.agg1m).map Prod.fst ∧
    lateOf s 0 "c1" .impression = 2 ∧
    settledOf ["server", "client"] ((recordsOf outageLog).map archived) 0 "c1" .impression = 2 := by
  refine ⟨_, rfl, ?_, by decide, by decide⟩
  exact (alert_iff_settled halfSettings (show job.run Job.start outageLog = some _ from rfl)
    comparable_outageLog (fun _ => Iff.rfl) (by decide) (by decide) ["server", "client"] "c1").2.2
    (by decide)

end AdPipeline.Settlement
