import AdPipeline.Settlement.Classification
import AdPipeline.Settlement.Identity

/-!
# The reconciliation identity for every kind

The reconciliation compares impressions only, but the realtime job and the batch count four kinds of
events, from records of five topics. As long as every record is classified alike on the two sides,
the copies of an event agree and none outlives its dedup state, the settled count of each kind in
each campaign is what the windows counted plus what `late_dropped` has of that kind
(`settled_eq_realtime_add_late`).
-/

namespace AdPipeline.Settlement

open Lib AdPipeline.Stream
open Collector (Topic topicFor topicFor_ne_dlq)

/-! ## Logs of all topics -/

/-- The records of a log, with their topics. -/
def recordsOf (log : List Action) : List (Topic × EventRow) :=
  log.filterMap fun
    | .record topic row _ => some (topic, row)
    | .watermark _ => none

/-- The event that the realtime job makes of a record. -/
def eventOf (x : Topic × EventRow) : Option Event := (allEvents x.1 x.2).bind ViewRow.event

/-- What an action adds to the history of arrivals. -/
def arrivalOf : Action → List (Event × ℤ)
  | .record topic row now => ((eventOf (topic, row)).map fun e => (e, now)).toList
  | .watermark _ => []

/-- What the archive job makes of a record. -/
def archived (x : Topic × EventRow) : ArchiveRow := archiveRow x.1 x.2

/-- A log on which the two sides can be compared: its records are on the topic of their event type
and classified alike, the copies of an event agree on what `all_events` reads, and arrive within the
lifetime of the dedup state of the first. -/
structure Comparable (log : List Action) : Prop where
  routed : ∀ x ∈ recordsOf log, ∃ s, x.2.eventType = some s ∧ topicFor s = some x.1
  classified : ∀ x ∈ recordsOf log, Classified x.2 x.1
  copies : ∀ x ∈ recordsOf log, ∀ y ∈ recordsOf log, x.2.eventId = y.2.eventId →
    allEvents x.1 x.2 = allEvents y.1 y.2
  inTime : ∀ id, WithinTtl (log.flatMap arrivalOf) id

/-- A log is comparable when this holds of its records and all of it arrives within the lifetime of
the first arrival. -/
theorem comparable_of_checked {log : List Action}
    (hrouted : ∀ x ∈ recordsOf log, x.2.eventType.bind topicFor = some x.1)
    (hclassified : ∀ x ∈ recordsOf log, Classified x.2 x.1)
    (hcopies : ∀ x ∈ recordsOf log, ∀ y ∈ recordsOf log, x.2.eventId = y.2.eventId →
      allEvents x.1 x.2 = allEvents y.1 y.2)
    (hclose : ∀ a ∈ log.flatMap arrivalOf, ∀ b ∈ log.flatMap arrivalOf, a.2 < b.2 + stateTtl) :
    Comparable log where
  routed := fun x hx => Option.bind_eq_some_iff.1 (hrouted x hx)
  classified := hclassified
  copies := hcopies
  inTime := fun _ first hfirst a ha _ => hclose a ha first (List.mem_of_find?_eq_some hfirst)

/-- The column of `minute_settlement` for a kind. -/
def settledColumn : Kind → MinuteSettlement → ℕ
  | .impression => MinuteSettlement.rawImpressions
  | .click => MinuteSettlement.clicks
  | .complete => MinuteSettlement.completes
  | .request => MinuteSettlement.requests
  | .quartile => fun _ => 0

/-- The column of `agg_1m` for a kind. -/
def realtimeColumn : Kind → Counts → ℕ
  | .impression => Counts.impressions
  | .click => Counts.clicks
  | .complete => Counts.completes
  | .request => Counts.requests
  | .quartile => fun _ => 0

/-- An event of a kind and a campaign in a scope. -/
def kindInScope (scope : Scope) (kind : Kind) (c : String) (e : Event) : Bool :=
  e.kind = kind && (scope.contains e.eventTime && e.campaignId = c)

/-- An archived row that is settled as an event of a kind and a campaign in a scope. -/
def settledInScope (scope : Scope) (kind : Kind) (c : String) (r : ArchiveRow) : Bool :=
  batchCounts kind r && (r.eventTime.any scope.contains && r.campaignId = some c)

/-! ## The two sides of a record -/

/-- A routed record that is classified is counted alike. -/
theorem agree_of_classified {topic : Topic} {r : EventRow} {s : String}
    (hs : r.eventType = some s) (htopic : topicFor s = some topic) (h : Classified r topic) :
    Agree topic r := by
  cases topic with
  | impression => exact (agree_impression hs htopic).2 h
  | quartile => exact (agree_quartile hs htopic).2 h
  | click => exact (agree_click hs htopic).2 h
  | request => exact (agree_request hs htopic).2 h
  | behavior => exact agree_behavior hs htopic
  | dlq => exact absurd htopic (topicFor_ne_dlq s)

theorem Comparable.agree {log : List Action} (h : Comparable log) {x : Topic × EventRow}
    (hx : x ∈ recordsOf log) : Agree x.1 x.2 := by
  obtain ⟨s, hs, htopic⟩ := h.routed x hx
  exact agree_of_classified hs htopic (h.classified x hx)

theorem row_of_eventOf {x : Topic × EventRow} {e : Event} (h : eventOf x = some e) :
    x.2.eventId = some e.eventId ∧ x.2.eventTime = some e.eventTime ∧
      x.2.campaignId = some e.campaignId := by
  obtain ⟨v, hv, he⟩ := Option.bind_eq_some_iff.1 h
  exact row_of_allEvents hv he

/-- The event of a record is of a kind and a campaign exactly when its archived row is. -/
theorem settledInScope_archived {x : Topic × EventRow} {e : Event} (hagree : Agree x.1 x.2)
    (h : eventOf x = some e) (scope : Scope) {kind : Kind} (hkind : kind ∈ metrics) (c : String) :
    settledInScope scope kind c (archived x) = kindInScope scope kind c e := by
  obtain ⟨v, hv, he⟩ := Option.bind_eq_some_iff.1 h
  obtain ⟨-, -, hvkind, hvcampaign⟩ := columns_of_event he
  have htime : (archived x).eventTime = some e.eventTime := (row_of_eventOf h).2.1
  have hrealtime : RealtimeCounts x.1 x.2 kind c ↔ e.kind = kind ∧ e.campaignId = c := by
    rw [← hvkind, ← hvcampaign]
    constructor
    · rintro ⟨w, hw, hwkind⟩
      obtain rfl : v = w := Option.some.inj (hv.symm.trans hw)
      exact hwkind
    · exact fun hv' => ⟨v, hv, hv'⟩
  have hcounts := (hagree kind hkind c).symm.trans hrealtime
  rw [Bool.eq_iff_iff]
  simp only [settledInScope, kindInScope, htime, Option.any_some, Bool.and_eq_true,
    decide_eq_true_eq]
  constructor
  · rintro ⟨hbatch, hscope, hcampaign⟩
    obtain ⟨hk, hc⟩ := hcounts.1 ⟨hbatch, hcampaign⟩
    exact ⟨hk, hscope, hc⟩
  · rintro ⟨hk, hscope, hc⟩
    obtain ⟨hbatch, hcampaign⟩ := hcounts.2 ⟨hk, hc⟩
    exact ⟨hbatch, hscope, hcampaign⟩

/-- A row that is settled is of a record in the view. -/
theorem exists_view_of_settled {x : Topic × EventRow} (hagree : Agree x.1 x.2) {scope : Scope}
    {kind : Kind} (hkind : kind ∈ metrics) {c : String}
    (h : settledInScope scope kind c (archived x) = true) : ∃ v, allEvents x.1 x.2 = some v := by
  simp only [settledInScope, Bool.and_eq_true, decide_eq_true_eq] at h
  obtain ⟨v, hv, -⟩ := (hagree kind hkind c).2 ⟨h.1, h.2.2⟩
  exact ⟨v, hv⟩

/-! ## Runs -/

theorem arrived_step {s t : Job} {a : Action} (h : step s a = some t) :
    t.arrived = s.arrived ++ arrivalOf a := by
  cases a with
  | record topic row now =>
      simp only [arrivalOf, eventOf]
      cases hview : allEvents topic row with
      | none =>
          obtain rfl : s = t := by simpa [step, hview] using h
          simp
      | some v =>
          simp only [step, hview] at h
          obtain ⟨e, he, rfl⟩ := Option.map_eq_some_iff.1 h
          simp [he, arrived_process]
  | watermark w =>
      obtain ⟨-, rfl⟩ : _ ∧ s.advance w = t := by simpa [step] using h
      exact (List.append_nil _).symm

/-- The history of a run is its log. -/
theorem arrived_of_log {log : List Action} {s t : Job} (h : job.run s log = some t) :
    t.arrived = s.arrived ++ log.flatMap arrivalOf := by
  induction log generalizing s with
  | nil =>
      obtain rfl : s = t := by simpa using h
      simp
  | cons a log ih =>
      rw [System.run_cons] at h
      obtain ⟨u, hu, hrest⟩ := Option.bind_eq_some_iff.1 h
      rw [ih hrest, arrived_step hu, List.append_assoc, List.flatMap_cons]

/-- A run reads the key and the time of every record in the view. -/
theorem event_of_run {log : List Action} {s t : Job} (h : job.run s log = some t)
    {x : Topic × EventRow} (hx : x ∈ recordsOf log) {v : ViewRow}
    (hv : allEvents x.1 x.2 = some v) : ∃ e, eventOf x = some e := by
  obtain ⟨a, ha, hax⟩ := List.mem_filterMap.1 hx
  cases a with
  | watermark w => cases hax
  | record topic row now =>
      obtain rfl := Option.some.inj hax
      clear hx hax
      induction log generalizing s with
      | nil => cases ha
      | cons b log ih =>
          rw [System.run_cons] at h
          obtain ⟨u, hu, hrest⟩ := Option.bind_eq_some_iff.1 h
          rcases List.mem_cons.1 ha with rfl | hlater
          · simp only [job, step, hv] at hu
            obtain ⟨e, he, -⟩ := Option.map_eq_some_iff.1 hu
            exact ⟨e, by rw [eventOf, hv, Option.bind_some, he]⟩
          · exact ih hrest hlater

/-- The arrivals of a log are the events of its records. -/
theorem mem_arrivals {log : List Action} {e : Event} :
    (∃ now, (e, now) ∈ log.flatMap arrivalOf) ↔ ∃ x ∈ recordsOf log, eventOf x = some e := by
  constructor
  · rintro ⟨now, hmem⟩
    obtain ⟨a, ha, hea⟩ := List.mem_flatMap.1 hmem
    cases a with
    | record topic row now' =>
        obtain ⟨e', he', heq⟩ := Option.map_eq_some_iff.1 (Option.mem_toList.1 hea)
        obtain ⟨rfl, rfl⟩ := Prod.mk.inj heq
        exact ⟨(topic, row), List.mem_filterMap.2 ⟨_, ha, rfl⟩, he'⟩
    | watermark w => cases hea
  · rintro ⟨x, hx, he⟩
    obtain ⟨a, ha, hax⟩ := List.mem_filterMap.1 hx
    cases a with
    | record topic row now =>
        obtain rfl := Option.some.inj hax
        refine ⟨now, List.mem_flatMap.2 ⟨_, ha, Option.mem_toList.2 ?_⟩⟩
        rw [he]
        rfl
    | watermark w => cases hax

/-! ## The realtime side -/

/-- The total of a column over the windows of a scope that have all fired counts the events. -/
theorem realtimeColumn_eq {s : Job} (h : job.Reachable s) {scope : Scope}
    (haligned : scope.Aligned)
    (hpassed : ∀ start, start % minute = 0 → scope.contains start = true →
      windowFired (start + minute) s.watermark = true) {kind : Kind} (hkind : kind ∈ metrics)
    (c : String) :
    sumWhere (fun k => scope.contains k.windowStart && k.campaignId = c) (realtimeColumn kind)
      s.agg1m = s.counted.countP (kindInScope scope kind c) := by
  have hcolumn : ∃ col : Stream.Column, col.value = realtimeColumn kind ∧
      col.unit = fun e => e.countIf kind := by
    simp only [metrics, List.mem_cons, List.not_mem_nil, or_false] at hkind
    rcases hkind with rfl | rfl | rfl | rfl
    · exact ⟨Stream.Column.impressions, rfl, rfl⟩
    · exact ⟨Stream.Column.clicks, rfl, rfl⟩
    · exact ⟨Stream.Column.completes, rfl, rfl⟩
    · exact ⟨Stream.Column.requests, rfl, rfl⟩
  obtain ⟨col, hvalue, hunit⟩ := hcolumn
  have hwindows := sumWhere_windows h col
    fun k => scope.contains k.windowStart && k.campaignId = c
  have hopen : sumWhere (fun k => scope.contains k.windowStart && k.campaignId = c)
      col.value s.openWindows = 0 := by
    refine sumWhere_zero fun x hx hp => ?_
    rw [Bool.and_eq_true] at hp
    have hfired := hpassed x.1.windowStart ((windowsFired h).aligned x hx) hp.1
    rw [(windowsFired h).open_ x hx] at hfired
    cases hfired
  rw [sumWhere_append, hopen, Nat.add_zero, hvalue, hunit] at hwindows
  have hsum := sum_countIf kind
    (fun e => scope.contains e.windowKey.windowStart && e.windowKey.campaignId = c) s.counted
  have hsame : (fun e : Event => e.kind = kind &&
      (scope.contains e.windowKey.windowStart && e.windowKey.campaignId = c)) =
        kindInScope scope kind c := by
    funext e
    unfold kindInScope Event.windowKey
    rw [Scope.contains_floorToMinute haligned]
  rw [hsame] at hsum
  exact hwindows.trans hsum

/-- The rows of `late_dropped` are the late events when these are different ones. -/
theorem countP_lateDropped {s : Job} (h : job.Reachable s)
    (hnodup : (s.late.map Event.eventId).Nodup) (scope : Scope) (kind : Kind) (c : String) :
    s.lateDropped.countP
        (fun r => r.kind = kind && (scope.contains r.eventTime && r.campaignId = c)) =
      s.late.countP (kindInScope scope kind c) := by
  have hcount := congrArg (List.countP fun x : String × Kind × String × Option String × ℤ =>
    x.2.1 = kind && (scope.contains x.2.2.2.2 && x.2.2.1 = c)) ((lateTable h).rows hnodup)
  rw [List.countP_map, List.countP_map] at hcount
  exact hcount

/-! ## The settled side -/

/-- The total of a column of `minute_settlement` counts the deduplicated rows of the kind. -/
theorem settledColumn_eq (ssaiPriority : List String) (archive : List ArchiveRow) {scope : Scope}
    (haligned : scope.Aligned) {kind : Kind} (hkind : kind ∈ metrics) (c : String) :
    sumWhere (fun k => k.1.any scope.contains && k.2 = some c) (settledColumn kind)
      (minuteSettlement ssaiPriority archive) =
        (dedup archive).countP (settledInScope scope kind c) := by
  have hkey : ∀ r : ArchiveRow,
      (((minuteKey r).1.any scope.contains && decide ((minuteKey r).2 = some c)) &&
        batchCounts kind r) = settledInScope scope kind c r := by
    intro r
    have htime : (r.eventTime.map floorToMinute).any scope.contains =
        r.eventTime.any scope.contains := by
      cases r.eventTime with
      | none => rfl
      | some t => exact Scope.contains_floorToMinute haligned t
    rw [settledInScope, minuteKey, htime, Bool.and_comm]
  have hcount : ((dedup archive).filter (batchCounts kind)).countP (fun r =>
      (minuteKey r).1.any scope.contains && decide ((minuteKey r).2 = some c)) =
        (dedup archive).countP (settledInScope scope kind c) := by
    rw [List.countP_filter]
    exact List.countP_congr fun r _ => by rw [hkey]
  rw [← hcount]
  simp only [metrics, List.mem_cons, List.not_mem_nil, or_false] at hkind
  rcases hkind with rfl | rfl | rfl | rfl
  · exact sumWhere_minute_rawImpressions _
  · exact sumWhere_minute_clicks _
  · exact sumWhere_minute_completes _
  · exact sumWhere_minute_requests _

/-! ## Both sides of one log -/

section

variable {log : List Action} {archive : List ArchiveRow} {s : Job}

/-- The deduplicated rows and events that count are the same ones. -/
theorem dedup_countP_eq (hrun : job.run Job.start log = some s) (hlog : Comparable log)
    (harchive : ∀ r, r ∈ archive ↔ r ∈ (recordsOf log).map archived) (scope : Scope) {kind : Kind}
    (hkind : kind ∈ metrics) (c : String) :
    (dedup archive).countP (settledInScope scope kind c) =
      s.deduped.countP (kindInScope scope kind c) := by
  have h : job.Reachable s := System.reachable_of_run hrun
  have harrived : s.arrived = log.flatMap arrivalOf := arrived_of_log hrun
  have httl : ∀ id, WithinTtl s.arrived id := by
    rw [harrived]
    exact hlog.inTime
  -- the records that the rows and the events come from
  have hrow : ∀ r ∈ dedup archive, ∃ x ∈ recordsOf log, r = archived x := by
    intro r hr
    obtain ⟨x, hx, hxr⟩ :=
      List.mem_map.1 ((harchive r).1 (mem_raw.1 (mem_of_mem_dedup hr)).1)
    exact ⟨x, hx, hxr.symm⟩
  have hevent : ∀ e ∈ s.deduped, ∃ x ∈ recordsOf log, eventOf x = some e := by
    intro e he
    have hmem := mem_arrived_of_mem_deduped h he (httl e.eventId)
    rw [harrived] at hmem
    exact mem_arrivals.1 hmem
  -- a kept row and a passed event of one id count alike
  have hsame : ∀ x ∈ recordsOf log, ∀ e ∈ s.deduped, x.2.eventId = some e.eventId →
      settledInScope scope kind c (archived x) = kindInScope scope kind c e := by
    intro x hx e he hid
    obtain ⟨y, hy, hye⟩ := hevent e he
    have hview := hlog.copies x hx y hy (hid.trans (row_of_eventOf hye).1.symm)
    have hxe : eventOf x = some e := by rw [eventOf, hview, ← eventOf, hye]
    exact settledInScope_archived (hlog.agree hx) hxe scope hkind c
  rw [List.countP_eq_length_filter, List.countP_eq_length_filter, ← List.countP_true,
    ← List.countP_true]
  refine countP_eq_of_keys (f := fun r => r.eventId) (g := fun e => some e.eventId) ?_ ?_ ?_
    fun _ _ _ _ _ => rfl
  · exact (nodup_key_rowNumberOne _ _ _).sublist (List.filter_sublist.map _)
  · have hnodup := (nodup_deduped h httl).map (Option.some_injective _)
    rw [List.map_map] at hnodup
    exact hnodup.sublist (List.filter_sublist.map _)
  · intro k
    constructor
    · intro hk
      obtain ⟨r, hr, rfl⟩ := List.mem_map.1 hk
      obtain ⟨hr, hcounts⟩ := List.mem_filter.1 hr
      obtain ⟨x, hx, rfl⟩ := hrow r hr
      obtain ⟨v, hv⟩ := exists_view_of_settled (hlog.agree hx) hkind hcounts
      obtain ⟨e, he⟩ := event_of_run hrun hx hv
      obtain ⟨now, hnow⟩ := mem_arrivals.2 ⟨x, hx, he⟩
      rw [← harrived] at hnow
      obtain ⟨e', he', hid⟩ := List.mem_map.1 (mem_deduped_of_mem_arrived h hnow (httl _))
      have hxid : x.2.eventId = some e'.eventId := by rw [hid]; exact (row_of_eventOf he).1
      refine List.mem_map.2 ⟨e', List.mem_filter.2 ⟨he', ?_⟩, hxid.symm⟩
      rw [← hsame x hx e' he' hxid, hcounts]
    · intro hk
      obtain ⟨e, he, rfl⟩ := List.mem_map.1 hk
      obtain ⟨he, hcounts⟩ := List.mem_filter.1 he
      obtain ⟨x, hx, hxe⟩ := hevent e he
      have hraw : archived x ∈ raw archive := by
        refine mem_raw.2 ⟨(harchive _).2 (List.mem_map_of_mem hx), ?_⟩
        show x.2.eventId.isSome = true
        rw [(row_of_eventOf hxe).1]
        rfl
      obtain ⟨r, hr, hid⟩ :=
        exists_mem_rowNumberOne (fun r : ArchiveRow => r.eventId) eventOrder hraw
      obtain ⟨y, hy, rfl⟩ := hrow r hr
      have hyid : y.2.eventId = some e.eventId := Eq.trans hid (row_of_eventOf hxe).1
      refine List.mem_map.2 ⟨archived y, List.mem_filter.2 ⟨hr, ?_⟩, hyid⟩
      rw [hsame y hy e he hyid, hcounts]

/-- Whatever is on the topics, in whatever order and with whatever copies: in a scope that the
watermark has passed, the settled count of each kind and campaign is the realtime count plus the
late events of that kind. -/
theorem settled_eq_realtime_add_late {scope : Scope}
    (hrun : job.run Job.start log = some s) (hlog : Comparable log)
    (harchive : ∀ r, r ∈ archive ↔ r ∈ (recordsOf log).map archived) (haligned : scope.Aligned)
    (hpassed : ∀ start, start % minute = 0 → scope.contains start = true →
      windowFired (start + minute) s.watermark = true) (ssaiPriority : List String) (c : String) :
    ∀ kind ∈ metrics,
      sumWhere (fun k => k.1.any scope.contains && k.2 = some c) (settledColumn kind)
          (minuteSettlement ssaiPriority archive) =
        sumWhere (fun k => scope.contains k.windowStart && k.campaignId = c)
            (realtimeColumn kind) s.agg1m +
          s.lateDropped.countP fun r =>
            r.kind = kind && (scope.contains r.eventTime && r.campaignId = c) := by
  intro kind hkind
  have h : job.Reachable s := System.reachable_of_run hrun
  have httl : ∀ id, WithinTtl s.arrived id := by
    rw [show s.arrived = log.flatMap arrivalOf from arrived_of_log hrun]
    exact hlog.inTime
  have hlate : (s.late.map Event.eventId).Nodup := by
    have hnodup := nodup_deduped h httl
    rw [((deduped_perm h).map Event.eventId).nodup_iff, List.map_append] at hnodup
    exact (List.nodup_append.1 hnodup).2.1
  rw [settledColumn_eq ssaiPriority archive haligned hkind,
    dedup_countP_eq hrun hlog harchive scope hkind, countP_deduped h,
    realtimeColumn_eq h haligned hpassed hkind, countP_lateDropped h hlate]

end

/-- A record of the campaign `c1`. -/
def kindRow (id eventType : String) (quartile : Option String) (fill : Option Bool) (time : ℤ) :
    EventRow where
  eventId := some id
  eventType := some eventType
  campaignId := some "c1"
  adRequestId := some "a1"
  quartile := quartile
  source := none
  ssaiTwinOf := none
  fill := fill
  late := none
  eventTime := some time

/-- A response, an impression, the end of an ad, a click and its retransmission, a progress ping,
and a click that is late. -/
def kindsLog : List Action :=
  [.record .request (kindRow "e1" "ad_response" none (some true) 1000) 0,
    .record .impression (kindRow "e2" "impression" none none 1500) 10,
    .record .quartile (kindRow "e3" "quartile" (some "complete") none 16500) 20,
    .record .click (kindRow "e4" "click" none none 17000) 30,
    .record .click (kindRow "e4" "click" none none 17000) 40,
    .record .behavior (kindRow "e5" "progress" none none 17500) 50, .watermark 59999,
    .record .click (kindRow "e6" "click" none none 18000) 60]

theorem comparable_kindsLog : Comparable kindsLog :=
  comparable_of_checked (by decide)
    (by simp [recordsOf, kindsLog, Classified, Settled, kindRow, nonCampaign]) (by decide)
    (by decide)

/-- Of the clicks of the log one was counted and one was late; two are settled. -/
theorem settled_eq_realtime_add_late_click : ∃ s, job.run Job.start kindsLog = some s ∧
    sumWhere (fun k => (Scope.range 0 60000).contains k.windowStart && k.campaignId = "c1")
      (realtimeColumn .click) s.agg1m = 1 ∧
    sumWhere (fun k => k.1.any (Scope.range 0 60000).contains && k.2 = some "c1")
      (settledColumn .click) (minuteSettlement ["server", "client"]
        ((recordsOf kindsLog).map archived)) = 2 := by
  refine ⟨_, rfl, by decide, (settled_eq_realtime_add_late
    (show job.run Job.start kindsLog = some _ from rfl) comparable_kindsLog (fun _ => Iff.rfl)
    (by unfold Scope.Aligned; decide) ?_ _ "c1" .click (by decide)).trans (by decide)⟩
  intro start hminute hcontains
  rw [Scope.contains_iff] at hcontains
  simp only [Scope.t0, Scope.t1, minute] at hminute hcontains
  have hstart : start = 0 := by omega
  subst hstart
  decide

end AdPipeline.Settlement
