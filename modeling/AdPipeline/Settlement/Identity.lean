import AdPipeline.Settlement.Reconcile
import AdPipeline.Stream.Accounting

/-!
# The reconciliation identity

Three programs see the impressions of a log: the realtime job, in the order of arrival and between
watermarks, the batch, as the archive in any order, and the reconciliation, which compares what the
other two wrote. As long as the copies of an event agree and none outlives its dedup state, the
events that the realtime job counted or dropped as late are those the batch counts before the SSAI
merge, and the reconciliation leaves no residual (`residual_eq_zero`).
-/

namespace AdPipeline.Settlement

open Lib AdPipeline.Stream

/-! ## Logs -/

/-- An impression as the Collector publishes it: a record of `ad.impression` with an id, a campaign
that is settled, which the validator does not let be blank, and a time. -/
structure Impression where
  row : EventRow
  id : String
  campaign : String
  time : ℤ
  eventId : row.eventId = some id
  eventType : row.eventType = some "impression"
  campaignId : row.campaignId = some campaign
  eventTime : row.eventTime = some time
  notEmpty : campaign ≠ ""
  settled : campaign ∉ nonCampaign

/-- The event the realtime job makes of an impression. -/
def Impression.event (i : Impression) : Event where
  eventId := i.id
  campaignId := i.campaign
  adRequestId := i.row.adRequestId
  eventTime := i.time
  kind := .impression
  isSsaiTwin := if i.row.ssaiTwinOf.isSome then 1 else 0

/-- The row the archive job makes of it. -/
def Impression.archived (i : Impression) : ArchiveRow := archiveRow .impression i.row

/-- An arrival at a processing time, or a watermark. -/
inductive LogEntry where
  | impression (i : Impression) (now : ℤ)
  | watermark (w : ℤ)

/-- What an entry is to the realtime job. -/
def LogEntry.action : LogEntry → Action
  | impression i now => .record .impression i.row now
  | watermark w => .watermark w

/-- The impressions of a log with their processing times. -/
def arrivals (log : List LogEntry) : List (Impression × ℤ) :=
  log.filterMap fun
    | .impression i now => some (i, now)
    | .watermark _ => none

/-- The copies of an event agree on its time, campaign, ad request and source. -/
def CopiesAgree (log : List LogEntry) : Prop :=
  ∀ a ∈ arrivals log, ∀ b ∈ arrivals log, a.1.id = b.1.id →
    a.1.time = b.1.time ∧ a.1.campaign = b.1.campaign ∧
      a.1.row.adRequestId = b.1.row.adRequestId ∧ a.1.row.source = b.1.row.source

/-- The events of a log with their processing times. -/
def eventArrivals (log : List LogEntry) : List (Event × ℤ) :=
  (arrivals log).map fun a => (a.1.event, a.2)

/-- All copies of an event arrive within the lifetime of the dedup state of the first. -/
def InTime (log : List LogEntry) : Prop := ∀ id, WithinTtl (eventArrivals log) id

/-! ## The realtime side -/

theorem step_impression (s : Job) (i : Impression) (now : ℤ) :
    step s (LogEntry.impression i now).action = some (s.process now i.event) := by
  simp [LogEntry.action, step, allEvents, ViewRow.ofRow, ViewRow.event, Impression.event,
    i.eventId, i.campaignId, i.eventTime]

theorem arrived_process (s : Job) (now : ℤ) (e : Event) :
    (s.process now e).arrived = s.arrived ++ [(e, now)] := by
  cases hseen : s.remembers now e.eventId with
  | true => rw [Job.process_duplicate hseen]
  | false =>
      rw [Job.process_admitted hseen]
      split_ifs <;> rfl

/-- The history of a run over a log is the log. -/
theorem arrived_of_run {log : List LogEntry} {s t : Job}
    (h : job.run s (log.map LogEntry.action) = some t) :
    t.arrived = s.arrived ++ eventArrivals log := by
  induction log generalizing s with
  | nil =>
      obtain rfl : s = t := by simpa using h
      simp [eventArrivals, arrivals]
  | cons entry log ih =>
      rw [List.map_cons, System.run_cons] at h
      obtain ⟨u, hu, hrest⟩ := Option.bind_eq_some_iff.1 h
      cases entry with
      | impression i now =>
          obtain rfl : s.process now i.event = u :=
            Option.some.inj ((step_impression s i now).symm.trans hu)
          rw [ih hrest, arrived_process, List.append_assoc]
          rfl
      | watermark w =>
          obtain ⟨-, rfl⟩ : _ ∧ s.advance w = u := by
            simpa [job, LogEntry.action, step] using hu
          rw [ih hrest]
          rfl

/-- An event of a campaign in a scope. -/
def inScope (scope : Scope) (c : String) (e : Event) : Bool :=
  e.kind = .impression && (scope.contains e.eventTime && e.campaignId = c)

/-- Counting units is counting events. -/
theorem sum_countIf (kind : Kind) (p : Event → Bool) (events : List Event) :
    ((events.filter p).map fun e => e.countIf kind).sum =
      events.countP fun e => e.kind = kind && p e := by
  induction events with
  | nil => rfl
  | cons e events ih =>
      rw [List.countP_cons, ← ih]
      by_cases hp : p e = true
      · rw [List.filter_cons_of_pos hp, List.map_cons, List.sum_cons, hp, Event.countIf,
          Nat.add_comm]
        simp
      · rw [List.filter_cons_of_neg hp]
        simp [hp]

/-- The realtime figure of a scope whose windows have all fired counts the counted events. -/
theorem realtime_eq {s : Job} (h : job.Reachable s) {scope : Scope} (haligned : scope.Aligned)
    (hpassed : ∀ start, start % minute = 0 → scope.contains start = true →
      windowFired (start + minute) s.watermark = true) (c : String) :
    (entry c (fetchRealtime scope s.agg1m)).getD 0 = s.counted.countP (inScope scope c) := by
  have hwindows := sumWhere_windows h Column.impressions
    fun k => scope.contains k.windowStart && k.campaignId = c
  -- no window of the scope is open any more
  have hopen : sumWhere (fun k => scope.contains k.windowStart && k.campaignId = c)
      Counts.impressions s.openWindows = 0 := by
    refine sumWhere_zero fun x hx hp => ?_
    rw [Bool.and_eq_true] at hp
    have hfired := hpassed x.1.windowStart ((windowsFired h).aligned x hx) hp.1
    rw [(windowsFired h).open_ x hx] at hfired
    cases hfired
  rw [sumWhere_append] at hwindows
  rw [entry_fetchRealtime]
  have hsum := sum_countIf .impression
    (fun e => scope.contains e.windowKey.windowStart && e.windowKey.campaignId = c) s.counted
  have hsame : (fun e : Event => e.kind = .impression &&
      (scope.contains e.windowKey.windowStart && e.windowKey.campaignId = c)) =
        inScope scope c := by
    funext e
    unfold inScope Event.windowKey
    rw [Scope.contains_floorToMinute haligned]
  rw [hsame] at hsum
  change sumWhere _ Counts.impressions s.agg1m + sumWhere _ Counts.impressions s.openWindows = _
    at hwindows
  rw [hopen, Nat.add_zero] at hwindows
  exact hwindows.trans hsum

/-- The late figure counts the late events when they are different ones. -/
theorem late_eq {s : Job} (h : job.Reachable s) (hnodup : (s.late.map Event.eventId).Nodup)
    (scope : Scope) (c : String) :
    (entry c (fetchLateDropped scope s.lateDropped)).getD 0 = s.late.countP (inScope scope c) := by
  have hrows := (lateTable h).rows hnodup
  have hcount := congrArg (List.countP fun x : String × Kind × String × Option String × ℤ =>
    x.2.1 = .impression && (scope.contains x.2.2.2.2 && x.2.2.1 = c)) hrows
  rw [List.countP_map, List.countP_map] at hcount
  rw [entry_fetchLateDropped]
  refine (List.countP_congr fun r _ => ?_).trans hcount
  show _ ↔ (r.kind = .impression && (scope.contains r.eventTime && r.campaignId = c)) = true
  simp only [Bool.and_eq_true, decide_eq_true_eq]
  tauto

/-! ## The settled side -/

variable {ssaiPriority : List String} {rates : Rates} {archive : List ArchiveRow}

/-- The settled figure counts the rows of `imp_all`, when no campaign is empty. -/
theorem batch_eq {scope : Scope} (haligned : scope.Aligned)
    (hnotEmpty : ∀ r ∈ impAll archive, r.campaignId ≠ some "") (c : String) :
    ((entry c (fetchBatch scope (dailySettlement ssaiPriority rates archive)
      (minuteSettlement ssaiPriority archive))).getD .zero).rawImpressions =
        (impAll archive).countP (rowInScope scope c) := by
  by_cases hc : c = ""
  · subst hc
    have hnone : (impAll archive).countP (rowInScope scope "") = 0 := by
      rw [List.countP_eq_zero]
      intro r hr hscope
      simp [rowInScope, hnotEmpty r hr] at hscope
    rw [hnone]
    cases scope with
    | range t0 t1 => rw [fetchBatch, entry_campaignEntries_empty]; rfl
    | day dt => rw [fetchBatch, entry_campaignEntries_empty]; rfl
  · rw [entry_fetchBatch haligned hc]

/-! ## Both sides of one log -/

section

variable {log : List LogEntry}

/-- The archived rows are those of the log's impressions. -/
theorem exists_of_mem_archive
    (harchive : archive.Perm ((arrivals log).map fun a => a.1.archived)) {r : ArchiveRow}
    (hr : r ∈ archive) : ∃ a ∈ arrivals log, r = a.1.archived := by
  obtain ⟨a, ha, rfl⟩ := List.mem_map.1 (harchive.mem_iff.1 hr)
  exact ⟨a, ha, rfl⟩

theorem archived_eventId (i : Impression) : i.archived.eventId = some i.id := i.eventId

theorem isImpression_archived (i : Impression) : isImpression i.archived = true := by
  have htype : i.archived.eventType = some "impression" := i.eventType
  have hcampaign : i.archived.campaignId = some i.campaign := i.campaignId
  simp [isImpression, inCampaign, htype, hcampaign, i.settled]

theorem inScope_event (scope : Scope) (c : String) (i : Impression) :
    inScope scope c i.event = (scope.contains i.time && decide (i.campaign = c)) := rfl

theorem rowInScope_archived (scope : Scope) (c : String) (i : Impression) :
    rowInScope scope c i.archived = inScope scope c i.event := by
  have htime : i.archived.eventTime = some i.time := i.eventTime
  have hcampaign : i.archived.campaignId = some i.campaign := i.campaignId
  simp [rowInScope, inScope_event, htime, hcampaign]

/-- All rows of the archive are impressions of the log. -/
theorem impAll_eq (harchive : archive.Perm ((arrivals log).map fun a => a.1.archived)) :
    impAll archive = dedup archive := by
  refine List.filter_eq_self.2 fun r hr => ?_
  obtain ⟨a, -, rfl⟩ := exists_of_mem_archive harchive (mem_raw.1 (mem_of_mem_dedup hr)).1
  exact isImpression_archived a.1

/-- The rows of `imp_all` and the events that passed the deduplication are the same events. -/
theorem impAll_countP_eq {s : Job} (h : job.Reachable s)
    (harrived : s.arrived = eventArrivals log) (hagree : CopiesAgree log) (hintime : InTime log)
    (harchive : archive.Perm ((arrivals log).map fun a => a.1.archived)) (scope : Scope)
    (c : String) :
    (impAll archive).countP (rowInScope scope c) = s.deduped.countP (inScope scope c) := by
  have httl : ∀ id, WithinTtl s.arrived id := by
    rw [harrived]
    exact hintime
  -- where the rows and the events come from
  have hrow : ∀ r ∈ impAll archive, ∃ a ∈ arrivals log, r = a.1.archived := fun r hr =>
    exists_of_mem_archive harchive (mem_raw.1 (mem_of_mem_dedup (mem_impAll.1 hr).1)).1
  have hevent : ∀ e ∈ s.deduped, ∃ a ∈ arrivals log, e = a.1.event := by
    intro e he
    obtain ⟨now, hmem⟩ := mem_arrived_of_mem_deduped h he (httl e.eventId)
    rw [harrived] at hmem
    obtain ⟨a, ha, hae⟩ := List.mem_map.1 hmem
    exact ⟨a, ha, (congrArg Prod.fst hae).symm⟩
  refine countP_eq_of_keys (f := fun r => r.eventId) (g := fun e => some e.eventId) ?_ ?_ ?_ ?_
  · rw [impAll_eq harchive]
    exact nodup_key_rowNumberOne _ _ _
  · have hnodup := (nodup_deduped h httl).map (Option.some_injective _)
    rwa [List.map_map] at hnodup
  · intro k
    constructor
    · intro hk
      obtain ⟨r, hr, rfl⟩ := List.mem_map.1 hk
      obtain ⟨a, ha, rfl⟩ := hrow r hr
      have harr : (a.1.event, a.2) ∈ s.arrived := by
        rw [harrived]
        exact List.mem_map.2 ⟨a, ha, rfl⟩
      obtain ⟨e, he, hid⟩ := List.mem_map.1 (mem_deduped_of_mem_arrived h harr (httl _))
      exact List.mem_map.2 ⟨e, he, by rw [archived_eventId, hid]; rfl⟩
    · intro hk
      obtain ⟨e, he, rfl⟩ := List.mem_map.1 hk
      obtain ⟨a, ha, rfl⟩ := hevent e he
      have hraw : a.1.archived ∈ raw archive := by
        refine mem_raw.2 ⟨harchive.mem_iff.2 (List.mem_map.2 ⟨a, ha, rfl⟩), ?_⟩
        rw [archived_eventId]
        rfl
      obtain ⟨m, hm, hid⟩ :=
        exists_mem_rowNumberOne (fun r : ArchiveRow => r.eventId) eventOrder hraw
      rw [impAll_eq harchive]
      exact List.mem_map.2 ⟨m, hm, by rw [hid, archived_eventId]; rfl⟩
  · intro r hr e he hid
    obtain ⟨a, ha, rfl⟩ := hrow r hr
    obtain ⟨b, hb, rfl⟩ := hevent e he
    -- the kept copies may be different ones, but they agree
    have hids : a.1.id = b.1.id := by
      rw [archived_eventId] at hid
      exact Option.some.inj hid
    obtain ⟨htime, hcampaign, -⟩ := hagree a ha b hb hids
    rw [rowInScope_archived, inScope_event, inScope_event, htime, hcampaign]

/-- The raw impressions of a campaign in a scope that the watermark has passed are the realtime and
the late ones. -/
theorem raw_eq_realtime_add_late {s : Job} {scope : Scope}
    (hrun : job.run Job.start (log.map LogEntry.action) = some s)
    (hagree : CopiesAgree log) (hintime : InTime log)
    (harchive : archive.Perm ((arrivals log).map fun a => a.1.archived))
    (haligned : scope.Aligned)
    (hpassed : ∀ start, start % minute = 0 → scope.contains start = true →
      windowFired (start + minute) s.watermark = true) (c : String) :
    ((entry c (fetchBatch scope (dailySettlement ssaiPriority rates archive)
      (minuteSettlement ssaiPriority archive))).getD .zero).rawImpressions =
        (entry c (fetchRealtime scope s.agg1m)).getD 0 +
          (entry c (fetchLateDropped scope s.lateDropped)).getD 0 := by
  have h : job.Reachable s := System.reachable_of_run hrun
  have harrived : s.arrived = eventArrivals log := arrived_of_run hrun
  have httl : ∀ id, WithinTtl s.arrived id := by
    rw [harrived]
    exact hintime
  have hlate : (s.late.map Event.eventId).Nodup := by
    have hnodup := nodup_deduped h httl
    rw [((deduped_perm h).map Event.eventId).nodup_iff, List.map_append] at hnodup
    exact (List.nodup_append.1 hnodup).2.1
  have hnotEmpty : ∀ r ∈ impAll archive, r.campaignId ≠ some "" := by
    intro r hr hempty
    obtain ⟨a, -, rfl⟩ :=
      exists_of_mem_archive harchive (mem_raw.1 (mem_of_mem_dedup (mem_impAll.1 hr).1)).1
    exact a.1.notEmpty (Option.some.inj (a.1.campaignId.symm.trans hempty))
  rw [batch_eq haligned hnotEmpty, impAll_countP_eq h harrived hagree hintime harchive,
    countP_deduped h, realtime_eq h haligned hpassed, late_eq h hlate]

/-- The reconciliation identity: for every campaign the settled and the realtime impressions of a
scope that the watermark has passed differ by the late ones less the SSAI duplicates, and no
residual is left, in any row that is written either. -/
theorem residual_eq_zero {s : Job} {scope : Scope}
    (hrun : job.run Job.start (log.map LogEntry.action) = some s)
    (hagree : CopiesAgree log) (hintime : InTime log)
    (harchive : archive.Perm ((arrivals log).map fun a => a.1.archived))
    (haligned : scope.Aligned)
    (hpassed : ∀ start, start % minute = 0 → scope.contains start = true →
      windowFired (start + minute) s.watermark = true) :
    let rt := fetchRealtime scope s.agg1m
    let bRows := fetchBatch scope (dailySettlement ssaiPriority rates archive)
      (minuteSettlement ssaiPriority archive)
    let lateBy := fetchLateDropped scope s.lateDropped
    (∀ c, (reconcile rt bRows lateBy c).batchImpressions -
        (reconcile rt bRows lateBy c).realtimeImpressions =
          (reconcile rt bRows lateBy c).late - (reconcile rt bRows lateBy c).ssai) ∧
      (∀ c, (reconcile rt bRows lateBy c).residual = 0) ∧
      ∀ row ∈ reconciliation rt bRows lateBy, row.residual = 0 := by
  intro rt bRows lateBy
  have hresidual : ∀ c, (reconcile rt bRows lateBy c).residual = 0 := by
    intro c
    have hraw : ((entry c bRows).getD .zero).rawImpressions =
        (entry c rt).getD 0 + (entry c lateBy).getD 0 :=
      raw_eq_realtime_add_late hrun hagree hintime harchive haligned hpassed c
    rw [residual_eq, hraw]
    omega
  refine ⟨fun c => ?_, hresidual, fun row hrow => ?_⟩
  · have hdiff : (reconcile rt bRows lateBy c).residual =
        (reconcile rt bRows lateBy c).batchImpressions -
          (reconcile rt bRows lateBy c).realtimeImpressions -
            ((reconcile rt bRows lateBy c).late - (reconcile rt bRows lateBy c).ssai) := rfl
    have hzero := hresidual c
    omega
  · obtain ⟨c, -, rfl⟩ := List.mem_map.1 hrow
    exact hresidual c

end

/-- An impression of the ad request `a1`. -/
def adImpression (id source : String) (time : ℤ) : Impression where
  row :=
    { eventId := some id, eventType := some "impression", campaignId := some "c1",
      adRequestId := some "a1", quartile := none, source := some source, ssaiTwinOf := none,
      fill := none, late := none, eventTime := some time }
  id := id
  campaign := "c1"
  time := time
  eventId := rfl
  eventType := rfl
  campaignId := rfl
  eventTime := rfl
  notEmpty := by decide
  settled := by decide

/-- An impression, its retransmission, its twin from the server, and one that is late. -/
def mixedLog : List LogEntry :=
  [.impression (adImpression "e1" "client" 1000) 0,
    .impression (adImpression "e1" "client" 1000) 10,
    .impression (adImpression "e2" "server" 1500) 20, .watermark 59999,
    .impression (adImpression "e3" "client" 2000) 30]

/-- The reconciliation of the mixed log's minute, for its campaign. -/
def mixedRow (s : Job) : Reconciliation :=
  let archive := (arrivals mixedLog).map fun a => a.1.archived
  reconcile (fetchRealtime (.range 0 60000) s.agg1m)
    (fetchBatch (.range 0 60000)
      (dailySettlement ["server", "client"] ⟨fun _ => none, fun _ _ => 0⟩ archive)
      (minuteSettlement ["server", "client"] archive))
    (fetchLateDropped (.range 0 60000) s.lateDropped) "c1"

/-- The mixed log: two impressions in realtime, one late, one settled for the ad. -/
theorem residual_eq_zero_mixed : ∃ s,
    job.run Job.start (mixedLog.map LogEntry.action) = some s ∧
    (mixedRow s).realtimeImpressions = 2 ∧ (mixedRow s).late = 1 ∧
    (mixedRow s).batchImpressions = 1 ∧ (mixedRow s).ssai = 2 ∧ (mixedRow s).residual = 0 := by
  have hclose : ∀ a ∈ eventArrivals mixedLog, ∀ b ∈ eventArrivals mixedLog,
      a.2 < b.2 + stateTtl := by decide
  have hintime : InTime mixedLog := by
    intro id first hfirst a ha _
    exact hclose a ha first (List.mem_of_find?_eq_some hfirst)
  have hagree : CopiesAgree mixedLog := by
    unfold CopiesAgree
    decide
  refine ⟨_, rfl, by decide, by decide, by decide, by decide, (residual_eq_zero
    (show job.run Job.start (mixedLog.map LogEntry.action) = some _ from rfl) hagree hintime
    (.refl _) (by unfold Scope.Aligned; decide) ?_).2.1 "c1"⟩
  intro start hminute hcontains
  rw [Scope.contains_iff] at hcontains
  simp only [Scope.t0, Scope.t1, minute] at hminute hcontains
  have hstart : start = 0 := by omega
  subst hstart
  decide

end AdPipeline.Settlement
