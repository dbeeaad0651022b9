import AdPipeline.Stream.Accounting

/-!
# `late_dropped` against the windows

The reconciliation takes `late_dropped` for the roster of what the realtime job never counted. Copy
by copy it is: each copy of an event that passes the deduplication is added to exactly one window or
selected as late. For an `event_id` as a whole it is as long as no copy arrives after the dedup
state of the first has expired. A copy that does is judged again, against the watermark of that
time, and the id can end up on both sides (`readmitted_counted_and_late`).
-/

namespace AdPipeline.Stream

open Lib

/-- What `late_dropped` says about the windows. -/
structure LateRoster (s : Job) : Prop where
  /-- Each copy that passed the deduplication was added to a window or selected as late, and not
  both. -/
  partition : s.deduped.Perm (s.counted ++ s.late)
  /-- The aggregate rows hold the counted copies, each in the window of its minute. -/
  windows : ∀ (col : Column) (key : WindowKey),
    sumWhere (fun k => k = key) col.value (s.agg1m ++ s.openWindows) =
      ((s.counted.filter fun e => e.windowKey = key).map col.unit).sum
  /-- A window has one row for a campaign. -/
  oneRow : ((s.agg1m ++ s.openWindows).map Prod.fst).Nodup
  /-- The table has the ids of exactly the late copies, once each. -/
  roster : ∀ id, id ∈ s.lateDropped.map LateRow.eventId ↔ id ∈ s.late.map Event.eventId
  nodup : (s.lateDropped.map LateRow.eventId).Nodup
  /-- Each copy of an id that is not in the table was added to a window. -/
  added : ∀ id, id ∉ s.lateDropped.map LateRow.eventId →
    s.counted.countP (fun e => e.eventId = id) = s.deduped.countP fun e => e.eventId = id
  /-- An id none of whose copies outlived its dedup state is not on both sides. -/
  exclusive : ∀ id, WithinTtl s.arrived id →
    ¬ (id ∈ s.counted.map Event.eventId ∧ id ∈ s.lateDropped.map LateRow.eventId)
  /-- Such an id is in exactly one window when it passed and is not in the table. -/
  once : ∀ id, WithinTtl s.arrived id → id ∈ s.deduped.map Event.eventId →
    id ∉ s.lateDropped.map LateRow.eventId → s.counted.countP (fun e => e.eventId = id) = 1

variable {s : Job}

theorem countP_eventId_eq_zero {events : List Event} {id : String}
    (h : id ∉ events.map Event.eventId) : events.countP (fun e => e.eventId = id) = 0 := by
  rw [← countP_eventId_pos] at h
  omega

/-- Every reachable state of the job keeps the roster. -/
theorem lateRoster (h : job.Reachable s) : LateRoster s := by
  have hadded : ∀ id, id ∉ s.lateDropped.map LateRow.eventId →
      s.counted.countP (fun e => e.eventId = id) = s.deduped.countP fun e => e.eventId = id := by
    intro id hid
    rw [(lateTable h).mem_iff] at hid
    rw [countP_deduped h, countP_eventId_eq_zero hid, Nat.add_zero]
  constructor
  case partition => exact deduped_perm h
  case windows => exact fun col key => sumWhere_windows h col _
  case oneRow => exact (windowsFired h).nodup
  case roster => exact (lateTable h).mem_iff
  case nodup => exact (lateTable h).nodup
  case added => exact hadded
  case exclusive =>
    rintro id httl ⟨hcounted, hlate⟩
    rw [(lateTable h).mem_iff] at hlate
    -- counted and late, the id would have passed twice
    have hle := countP_deduped_le_one h httl
    rw [countP_deduped h] at hle
    have hpos := countP_eventId_pos.2 hcounted
    have hpos' := countP_eventId_pos.2 hlate
    omega
  case once =>
    intro id httl hpassed hid
    have hle := countP_deduped_le_one h httl
    have hpos := countP_eventId_pos.2 hpassed
    rw [hadded id hid]
    omega

/-- An impression of 1970-01-01T00:00:00Z. -/
def earlyImpression : EventRow where
  eventId := some "e1"
  eventType := some "impression"
  campaignId := some "c1"
  adRequestId := none
  quartile := none
  source := some "client"
  ssaiTwinOf := none
  fill := none
  late := none
  eventTime := some 0

/-- A run with an event, its retransmission and an event that is late. -/
theorem lateRoster_late : ∃ s, LateRoster s ∧
    s.counted.map Event.eventId = ["e1"] ∧ s.lateDropped.map LateRow.eventId = ["e2"] :=
  ⟨_, lateRoster (System.reachable_of_run (show job.run Job.start
      [.record .impression earlyImpression 0, .record .impression earlyImpression 1000,
        .watermark 59999,
        .record .impression { earlyImpression with eventId := some "e2" } 2000] = some _
      from rfl)), rfl, rfl⟩

/-- A copy that arrives after the dedup state of its id has expired passes again, and is late by
then: the id is counted in a window and is in `late_dropped`. -/
theorem readmitted_counted_and_late : ∃ s, job.Reachable s ∧
    (⟨0, "c1"⟩, ⟨1, 0, 0, 0, 0⟩) ∈ s.agg1m ∧
    "e1" ∈ s.counted.map Event.eventId ∧ "e1" ∈ s.lateDropped.map LateRow.eventId :=
  ⟨_, System.reachable_of_run (show job.run Job.start
      [.record .impression earlyImpression 0, .watermark 59999,
        .record .impression earlyImpression 3600000] = some _ from rfl),
    by decide, by decide, by decide⟩

end AdPipeline.Stream
