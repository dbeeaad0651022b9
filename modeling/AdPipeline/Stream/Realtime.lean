import AdPipeline.Lib.Keyed
import AdPipeline.Lib.Transition
import AdPipeline.Stream.Tables

/-!
# The realtime job

The job after its sources: keep-first deduplication by `event_id` with expiring state, the
one-minute window aggregate `agg_1m`, and the table `late_dropped` that `late_at_window` feeds. The
window and the late branch read the same deduplicated stream and decide independently of each
other, each with its own test. A run interleaves records, with the processing time of each, and
watermarks.

Next to the job's state the model keeps the history of a run: the events that reached the
deduplication, those that passed it, and the ones the window then counted or the late branch
selected.
-/

namespace AdPipeline.Stream

open Collector Lib

/-- `table.exec.state.ttl`, one hour. -/
def stateTtl : ℤ := 3600000

/-! ## `agg_1m` -/

/-- The group of an aggregate row: its `window_start` and campaign. -/
structure WindowKey where
  windowStart : ℤ
  campaignId : String
deriving DecidableEq

/-- The columns of an aggregate row. -/
structure Counts where
  impressions : ℕ
  clicks : ℕ
  completes : ℕ
  requests : ℕ
  ssaiDupes : ℕ
deriving DecidableEq

/-- The accumulator of a window nothing was added to. -/
def Counts.zero : Counts := ⟨0, 0, 0, 0, 0⟩

/-- The group an event belongs to. -/
def Event.windowKey (e : Event) : WindowKey := ⟨floorToMinute e.eventTime, e.campaignId⟩

/-- `COUNT(*) FILTER (WHERE kind = ..)` on one event. -/
def Event.countIf (e : Event) (kind : Kind) : ℕ := if e.kind = kind then 1 else 0

/-- An event added to the accumulator of its window. -/
def Counts.add (e : Event) (c : Counts) : Counts where
  impressions := c.impressions + e.countIf .impression
  clicks := c.clicks + e.countIf .click
  completes := c.completes + e.countIf .complete
  requests := c.requests + e.countIf .request
  ssaiDupes := c.ssaiDupes + e.isSsaiTwin

/-! ## `late_dropped` -/

/-- A row of `late_dropped`. -/
structure LateRow where
  eventId : String
  kind : Kind
  campaignId : String
  adRequestId : Option String
  eventTime : ℤ
  windowEnd : ℤ
  watermarkAt : Option ℤ
deriving DecidableEq

/-- The row `late_at_window` selects for an event. -/
def LateRow.ofEvent (watermark : Option ℤ) (e : Event) : LateRow where
  eventId := e.eventId
  kind := e.kind
  campaignId := e.campaignId
  adRequestId := e.adRequestId
  eventTime := e.eventTime
  windowEnd := floorToMinute e.eventTime + minute
  watermarkAt := watermark

/-! ## The job -/

/-- The state of the job, its output, and the history of the run. -/
structure Job where
  /-- `none` before the first watermark. -/
  watermark : Option ℤ
  /-- When the dedup state of an `event_id` was written. -/
  seen : String → Option ℤ
  openWindows : List (WindowKey × Counts)
  /-- The rows the view `agg_1m` has produced. -/
  agg1m : List (WindowKey × Counts)
  lateDropped : List LateRow
  /-- History: the events of `all_events`, with the processing time of each. -/
  arrived : List (Event × ℤ)
  /-- History: the events that passed the deduplication. -/
  deduped : List Event
  /-- History: the events added to a window. -/
  counted : List Event
  /-- History: the events `late_at_window` selected. -/
  late : List Event

def Job.start : Job where
  watermark := none
  seen _ := none
  openWindows := []
  agg1m := []
  lateDropped := []
  arrived := []
  deduped := []
  counted := []
  late := []

namespace Job

/-- The dedup state of an `event_id` is there and has not expired. -/
def remembers (s : Job) (now : ℤ) (eventId : String) : Bool :=
  match s.seen eventId with
  | none => false
  | some writtenAt => now < writtenAt + stateTtl

/-- The first row of an `event_id` writes its dedup state and goes on. -/
def letThrough (s : Job) (now : ℤ) (e : Event) : Job :=
  { s with seen := Function.update s.seen e.eventId (some now), deduped := s.deduped ++ [e] }

/-- The tumbling window: adds an event to its window, or drops it when the window has fired. -/
def tumble (s : Job) (e : Event) : Job :=
  if windowFired (windowEnd e.eventTime) s.watermark then s
  else
    { s with
      openWindows := adjust Counts.zero (Counts.add e) e.windowKey s.openWindows,
      counted := s.counted ++ [e] }

/-- `late_at_window` and its upsert into `late_dropped`. -/
def selectLate (s : Job) (e : Event) : Job :=
  if lateAtWindow s.watermark e.eventTime then
    { s with
      lateDropped := upsert LateRow.eventId (LateRow.ofEvent s.watermark e) s.lateDropped,
      late := s.late ++ [e] }
  else s

/-- An event of `all_events` at a processing time. -/
def process (s : Job) (now : ℤ) (e : Event) : Job :=
  let s := { s with arrived := s.arrived ++ [(e, now)] }
  if s.remembers now e.eventId then s
  else ((s.letThrough now e).tumble e).selectLate e

/-- The watermark moves on: the windows it has passed fire, and their state is cleared. -/
def advance (s : Job) (w : ℤ) : Job :=
  { s with
    watermark := some w,
    agg1m := s.agg1m ++ s.openWindows.filter fun x => windowFired (x.1.windowStart + minute) w,
    openWindows := s.openWindows.filter fun x => !windowFired (x.1.windowStart + minute) w }

end Job

/-- A record of a topic at a processing time, or a watermark. -/
inductive Action where
  | record (topic : Topic) (row : EventRow) (now : ℤ)
  | watermark (w : ℤ)

/-- One step of the job. Records outside `all_events` change nothing, and watermarks do not
decrease. -/
def step (s : Job) : Action → Option Job
  | .record topic row now =>
    match allEvents topic row with
    | none => some s
    | some v => v.event.map (s.process now)
  | .watermark w => if s.watermark.all (· ≤ w) then some (s.advance w) else none

/-- The job as a transition system. -/
def job : System Job Action := ⟨Job.start, step⟩

/-! ## What a step does -/

/-- The two branches behind the deduplication, as one case distinction: the event is late or it is
counted. -/
theorem Job.process_admitted {s : Job} {now : ℤ} {e : Event}
    (h : s.remembers now e.eventId = false) :
    s.process now e =
      if lateAtWindow s.watermark e.eventTime then
        { s with
          arrived := s.arrived ++ [(e, now)],
          seen := Function.update s.seen e.eventId (some now),
          deduped := s.deduped ++ [e],
          lateDropped := upsert LateRow.eventId (LateRow.ofEvent s.watermark e) s.lateDropped,
          late := s.late ++ [e] }
      else
        { s with
          arrived := s.arrived ++ [(e, now)],
          seen := Function.update s.seen e.eventId (some now),
          deduped := s.deduped ++ [e],
          openWindows := adjust Counts.zero (Counts.add e) e.windowKey s.openWindows,
          counted := s.counted ++ [e] } := by
  have hremembers :
      Job.remembers { s with arrived := s.arrived ++ [(e, now)] } now e.eventId = false := h
  unfold Job.process
  simp only [hremembers]
  unfold Job.selectLate Job.tumble Job.letThrough
  simp only [← lateAtWindow_eq_windowFired]
  by_cases hlate : lateAtWindow s.watermark e.eventTime = true <;> simp [hlate]

/-- A duplicate is only noted in the history. -/
theorem Job.process_duplicate {s : Job} {now : ℤ} {e : Event}
    (h : s.remembers now e.eventId = true) :
    s.process now e = { s with arrived := s.arrived ++ [(e, now)] } := by
  have hremembers :
      Job.remembers { s with arrived := s.arrived ++ [(e, now)] } now e.eventId = true := h
  unfold Job.process
  simp [hremembers]

/-- What a step can do. -/
inductive Steps (s : Job) : Job → Prop
  /-- A record that is in no view. -/
  | skip : Steps s s
  /-- An event whose dedup state is still there. -/
  | duplicate (e : Event) (now : ℤ) : s.remembers now e.eventId = true →
      Steps s { s with arrived := s.arrived ++ [(e, now)] }
  /-- An event that passes the deduplication and whose window is open. -/
  | count (e : Event) (now : ℤ) : s.remembers now e.eventId = false →
      lateAtWindow s.watermark e.eventTime = false →
      Steps s { s with
        arrived := s.arrived ++ [(e, now)],
        seen := Function.update s.seen e.eventId (some now),
        deduped := s.deduped ++ [e],
        openWindows := adjust Counts.zero (Counts.add e) e.windowKey s.openWindows,
        counted := s.counted ++ [e] }
  /-- An event that passes the deduplication and whose window has fired. -/
  | drop (e : Event) (now : ℤ) : s.remembers now e.eventId = false →
      lateAtWindow s.watermark e.eventTime = true →
      Steps s { s with
        arrived := s.arrived ++ [(e, now)],
        seen := Function.update s.seen e.eventId (some now),
        deduped := s.deduped ++ [e],
        lateDropped := upsert LateRow.eventId (LateRow.ofEvent s.watermark e) s.lateDropped,
        late := s.late ++ [e] }
  /-- A watermark. -/
  | advance (w : ℤ) : (∀ w' ∈ s.watermark, w' ≤ w) → Steps s (s.advance w)

/-- An event takes one of the three ways through the job. -/
theorem Job.steps_process (s : Job) (now : ℤ) (e : Event) : Steps s (s.process now e) := by
  cases hseen : s.remembers now e.eventId with
  | true =>
      rw [Job.process_duplicate hseen]
      exact .duplicate e now hseen
  | false =>
      rw [Job.process_admitted hseen]
      cases hlate : lateAtWindow s.watermark e.eventTime with
      | true => exact .drop e now hseen hlate
      | false => exact .count e now hseen hlate

theorem steps_of_step {s t : Job} {a : Action} (h : step s a = some t) : Steps s t := by
  cases a with
  | record topic row now =>
      simp only [step] at h
      split at h
      · obtain rfl : s = t := by simpa using h
        exact .skip
      · obtain ⟨e, -, rfl⟩ := Option.map_eq_some_iff.1 h
        exact s.steps_process now e
  | watermark w =>
      simp only [step] at h
      split_ifs at h with hw
      obtain rfl : s.advance w = t := by simpa using h
      refine .advance w fun w' hw' => ?_
      rw [Option.mem_def.1 hw'] at hw
      simpa using hw

/-- The rule for invariants of the job: one case for each thing a step can do. -/
theorem job_invariant {I : Job → Prop} (h0 : I Job.start)
    (hstep : ∀ s t, I s → Steps s t → I t) {s : Job} (h : job.Reachable s) : I s :=
  h.invariant h0 fun s _ t hs hst => hstep s t hs (steps_of_step hst)

end AdPipeline.Stream
