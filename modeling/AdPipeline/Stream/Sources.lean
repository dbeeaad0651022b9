import AdPipeline.Collector.EventIngestService
import AdPipeline.Lib.Watermark
import AdPipeline.Stream.Realtime

/-!
# The sources of the realtime job and its watermark

Records that the Collector accepted are read from the partitions of four topics. Each partition
tracks the latest `event_time` it has seen, the job's watermark is the least of these less
`WATERMARK_DELAY` over the partitions that are not idle, and it never goes back. The watermark is
emitted periodically, so a run interleaves reading, partitions going idle and emissions.

The watermark follows the clients' clocks, and the validator lets a clock be up to five minutes
ahead. Since it is the least over the partitions that are not idle, it gets ahead of a record's
`server_ts` by no more than the least skew that one of them has seen, less the delay. This bounds
what is late (`punctual_not_late`).
-/

namespace AdPipeline.Stream

open Collector Lib

/-! ## Accepted records -/

/-- An event that passed the validator and was published to a data topic. It is stamped after it was
validated, and the format reads the time it was stamped with. -/
structure Accepted (fmt : JsonFormat) where
  readings : Readings
  endpoint : String
  node : Json
  time : Instant
  topic : Topic
  routed : EventIngestService.Routed readings.validatedAt node time topic
  clock : readings.validatedAt.nanos ≤ readings.stampedAt.nanos
  reads : fmt.timestamp (.str (Time.toText time.truncatedToMillis)) = some time.toEpochMilli

namespace Accepted

variable {fmt : JsonFormat} (a : Accepted fmt)

/-- The record as a source table reads it. -/
def row : EventRow :=
  .ofJson fmt (EventIngestService.ingest a.readings a.endpoint a.node).node

/-- The server's clock when it stamped the record. -/
def serverTs : ℤ := a.readings.stampedAt.toEpochMilli

/-- The client's time of the event. -/
def eventTime : ℤ := a.time.toEpochMilli

/-- The stamped time is the event's, to the millisecond. -/
theorem row_eventTime : a.row.eventTime = some a.eventTime := by
  obtain ⟨fields, -, hcall⟩ := EventIngestService.ingest_of_routed a.endpoint a.routed
  rw [row, hcall]
  show ((EventIngestService.enrich a.readings a.endpoint a.time fields).get "event_time").bind
    fmt.timestamp = _
  rw [EventIngestService.get_enrich_eventTime]
  exact a.reads

/-- The validator's bound on the client's clock. -/
theorem eventTime_le : a.eventTime ≤ a.serverTs + EventValidator.maxFutureSkewSeconds * 1000 := by
  have hvalid := Instant.toEpochMilli_mono a.routed.notFuture
  have hclock := Instant.toEpochMilli_mono a.clock
  rw [Instant.toEpochMilli_plusSeconds] at hvalid
  unfold eventTime serverTs
  omega

end Accepted

/-! ## Reading the partitions -/

/-- The topics of the source tables. -/
def sourceTopics : List Topic := [.impression, .quartile, .click, .request]

/-- The partitions, and the records read from each so far. -/
structure Inputs (fmt : JsonFormat) where
  partitions : List Partition
  consumed : List (ℕ × Accepted fmt)

/-- The inputs with the job behind them. `emission` is what they were when the watermark was last
raised. -/
structure Source (fmt : JsonFormat) extends Inputs fmt where
  job : Job
  emission : Option (Inputs fmt)

variable {fmt : JsonFormat}

def Source.start (fmt : JsonFormat) (partitions : ℕ) : Source fmt where
  partitions := List.replicate partitions .fresh
  consumed := []
  job := Job.start
  emission := none

/-- A record read from a partition at a processing time, a partition without data for the idle
timeout, or a periodic emission. -/
inductive SourceAction (fmt : JsonFormat) where
  | consume (i : ℕ) (a : Accepted fmt) (now : ℤ)
  | idle (i : ℕ)
  | emit

/-- One step of the sources with the job. `WATERMARK FOR event_time` observes every record of the
table, also those no view selects. -/
def sourceStep (delay : ℤ) (s : Source fmt) : SourceAction fmt → Option (Source fmt)
  | .consume i a now =>
    if i < s.partitions.length ∧ a.topic ∈ sourceTopics then
      (step s.job (.record a.topic a.row now)).map fun job =>
        { s with
          partitions := s.partitions.modify i fun p => a.row.eventTime.elim p p.observe
          consumed := s.consumed ++ [(i, a)]
          job := job }
    else none
  | .idle i =>
    some { s with partitions := s.partitions.modify i fun p => { p with idle := true } }
  | .emit =>
    match combinedWatermark delay s.partitions with
    | none => some s
    | some w =>
      if s.job.watermark.all (· < w) then
        (step s.job (.watermark w)).map fun job =>
          { s with job := job, emission := some s.toInputs }
      else some s

/-- The sources with the job, as a transition system. -/
def source (fmt : JsonFormat) (delay : ℤ) (partitions : ℕ) :
    System (Source fmt) (SourceAction fmt) :=
  ⟨Source.start fmt partitions, sourceStep delay⟩

/-- Records are read in the order of their `server_ts`. -/
def InOrder (s : Source fmt) : SourceAction fmt → Prop
  | .consume _ a _ => ∀ b ∈ s.consumed, b.2.serverTs ≤ a.serverTs
  | _ => True

/-- Partition `j` is not idle when the watermark is emitted. -/
def ActiveAt (j : ℕ) (s : Source fmt) : SourceAction fmt → Prop
  | .emit => ∃ p, s.partitions[j]? = some p ∧ p.idle = false
  | _ => True

/-! ## Where the watermark comes from -/

/-- Reading a record leaves the watermark. -/
theorem watermark_of_record {s t : Job} {topic : Topic} {row : EventRow} {now : ℤ}
    (h : step s (.record topic row now) = some t) : t.watermark = s.watermark := by
  simp only [step] at h
  split at h
  · obtain rfl : s = t := by simpa using h
    rfl
  · obtain ⟨e, -, rfl⟩ := Option.map_eq_some_iff.1 h
    cases hseen : s.remembers now e.eventId with
    | true => rw [Job.process_duplicate hseen]
    | false =>
        rw [Job.process_admitted hseen]
        split_ifs <;> rfl

theorem watermark_of_watermark {s t : Job} {w : ℤ} (h : step s (.watermark w) = some t) :
    t.watermark = some w := by
  simp only [step] at h
  split_ifs at h
  obtain rfl : s.advance w = t := by simpa using h
  rfl

/-- Every time a partition has seen is that of a record read from it. -/
def Inputs.Seen (inputs : Inputs fmt) : Prop :=
  ∀ j p, inputs.partitions[j]? = some p → ∀ m ∈ p.maxSeen,
    ∃ b, (j, b) ∈ inputs.consumed ∧ m = b.eventTime

/-- No clock of the records read from partition `j` is more than `skew` ahead. -/
def Inputs.SkewOf (skew : ℤ) (inputs : Inputs fmt) (j : ℕ) : Prop :=
  ∀ b, (j, b) ∈ inputs.consumed → b.eventTime ≤ b.serverTs + skew

theorem Inputs.Seen.start (n : ℕ) : (Source.start fmt n).Seen := by
  intro j p hp m hm
  obtain rfl : p = .fresh := List.eq_of_mem_replicate (List.mem_of_getElem? hp)
  cases hm

theorem Inputs.Seen.observe {inputs : Inputs fmt} (h : inputs.Seen) (i : ℕ) (a : Accepted fmt) :
    Inputs.Seen ⟨inputs.partitions.modify i (Partition.observe a.eventTime),
      inputs.consumed ++ [(i, a)]⟩ := by
  intro j p hp m hm
  rw [List.getElem?_modify] at hp
  obtain ⟨q, hq, rfl⟩ := Option.map_eq_some_iff.1 hp
  have hold : m ∈ q.maxSeen → ∃ b, (j, b) ∈ inputs.consumed ++ [(i, a)] ∧ m = b.eventTime := by
    intro hm
    obtain ⟨b, hb, hmb⟩ := h j q hq m hm
    exact ⟨b, List.mem_append_left _ hb, hmb⟩
  split_ifs at hm with hij
  · rcases Partition.mem_maxSeen_observe hm with rfl | hm
    · exact ⟨a, by simp [hij], rfl⟩
    · exact hold hm
  · exact hold hm

theorem Inputs.Seen.idle {inputs : Inputs fmt} (h : inputs.Seen) (i : ℕ) :
    Inputs.Seen
      ⟨inputs.partitions.modify i fun p => { p with idle := true }, inputs.consumed⟩ := by
  intro j p hp m hm
  rw [List.getElem?_modify] at hp
  obtain ⟨q, hq, rfl⟩ := Option.map_eq_some_iff.1 hp
  refine h j q hq m ?_
  split_ifs at hm <;> exact hm

/-- What raises the watermark is no more than the skew of any partition that is not idle, less the
delay, after the `server_ts` of some record read from it. -/
theorem Inputs.Seen.le_of_skewOf {inputs : Inputs fmt} (h : inputs.Seen) {delay skew w : ℤ} {j : ℕ}
    {p : Partition} (hw : combinedWatermark delay inputs.partitions = some w)
    (hp : inputs.partitions[j]? = some p) (hactive : p.idle = false)
    (hskew : inputs.SkewOf skew j) :
    ∃ b ∈ inputs.consumed, w ≤ b.2.serverTs + skew - delay := by
  obtain ⟨w', hw', hle⟩ := combinedWatermark_le hw (List.mem_of_getElem? hp) hactive
  obtain ⟨m, hm, rfl⟩ := Option.map_eq_some_iff.1 hw'
  obtain ⟨b, hb, rfl⟩ := h j p hp m hm
  have hb' := hskew b hb
  exact ⟨(j, b), hb, by dsimp only; omega⟩

/-- The watermark is the combined one of the inputs it was raised by, which had read no other
records. -/
structure Witnessed (delay : ℤ) (s : Source fmt) : Prop where
  seen : s.Seen
  raised : ∀ inputs ∈ s.emission, inputs.Seen ∧ inputs.consumed ⊆ s.consumed ∧
    (combinedWatermark delay inputs.partitions).isSome
  watermark : s.job.watermark = s.emission.bind fun inputs =>
    combinedWatermark delay inputs.partitions

theorem Witnessed.consume {delay : ℤ} {s t : Source fmt} {i : ℕ} {a : Accepted fmt} {now : ℤ}
    (h : Witnessed delay s) (hst : sourceStep delay s (.consume i a now) = some t) :
    Witnessed delay t := by
  simp only [sourceStep, a.row_eventTime, Option.elim_some] at hst
  split_ifs at hst
  obtain ⟨job, hjob, rfl⟩ := Option.map_eq_some_iff.1 hst
  refine ⟨h.seen.observe i a, ?_, (watermark_of_record hjob).trans h.watermark⟩
  intro inputs hinputs
  obtain ⟨hseen, hsub, hsome⟩ := h.raised inputs hinputs
  exact ⟨hseen, List.Subset.trans hsub (List.subset_append_left _ _), hsome⟩

theorem Witnessed.emit {delay : ℤ} {s t : Source fmt} (h : Witnessed delay s)
    (hst : sourceStep delay s .emit = some t) : Witnessed delay t := by
  simp only [sourceStep] at hst
  split at hst
  · obtain rfl : s = t := by simpa using hst
    exact h
  · rename_i w hw
    split at hst
    · obtain ⟨job, hjob, rfl⟩ := Option.map_eq_some_iff.1 hst
      refine ⟨h.seen, ?_, (watermark_of_watermark hjob).trans hw.symm⟩
      intro inputs hinputs
      obtain rfl : s.toInputs = inputs := by simpa using hinputs
      exact ⟨h.seen, List.Subset.refl _, by rw [hw, Option.isSome_some]⟩
    · obtain rfl : s = t := by simpa using hst
      exact h

theorem witnessed {ok : Source fmt → SourceAction fmt → Prop} {delay : ℤ} {n : ℕ} {s : Source fmt}
    (h : (source fmt delay n).Reaches ok s) : Witnessed delay s := by
  refine h.invariant (I := Witnessed delay) ⟨.start n, ?_, rfl⟩ ?_
  · intro inputs hinputs
    cases hinputs
  intro s a t _ hs _ hst
  cases a with
  | consume i a now => exact hs.consume hst
  | idle i =>
      obtain rfl : _ = t := by simpa [source, sourceStep] using hst
      exact ⟨hs.seen.idle i, hs.raised, hs.watermark⟩
  | emit => exact hs.emit hst

/-- Some partition that was not idle when the watermark was raised had seen no clock more than
`skew` ahead. -/
def SkewBound (skew : ℤ) (s : Source fmt) : Prop :=
  ∀ inputs ∈ s.emission, ∃ j p, inputs.partitions[j]? = some p ∧ p.idle = false ∧
    inputs.SkewOf skew j

/-- With the skew so bounded, a record more than that less the delay after its `server_ts` finds
its window open. -/
theorem lateAtWindow_eq_false {ok : Source fmt → SourceAction fmt → Prop} {delay skew : ℤ} {n : ℕ}
    {s : Source fmt} {a : Accepted fmt} (h : (source fmt delay n).Reaches ok s)
    (horder : ∀ b ∈ s.consumed, b.2.serverTs ≤ a.serverTs) (hskew : SkewBound skew s)
    (hpunctual : a.serverTs + skew - delay < a.eventTime) :
    lateAtWindow s.job.watermark a.eventTime = false := by
  rw [lateAtWindow_eq_windowFired]
  cases hw : s.job.watermark with
  | none => rfl
  | some w =>
      rw [(witnessed h).watermark] at hw
      obtain ⟨inputs, hinputs, hcombined⟩ := Option.bind_eq_some_iff.1 hw
      obtain ⟨hseen, hsub, -⟩ := (witnessed h).raised inputs hinputs
      obtain ⟨j, p, hp, hactive, hj⟩ := hskew inputs hinputs
      obtain ⟨b, hb, hwb⟩ := hseen.le_of_skewOf hcombined hp hactive hj
      have hab := horder b (hsub hb)
      have hend := lt_windowEnd a.eventTime
      unfold windowFired
      simp only [decide_eq_false_iff_not]
      omega

/-- A bound for every record read is one for the partition the watermark is of. -/
theorem skewBound_of_forall {ok : Source fmt → SourceAction fmt → Prop} {delay skew : ℤ} {n : ℕ}
    {s : Source fmt} (h : (source fmt delay n).Reaches ok s)
    (hskew : ∀ b ∈ s.consumed, b.2.eventTime ≤ b.2.serverTs + skew) : SkewBound skew s := by
  intro inputs hinputs
  obtain ⟨-, hsub, hsome⟩ := (witnessed h).raised inputs hinputs
  obtain ⟨w, hw⟩ := Option.isSome_iff_exists.1 hsome
  obtain ⟨p, hp, hactive, -⟩ := exists_of_combinedWatermark hw
  obtain ⟨j, hj⟩ := List.mem_iff_getElem?.1 hp
  exact ⟨j, p, hj, hactive, fun b hb => hskew _ (hsub hb)⟩

/-- A partition that is not idle at any emission was not when the watermark was raised. -/
theorem exists_active {delay : ℤ} {n j : ℕ} {s : Source fmt}
    (h : (source fmt delay n).Reaches (ActiveAt j) s) :
    ∀ inputs ∈ s.emission, ∃ p, inputs.partitions[j]? = some p ∧ p.idle = false := by
  refine h.invariant (I := fun s => ∀ inputs ∈ s.emission,
    ∃ p, inputs.partitions[j]? = some p ∧ p.idle = false) ?_ ?_
  · intro inputs hinputs
    cases hinputs
  intro s a t _ hs hactive hst
  cases a with
  | consume i a now =>
      simp only [source, sourceStep] at hst
      split_ifs at hst
      obtain ⟨job, -, rfl⟩ := Option.map_eq_some_iff.1 hst
      exact hs
  | idle i =>
      obtain rfl : _ = t := by simpa [source, sourceStep] using hst
      exact hs
  | emit =>
      simp only [source, sourceStep] at hst
      split at hst
      · obtain rfl : s = t := by simpa using hst
        exact hs
      · split_ifs at hst
        · obtain ⟨job, -, rfl⟩ := Option.map_eq_some_iff.1 hst
          intro inputs hinputs
          obtain rfl : s.toInputs = inputs := by simpa using hinputs
          exact hactive
        · obtain rfl : s = t := by simpa using hst
          exact hs

/-- A bound for a partition that is not idle at any emission is one for the watermark. -/
theorem skewBound_of_activeAt {delay skew : ℤ} {n j : ℕ} {s : Source fmt}
    (h : (source fmt delay n).Reaches (ActiveAt j) s) (hskew : s.SkewOf skew j) :
    SkewBound skew s := by
  intro inputs hinputs
  obtain ⟨-, hsub, -⟩ := (witnessed h).raised inputs hinputs
  obtain ⟨p, hp, hactive⟩ := exists_active h inputs hinputs
  exact ⟨j, p, hp, hactive, fun b hb => hskew b (hsub hb)⟩

/-- A record whose window is open is not selected. -/
theorem late_of_consume {delay : ℤ} {s t : Source fmt} {i : ℕ} {a : Accepted fmt} {now : ℤ}
    (hst : sourceStep delay s (.consume i a now) = some t)
    (hopen : lateAtWindow s.job.watermark a.eventTime = false) :
    t.job.late = s.job.late ∧ t.job.lateDropped = s.job.lateDropped := by
  simp only [sourceStep] at hst
  split_ifs at hst
  obtain ⟨job, hjob, rfl⟩ := Option.map_eq_some_iff.1 hst
  simp only [step] at hjob
  split at hjob
  · obtain rfl : s.job = job := by simpa using hjob
    exact ⟨rfl, rfl⟩
  · rename_i v hv
    obtain ⟨e, he, rfl⟩ := Option.map_eq_some_iff.1 hjob
    have htime : e.eventTime = a.eventTime := by
      obtain ⟨-, hrow, -⟩ := row_of_allEvents hv he
      rw [a.row_eventTime] at hrow
      exact (Option.some.inj hrow).symm
    rw [← htime] at hopen
    cases hseen : s.job.remembers now e.eventId with
    | true => simp [Job.process_duplicate hseen]
    | false => simp [Job.process_admitted hseen, hopen]

/-! ## Punctual records -/

/-- A record read in the order of `server_ts` is not selected as late when its `event_time` is after
`server_ts` plus the skew of the clocks in some partition that held the watermark less the delay.
A partition that is never idle at an emission is one, and in all of them the skew is at most what
the validator allows. -/
theorem punctual_not_late {delay : ℤ} {n : ℕ} {s t : Source fmt} {i : ℕ} {a : Accepted fmt}
    {now : ℤ} (h : (source fmt delay n).Reaches InOrder s)
    (horder : InOrder s (.consume i a now))
    (hst : sourceStep delay s (.consume i a now) = some t) :
    SkewBound (EventValidator.maxFutureSkewSeconds * 1000) s ∧
    (∀ skew, (∀ b ∈ s.consumed, b.2.eventTime ≤ b.2.serverTs + skew) → SkewBound skew s) ∧
    (∀ skew j, (source fmt delay n).Reaches (ActiveAt j) s → s.SkewOf skew j → SkewBound skew s) ∧
    ∀ skew, SkewBound skew s → a.serverTs + skew - delay < a.eventTime →
      lateAtWindow s.job.watermark a.eventTime = false ∧
      t.job.late = s.job.late ∧ t.job.lateDropped = s.job.lateDropped := by
  refine ⟨skewBound_of_forall h fun b _ => b.2.eventTime_le, fun _ => skewBound_of_forall h,
    fun _ _ => skewBound_of_activeAt, ?_⟩
  intro skew hskew hpunctual
  have hopen := lateAtWindow_eq_false h horder hskew hpunctual
  exact ⟨hopen, late_of_consume hst hopen⟩

/-- An impression with a time in milliseconds. -/
def timedNode (id : String) (eventTime : ℤ) : Json :=
  .obj [("event_id", .str id), ("event_type", .str "impression"), ("campaign_id", .str "c1"),
    ("event_time", .int eventTime)]

theorem routed_timedNode {now : Instant} {id : String} {t : ℤ} (hid : Text.isBlank id = false)
    (hnow : (Instant.ofEpochMilli (Json.lowLong t)).nanos ≤
      (now.plusSeconds EventValidator.maxFutureSkewSeconds).nanos) :
    EventIngestService.Routed now (timedNode id t) (.ofEpochMilli (Json.lowLong t))
      .impression := by
  have hdescribes : EventIngestService.Describes
      [("event_id", .str id), ("event_type", .str "impression"), ("campaign_id", .str "c1"),
        ("event_time", .int t)]
      ⟨id, "impression", "c1", .ofEpochMilli (Json.lowLong t), hid, rfl, rfl⟩ :=
    ⟨rfl, rfl, rfl, rfl⟩
  have htopic : topicFor "impression" = some .impression := by decide
  exact hdescribes.routed_iff.2 ⟨not_lt.2 hnow, rfl, htopic⟩

/-- A client whose clock is five minutes ahead, at server time zero. -/
def fastClock : Accepted .jackson where
  readings := ⟨.ofEpochMilli 0, .ofEpochMilli 0, ""⟩
  endpoint := "/events"
  node := timedNode "fast" 300000
  time := .ofEpochMilli 300000
  topic := .impression
  routed := routed_timedNode (by decide) (by decide)
  clock := le_refl _
  reads := by decide

/-- A client whose clock is right, one second later. -/
def punctual : Accepted .jackson where
  readings := ⟨.ofEpochMilli 1000, .ofEpochMilli 1000, ""⟩
  endpoint := "/events"
  node := timedNode "punctual" 1000
  time := .ofEpochMilli 1000
  topic := .impression
  routed := routed_timedNode (by decide) (by decide)
  clock := le_refl _
  reads := by decide

/-- The event such a record becomes. -/
def timedEvent (id : String) (eventTime : ℤ) : Event where
  eventId := id
  campaignId := "c1"
  adRequestId := none
  eventTime := eventTime
  kind := .impression
  isSsaiTwin := 0

/-- A record of such an impression. -/
structure Timed (a : Accepted .jackson) (id : String) : Prop where
  topic : a.topic = .impression
  eventId : a.row.eventId = some id
  campaignId : a.row.campaignId = some "c1"
  adRequestId : a.row.adRequestId = none
  ssaiTwinOf : a.row.ssaiTwinOf = none

theorem timed_fastClock : Timed fastClock "fast" := ⟨rfl, rfl, rfl, rfl, rfl⟩

theorem timed_punctual : Timed punctual "punctual" := ⟨rfl, rfl, rfl, rfl, rfl⟩

/-- The inputs and the job once such a record was read. -/
def Source.readTimed (s : Source .jackson) (i : ℕ) (a : Accepted .jackson) (id : String)
    (now : ℤ) : Source .jackson :=
  { s with
    partitions := s.partitions.modify i (Partition.observe a.eventTime)
    consumed := s.consumed ++ [(i, a)]
    job := s.job.process now (timedEvent id a.eventTime) }

/-- Reading such a record hands its event to the job. -/
theorem Timed.step {a : Accepted .jackson} {id : String} (h : Timed a id) (delay : ℤ)
    {s : Source .jackson} {i : ℕ} {now : ℤ} (hpartitions : i < s.partitions.length) :
    sourceStep delay s (.consume i a now) = some (s.readTimed i a id now) := by
  have hstep : Stream.step s.job (.record .impression a.row now) =
      some (s.job.process now (timedEvent id a.eventTime)) := by
    simp [Stream.step, allEvents, ViewRow.ofRow, ViewRow.event, h.eventId, h.campaignId,
      h.adRequestId, h.ssaiTwinOf, a.row_eventTime, timedEvent]
  have htopics : a.topic ∈ sourceTopics := by simp [h.topic, sourceTopics]
  simp only [sourceStep]
  rw [if_pos ⟨hpartitions, htopics⟩, h.topic, hstep, a.row_eventTime]
  rfl

theorem Timed.reaches {a : Accepted .jackson} {id : String} (h : Timed a id) {delay : ℤ} {n : ℕ}
    {ok : Source .jackson → SourceAction .jackson → Prop} {s : Source .jackson}
    (hs : (source .jackson delay n).Reaches ok s) (i : ℕ) (now : ℤ) (hok : ok s (.consume i a now))
    (hpartitions : i < s.partitions.length) :
    (source .jackson delay n).Reaches ok (s.readTimed i a id now) :=
  hs.take _ hok (h.step delay hpartitions)

/-- The clock of the first partition is five minutes ahead, that of the second is right and holds
the watermark. With a delay of ten seconds the record of the right clock is punctual: sent again
after the emission, it finds its window open. -/
theorem punctual_not_late_again : ∃ s t : Source .jackson,
    (source .jackson 10000 2).Reaches InOrder s ∧ (0, fastClock) ∈ s.consumed ∧
    s.job.watermark = some (-9000) ∧ sourceStep 10000 s (.consume 0 punctual 5) = some t ∧
    lateAtWindow s.job.watermark punctual.eventTime = false ∧
    t.job.late = s.job.late ∧ t.job.lateDropped = s.job.lateDropped := by
  have h0 : (source .jackson 10000 2).Reaches (fun s a => InOrder s a ∧ ActiveAt 1 s a)
    (Source.start .jackson 2) := .init
  have h1 := timed_fastClock.reaches h0 0 0 ⟨(by intro b hb; cases hb), trivial⟩ (by decide)
  have h2 := timed_punctual.reaches h1 1 0
    ⟨(by intro b hb; obtain rfl := List.mem_singleton.1 hb; decide), trivial⟩ (by decide)
  obtain ⟨s, hs, hwatermark, hpartitions, hconsumed⟩ : ∃ s : Source .jackson,
      (source .jackson 10000 2).Reaches (fun s a => InOrder s a ∧ ActiveAt 1 s a) s ∧
        s.job.watermark = some (-9000) ∧ s.partitions.length = 2 ∧
        s.consumed = [(0, fastClock), (1, punctual)] :=
    ⟨_, h2.take .emit ⟨trivial, _, rfl, rfl⟩ rfl, rfl, rfl, rfl⟩
  have hagain : sourceStep 10000 s (.consume 0 punctual 5) = some _ :=
    timed_punctual.step 10000 (by omega)
  have horder : InOrder s (.consume 0 punctual 5) := by
    show ∀ b ∈ s.consumed, b.2.serverTs ≤ punctual.serverTs
    rw [hconsumed]
    decide
  obtain ⟨-, -, hactive, hpunctual⟩ :=
    punctual_not_late (hs.mono fun _ _ h => h.1) horder hagain
  refine ⟨s, _, hs.mono fun _ _ h => h.1, by simp [hconsumed], hwatermark, hagain, ?_⟩
  refine hpunctual 0 (hactive 0 1 (hs.mono fun _ _ h => h.2) ?_) (by decide)
  intro b hb
  obtain rfl : b = punctual := by simpa [hconsumed] using hb
  decide

/-- Without the skew it fails: the record of the fast clock moves the watermark past the window of
a record stamped and timed a second later. -/
theorem punctual_late_after_fast_clock : ∃ s : Source .jackson,
    (source .jackson 10000 1).Reaches InOrder s ∧ InOrder s (.consume 0 punctual 0) ∧
    punctual.serverTs - 10000 < punctual.eventTime ∧
    lateAtWindow s.job.watermark punctual.eventTime = true := by
  have h0 : (source .jackson 10000 1).Reaches InOrder (Source.start .jackson 1) := .init
  have h1 := timed_fastClock.reaches h0 0 0 (by intro b hb; cases hb) (by decide)
  have h2 := h1.take .emit trivial rfl
  refine ⟨_, h2, ?_, by decide, by decide⟩
  intro b hb
  obtain rfl : b = (0, fastClock) := List.mem_singleton.1 hb
  decide

end AdPipeline.Stream
