import AdPipeline.Collector.EpochTime
import AdPipeline.Collector.EventIngestService
import AdPipeline.Stream.Tables

/-!
# Event times in the 64-bit arithmetic of the stream engine

The other modules of the job count milliseconds without bound. The engine keeps a timestamp in a
`long`, where sums and differences wrap. The Collector passes an accepted time on to the millisecond
(`rowtime_enrich`), and its validator bounds the time from above only. `noWrap_iff` gives the times
for which the watermark and the window of an event are what the unbounded arithmetic says.
-/

namespace AdPipeline.Stream

open Collector

/-! ## Wrapping arithmetic -/

/-- The rowtime of a record, as the engine keeps it. -/
def rowtime (r : EventRow) : Option ℤ := r.eventTime.map Json.lowLong

/-- `event_time - INTERVAL '__WATERMARK_DELAY__' SECOND`, the delay in milliseconds. -/
def watermarkOf (delay t : ℤ) : ℤ := Json.lowLong (t - delay)

/-- `FLOOR(event_time TO MINUTE) + INTERVAL '1' MINUTE`. -/
def longWindowEnd (t : ℤ) : ℤ := Json.lowLong (Json.lowLong (floorToMinute t) + minute)

/-- An event's watermark is not beyond the event's time, and its window ends after it. -/
structure NoWrap (delay eventTime t : ℤ) : Prop where
  watermark : watermarkOf delay t ≤ eventTime
  windowEnd : eventTime < longWindowEnd t

/-- Nothing wraps in the watermark when the difference fits a `long`. -/
theorem watermarkOf_le_iff {delay t : ℤ} (h : 0 ≤ delay ∧ delay ≤ Text.longMax) :
    watermarkOf delay (Json.lowLong t) ≤ t ↔ Text.longMin + delay ≤ t := by
  unfold watermarkOf Json.lowLong Text.longMin
  unfold Text.longMax at h
  omega

/-- Where the start of a window wraps, its end wraps back. -/
theorem longWindowEnd_eq (t : ℤ) : longWindowEnd t = Json.lowLong (windowEnd t) :=
  Json.lowLong_add (floorToMinute t) minute

/-- Nothing wraps in the window's end when it fits a `long`. -/
theorem lt_longWindowEnd_iff {t : ℤ} :
    t < longWindowEnd (Json.lowLong t) ↔ windowEnd t ≤ Text.longMax := by
  have hlt := lt_windowEnd t
  have hle : windowEnd t ≤ t + minute := by
    unfold windowEnd floorToMinute minute
    omega
  have hbounds := Json.lowLong_bounds (windowEnd (Json.lowLong t))
  rw [longWindowEnd_eq]
  unfold minute at hle
  by_cases hlong : Text.longMin ≤ t ∧ t ≤ Text.longMax
  · rw [Json.lowLong_of_bounds hlong]
    unfold Text.longMin Text.longMax at hlong
    unfold Json.lowLong Text.longMax
    omega
  · -- beyond the range the wrapped end is on the other side of the time
    unfold Text.longMin Text.longMax at *
    omega

theorem noWrap_lowLong_iff {delay t : ℤ} (h : 0 ≤ delay ∧ delay ≤ Text.longMax) :
    NoWrap delay t (Json.lowLong t) ↔ Text.longMin + delay ≤ t ∧ windowEnd t ≤ Text.longMax := by
  rw [← watermarkOf_le_iff h, ← lt_longWindowEnd_iff]
  exact ⟨fun hno => ⟨hno.watermark, hno.windowEnd⟩, fun ⟨hw, he⟩ => ⟨hw, he⟩⟩

/-! ## From the validator to the engine -/

theorem inRange_truncatedToMillis {t : Instant} (h : Time.inRange t = true) :
    Time.inRange t.truncatedToMillis = true := by
  have hsecond : t.truncatedToMillis.epochSecond = t.epochSecond := by
    unfold Instant.truncatedToMillis Instant.epochSecond Instant.ofEpochMilli Instant.toEpochMilli
    simp only
    omega
  rw [Time.inRange, hsecond]
  exact h

theorem timestamp_str (s : String) :
    JsonFormat.jackson.timestamp (.str s) = (Time.parseInstant s).map Instant.toEpochMilli := rfl

theorem rowtime_ofJson (fmt : JsonFormat) (record : Fields) :
    rowtime (.ofJson fmt record) =
      ((record.get "event_time").bind fmt.timestamp).map Json.lowLong := rfl

/-- The engine reads the time an accepted event is stamped with as the accepted time, wrapped. -/
theorem rowtime_enrich {now et : Instant} {fields : Fields}
    (h : EventValidator.Valid now (.obj fields) et) (r : Readings) (endpoint : String) :
    rowtime (.ofJson .jackson (EventIngestService.enrich r endpoint et fields)) =
      some (Json.lowLong et.toEpochMilli) := by
  obtain ⟨v, -, hparses⟩ := Option.bind_eq_some_iff.1 h.parses
  have hrange := inRange_truncatedToMillis (EventValidator.inRange_of_parseInstant hparses)
  rw [rowtime_ofJson, EventIngestService.get_enrich_eventTime, Option.bind_some, timestamp_str,
    Time.parseInstant_toText hrange, Option.map_some, Option.map_some, Instant.truncatedToMillis,
    Instant.toEpochMilli_ofEpochMilli]

/-- On the record of an accepted event the engine's watermark and window do not wrap exactly when
the accepted time is at least the delay above the least `long` and its minute ends in range. -/
theorem noWrap_iff (delay : ℤ) (hdelay : 0 ≤ delay ∧ delay ≤ Text.longMax) (r : Readings)
    (endpoint : String) (fields : Fields) (et : Instant)
    (hvalid : EventValidator.validate r.validatedAt (.obj fields) = .ok et) :
    (∃ t, rowtime (.ofJson .jackson (EventIngestService.enrich r endpoint et fields)) = some t ∧
        NoWrap delay et.toEpochMilli t) ↔
      Text.longMin + delay ≤ et.toEpochMilli ∧ windowEnd et.toEpochMilli ≤ Text.longMax := by
  rw [rowtime_enrich (EventValidator.validate_eq_ok.1 hvalid), ← noWrap_lowLong_iff hdelay]
  constructor
  · rintro ⟨t, ht, hno⟩
    rw [Option.some.inj ht]
    exact hno
  · intro hno
    exact ⟨_, rfl, hno⟩

/-- An impression at a number of milliseconds. -/
def impressionAt (ms : ℤ) : Fields :=
  [("event_id", .str "e1"), ("event_type", .str "impression"), ("campaign_id", .str "c1"),
    ("event_time", .int ms)]

/-- The clock of the collector. -/
def collectorReadings : Readings := ⟨.ofEpochMilli 1790000000000, .ofEpochMilli 1790000000000, ""⟩

/-- A present impression under a delay of ten seconds. -/
theorem noWrap_iff_present :
    ∃ t, rowtime (.ofJson .jackson (EventIngestService.enrich collectorReadings "v1_events"
        (.ofEpochMilli 1790000000000) (impressionAt 1790000000000))) = some t ∧
      NoWrap 10000 (Instant.ofEpochMilli 1790000000000).toEpochMilli t :=
  (noWrap_iff 10000 (by decide) collectorReadings "v1_events" (impressionAt 1790000000000)
    (.ofEpochMilli 1790000000000) (by decide)).2 (by decide)

/-- The least `long` is accepted as a time, and the watermark of its record lies at the other end of
the range. -/
theorem watermark_wraps :
    EventValidator.validate collectorReadings.validatedAt
        (.obj (impressionAt (-9223372036854775808))) =
      .ok (.ofEpochMilli (-9223372036854775808)) ∧
    rowtime (.ofJson .jackson (EventIngestService.enrich collectorReadings "v1_events"
        (.ofEpochMilli (-9223372036854775808)) (impressionAt (-9223372036854775808)))) =
      some (-9223372036854775808) ∧
    watermarkOf 10000 (-9223372036854775808) = 9223372036854765808 ∧
    ¬ NoWrap 10000 (-9223372036854775808) (-9223372036854775808) := by
  have hvalid : EventValidator.validate collectorReadings.validatedAt
      (.obj (impressionAt (-9223372036854775808))) =
        .ok (.ofEpochMilli (-9223372036854775808)) := by
    decide
  refine ⟨hvalid, ?_, by decide, fun h => ?_⟩
  · exact rowtime_enrich (EventValidator.validate_eq_ok.1 hvalid) collectorReadings "v1_events"
  · have hle := h.watermark
    revert hle
    decide

end AdPipeline.Stream
