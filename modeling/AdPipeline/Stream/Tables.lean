import AdPipeline.Collector.TopicRouter
import AdPipeline.Platform.Json
import AdPipeline.Platform.Time

/-!
# The tables and views of the realtime job

`EventRow` is a Kafka record as a source table reads it: the columns that `pipeline.sql` and the
archive job use, null where the record has no such field. `allEvents` is the view that classifies
the records of the four topics, `lateAtWindow` the test of the view of that name, and `windowFired`
the test by which the tumbling window drops a record. Times are epoch milliseconds.
-/

namespace AdPipeline.Stream

open Collector

/-! ## Source tables -/

/-- The columns of a record. `late` is the generator's `_late` mark. -/
structure EventRow where
  eventId : Option String
  eventType : Option String
  campaignId : Option String
  adRequestId : Option String
  quartile : Option String
  source : Option String
  ssaiTwinOf : Option String
  fill : Option Bool
  late : Option Bool
  eventTime : Option ℤ
deriving DecidableEq

/-- The `json` format with ISO-8601 timestamps: how a field becomes a column value, null where it
does not convert (`json.ignore-parse-errors`). A text column takes the text of a scalar. -/
structure JsonFormat where
  string : Json → Option String
  boolean : Json → Option Bool
  timestamp : Json → Option ℤ
  string_scalar : ∀ v : Json, v.isNull = false → v.isContainer = false → string v = some v.asText

/-- The format by way of Jackson's coercions. -/
def JsonFormat.jackson : JsonFormat where
  string
    | .null => none
    | .arr elements => some (Json.writeValueAsString (.arr elements))
    | .obj fields => some (Json.writeValueAsString (.obj fields))
    | v => some v.asText
  boolean
    | .null => none
    | .bool b => some b
    | v => some (Text.lowercase v.asText = "true")
  timestamp v := (Time.parseInstant v.asText).map Instant.toEpochMilli
  string_scalar v hnull hscalar := by
    cases v with
    | null => cases hnull
    | arr elements => cases hscalar
    | obj fields => cases hscalar
    | _ => rfl

/-- A record read with a format. -/
def EventRow.ofJson (fmt : JsonFormat) (record : Fields) : EventRow where
  eventId := (record.get "event_id").bind fmt.string
  eventType := (record.get "event_type").bind fmt.string
  campaignId := (record.get "campaign_id").bind fmt.string
  adRequestId := (record.get "ad_request_id").bind fmt.string
  quartile := (record.get "quartile").bind fmt.string
  source := (record.get "source").bind fmt.string
  ssaiTwinOf := (record.get "ssai_twin_of").bind fmt.string
  fill := (record.get "fill").bind fmt.boolean
  late := (record.get "_late").bind fmt.boolean
  eventTime := (record.get "event_time").bind fmt.timestamp

/-! ## `all_events` -/

/-- The values of the column `kind`. -/
inductive Kind where
  | impression
  | complete
  | quartile
  | click
  | request
deriving DecidableEq, Repr

/-- A row of `all_events`. Every branch of the view excludes null campaigns. -/
structure ViewRow where
  eventId : Option String
  campaignId : String
  adRequestId : Option String
  eventTime : Option ℤ
  kind : Kind
  isSsaiTwin : ℕ
deriving DecidableEq

/-- A row of the view from the columns all branches select alike. -/
def ViewRow.ofRow (r : EventRow) (kind : Kind) (isSsaiTwin : ℕ) (campaignId : String) : ViewRow :=
  { eventId := r.eventId, campaignId := campaignId, adRequestId := r.adRequestId,
    eventTime := r.eventTime, kind := kind, isSsaiTwin := isSsaiTwin }

/-- The view `all_events`: the row a record of a topic contributes. -/
def allEvents (topic : Topic) (r : EventRow) : Option ViewRow :=
  match topic with
  | .impression =>
    r.campaignId.map (ViewRow.ofRow r .impression (if r.ssaiTwinOf.isSome then 1 else 0))
  | .quartile =>
    r.campaignId.map
      (ViewRow.ofRow r (if r.quartile = some "complete" then .complete else .quartile) 0)
  | .click => r.campaignId.map (ViewRow.ofRow r .click 0)
  | .request =>
    if r.eventType = some "ad_response" ∧ r.fill = some true then
      (r.campaignId.filter fun c => c ≠ "nofill").map (ViewRow.ofRow r .request 0)
    else none
  | .behavior => none
  | .dlq => none

/-- A row whose key and time attribute are not null, as `deduped` and the window need it. -/
structure Event where
  eventId : String
  campaignId : String
  adRequestId : Option String
  eventTime : ℤ
  kind : Kind
  isSsaiTwin : ℕ
deriving DecidableEq

/-- The row with its key and rowtime. The job fails on a null rowtime, and the JDBC sink on a null
key; the Collector and the Outbox worker write both fields into every record. -/
def ViewRow.event (v : ViewRow) : Option Event := do
  let id ← v.eventId
  let t ← v.eventTime
  return { eventId := id, campaignId := v.campaignId, adRequestId := v.adRequestId, eventTime := t,
           kind := v.kind, isSsaiTwin := v.isSsaiTwin }

/-- A row of the view has the columns of the record, with its campaign. -/
theorem exists_ofRow_of_allEvents {topic : Topic} {r : EventRow} {v : ViewRow}
    (h : allEvents topic r = some v) :
    ∃ kind twin, r.campaignId = some v.campaignId ∧
      v = ViewRow.ofRow r kind twin v.campaignId := by
  have hrow : ∀ {c : Option String} {kind : Kind} {twin : ℕ},
      c.map (ViewRow.ofRow r kind twin) = some v →
        c = some v.campaignId ∧ v = ViewRow.ofRow r kind twin v.campaignId := by
    intro c kind twin hc
    obtain ⟨campaign, rfl, rfl⟩ := Option.map_eq_some_iff.1 hc
    exact ⟨rfl, rfl⟩
  cases topic with
  | impression => exact ⟨_, _, hrow h⟩
  | quartile => exact ⟨_, _, hrow h⟩
  | click => exact ⟨_, _, hrow h⟩
  | request =>
      simp only [allEvents] at h
      split at h
      · obtain ⟨hcampaign, hv⟩ := hrow h
        exact ⟨_, _, (Option.filter_eq_some_iff.1 hcampaign).1, hv⟩
      · cases h
  | behavior => cases h
  | dlq => cases h

/-- The columns of the event of a view row. -/
theorem columns_of_event {v : ViewRow} {e : Event} (h : v.event = some e) :
    v.eventId = some e.eventId ∧ v.eventTime = some e.eventTime ∧ v.kind = e.kind ∧
      v.campaignId = e.campaignId := by
  obtain ⟨id, hid, h⟩ := Option.bind_eq_some_iff.1 h
  obtain ⟨t, ht, h⟩ := Option.bind_eq_some_iff.1 h
  obtain rfl : _ = e := by simpa using h
  exact ⟨hid, ht, rfl, rfl⟩

/-- The event of a record has its id, its time and its campaign. -/
theorem row_of_allEvents {topic : Topic} {r : EventRow} {v : ViewRow} {e : Event}
    (hv : allEvents topic r = some v) (he : v.event = some e) :
    r.eventId = some e.eventId ∧ r.eventTime = some e.eventTime ∧
      r.campaignId = some e.campaignId := by
  obtain ⟨kind, twin, hcampaign, hrow⟩ := exists_ofRow_of_allEvents hv
  obtain ⟨hid, htime, -, hevent⟩ := columns_of_event he
  rw [hrow] at hid htime
  exact ⟨hid, htime, hevent ▸ hcampaign⟩

/-! ## One-minute windows -/

/-- `INTERVAL '1' MINUTE`. -/
def minute : ℤ := 60000

/-- `FLOOR(t TO MINUTE)`, also the start of the tumbling window of `t`. -/
def floorToMinute (t : ℤ) : ℤ := t - t % minute

/-- The end of the window of `t`. -/
def windowEnd (t : ℤ) : ℤ := floorToMinute t + minute

/-- `isWindowFired`: the tumbling window drops a record when the watermark has reached the last
millisecond of its window. Before the first watermark no window has fired. -/
def windowFired (windowEnd : ℤ) : Option ℤ → Bool
  | none => false
  | some watermark => windowEnd - 1 ≤ watermark

/-- The condition of `late_at_window`, `watermark_ts` being null before the first watermark. -/
def lateAtWindow (watermark : Option ℤ) (eventTime : ℤ) : Bool :=
  match watermark with
  | none => false
  | some watermarkTs => watermarkTs ≥ floorToMinute eventTime + minute - 1

/-- The late condition is the window's drop condition, to the millisecond. -/
theorem lateAtWindow_eq_windowFired (watermark : Option ℤ) (t : ℤ) :
    lateAtWindow watermark t = windowFired (windowEnd t) watermark := by
  cases watermark <;> rfl

theorem lt_windowEnd (t : ℤ) : t < windowEnd t := by
  unfold windowEnd floorToMinute minute
  omega

@[simp] theorem floorToMinute_mod (t : ℤ) : floorToMinute t % minute = 0 := by
  unfold floorToMinute minute
  omega

/-- An instant is in a scope of whole minutes exactly when its window starts there. -/
theorem floorToMinute_mem_iff {t₀ t₁ : ℤ} (h₀ : t₀ % minute = 0) (h₁ : t₁ % minute = 0) (t : ℤ) :
    (t₀ ≤ floorToMinute t ∧ floorToMinute t < t₁) ↔ (t₀ ≤ t ∧ t < t₁) := by
  unfold floorToMinute minute at *
  omega

end AdPipeline.Stream
