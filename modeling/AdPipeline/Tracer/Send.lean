import AdPipeline.Collector.PixelTransport
import AdPipeline.Collector.TrackController
import AdPipeline.Stream.Tables

/-!
# The events of a trace

The tracer sends a few events of a campaign made for the trace and follows them through the
pipeline. `posts` is what it hands to `POST /v1/events` for each kind of trace, and `rows` what the
source tables read of it: an event without a campaign and a pixel with a forged signature get no
further than the dead letters (`rows_of_call`).

The identifiers are random; the texts they start with are kept.
-/

namespace AdPipeline.Tracer

open Collector
open AdPipeline.Stream (EventRow JsonFormat)

/-- The ids of `KINDS`. -/
inductive TraceKind where
  | normal
  | duplicate
  | ssai
  | late
  | badSchema
  | forged
  | adRequest
deriving DecidableEq

/-- What is random in a trace, and the clock. -/
structure Draws where
  /-- `now_ms()`. -/
  ts : ℤ
  traceId : String
  requestHex : String
  hex : String
  twinHex : String
  sigHex : String
  sigHex_length : sigHex.length = 24
  /-- `int(time.time()) + 300`. -/
  expiresAt : ℤ

namespace Draws

variable (d : Draws)

/-- The campaign of the trace. -/
def campaign : String := "cmp-tr-" ++ d.traceId

def arid : String := "req-trace-" ++ d.requestHex

/-- The id of the event, or of the one from the client of two. -/
def eventId : String := "evt-trace-" ++ d.hex

/-- The id of the event from the server. -/
def twinId : String := "evt-trace-" ++ d.twinHex

end Draws

/-- `base_event`, an impression. -/
def baseEvent (campaign eventId : String) (ts : ℤ) (arid source : String) : Event :=
  [("event_id", .str eventId), ("event_type", .str "impression"), ("campaign_id", .str campaign),
    ("event_time", .int ts), ("ad_request_id", .str arid), ("creative_id", .str "crt-trace-a"),
    ("session_id", .str "sess-trace"), ("user_id", .str "user-trace"), ("device", .str "smart_tv"),
    ("content_id", .str "ct-trace"), ("source", .str source)]

/-- The bodies that `send` posts, in order. -/
def posts (kind : TraceKind) (d : Draws) : List (List Event) :=
  let e := baseEvent d.campaign d.eventId d.ts d.arid "client"
  match kind with
  | .normal => [[e]]
  | .duplicate => [[e], [e]]
  | .ssai =>
    [[e, baseEvent d.campaign d.twinId d.ts d.arid "server" ++ [("ssai_twin_of", .str d.eventId)]]]
  | .late =>
    [[baseEvent d.campaign d.eventId (d.ts - 90000) d.arid "client" ++
      [("_late", .other "True" (.bool true))]]]
  | .badSchema => [[e.filter fun f => f.1 ≠ "campaign_id"]]
  | .forged => []
  | .adRequest => []

/-- The query of the forged pixel. -/
def forgedQuery (d : Draws) : QueryParams where
  entries := [("eid", [some d.eventId]), ("et", [some "impression"]), ("cid", [some d.campaign]),
    ("ts", [some (toString d.ts)]), ("arid", [some d.arid]), ("sid", [some "sess-trace"]),
    ("src", [some "client"]), ("exp", [some (toString d.expiresAt)]),
    ("sig", [some ("deadbeef" ++ d.sigHex)])]
  nodup := by
    simp only [List.map_cons, List.map_nil]
    decide

/-! ## What arrives -/

/-- An impression of the trace as the source tables read it. -/
def tracedRow (d : Draws) (eventId source : String) (twin : Option String) (late : Option Bool)
    (time : ℤ) : EventRow where
  eventId := some eventId
  eventType := some "impression"
  campaignId := some d.campaign
  adRequestId := some d.arid
  quartile := none
  source := some source
  ssaiTwinOf := twin
  fill := none
  late := late
  eventTime := some time

/-- The time of the trace's events. -/
def eventTime (kind : TraceKind) (d : Draws) : ℤ :=
  if kind = .late then d.ts - 90000 else d.ts

theorem eventTime_bounds (kind : TraceKind) (d : Draws) :
    d.ts - 90000 ≤ eventTime kind d ∧ eventTime kind d ≤ d.ts := by
  unfold eventTime
  split_ifs <;> omega

/-- The different rows of a trace. -/
def rows (kind : TraceKind) (d : Draws) : List EventRow :=
  let row := tracedRow d d.eventId "client" none none d.ts
  match kind with
  | .normal => [row]
  | .duplicate => [row]
  | .ssai => [row, tracedRow d d.twinId "server" (some d.eventId) none d.ts]
  | .late => [tracedRow d d.eventId "client" none (some true) (d.ts - 90000)]
  | .badSchema => []
  | .forged => []
  | .adRequest => []

/-- A call of the Collector for an event of the trace, with a clock that is not too far behind the
tracer's. -/
inductive CallOf (sign : String → String) (kind : TraceKind) (d : Draws) : PublishCall → Prop
  | posted {e : Event} (he : e ∈ (posts kind d).flatten) (r : Readings)
      (hclock : ¬ EventValidator.TooFarAhead r.validatedAt (.ofEpochMilli d.ts)) :
      CallOf sign kind d (EventIngestService.ingest r "v1_events" (.obj e.json))
  | pixel (hkind : kind = .forged) (verifiedAt defaultedAt : Instant) (r : Readings)
      (rawQuery : Option String) :
      CallOf sign kind d
        (TrackController.track sign verifiedAt defaultedAt r rawQuery (forgedQuery d))

/-- A trace, with made-up identifiers. -/
def sampleDraws : Draws where
  ts := 100000
  traceId := "0"
  requestHex := "1"
  hex := "2"
  twinHex := "3"
  sigHex := "000000000000000000000000"
  sigHex_length := by decide
  expiresAt := 400

/-- A Collector whose clock is the tracer's. -/
def sampleReadings : Readings := ⟨.ofEpochMilli 100000, .ofEpochMilli 100000, ""⟩

theorem sampleReadings_clock : ¬ EventValidator.TooFarAhead sampleReadings.validatedAt
    (.ofEpochMilli sampleDraws.ts) := by decide

/-- What the format has to read. -/
structure Reads (fmt : JsonFormat) (kind : TraceKind) (d : Draws) : Prop where
  time : fmt.timestamp
    (.str (Time.toText (Instant.ofEpochMilli (eventTime kind d)).truncatedToMillis)) =
      some (eventTime kind d)
  boolean : fmt.boolean (.bool true) = some true
  bounds : Text.longMin + 90000 ≤ d.ts ∧ d.ts ≤ Text.longMax

/-! ## The Collector -/

theorem isBlank_append_of_left {s t : String} (h : Text.isBlank s = false) :
    Text.isBlank (s ++ t) = false := by
  rw [Text.isBlank, String.toList_append, List.all_append]
  rw [Text.isBlank] at h
  rw [h, Bool.false_and]

theorem string_str (fmt : JsonFormat) (s : String) : fmt.string (.str s) = some s :=
  fmt.string_scalar (.str s) rfl rfl

/-- A stamped event is read as the event is, with the time it was stamped with and a source. -/
theorem ofJson_enrich {fmt : JsonFormat} {t : Instant} {ms : ℤ}
    (hreads : fmt.timestamp (.str (Time.toText t.truncatedToMillis)) = some ms) (r : Readings)
    (endpoint : String) (fields : Fields) :
    EventRow.ofJson fmt (EventIngestService.enrich r endpoint t fields) =
      { EventRow.ofJson fmt fields with
        source := fmt.string ((fields.get "source").getD (.str "client"))
        eventTime := some ms } := by
  have hkept : ∀ name ∉ ["server_ts", "event_time", "ingest_endpoint", "source"],
      (EventIngestService.enrich r endpoint t fields).get name = fields.get name :=
    fun name h => EventIngestService.get_enrich_of_notMem h
  rw [EventRow.ofJson, EventIngestService.get_enrich_eventTime,
    EventIngestService.get_enrich_source, Option.bind_some, Option.bind_some, hreads,
    hkept _ (by decide), hkept _ (by decide), hkept _ (by decide), hkept _ (by decide),
    hkept _ (by decide), hkept _ (by decide), hkept _ (by decide), hkept _ (by decide)]
  rfl

theorem isBlank_eventId (d : Draws) : Text.isBlank d.eventId = false :=
  isBlank_append_of_left (by decide)

theorem isBlank_twinId (d : Draws) : Text.isBlank d.twinId = false :=
  isBlank_append_of_left (by decide)

/-- The fields a posted impression has besides those of `base_event`, with what is read of them. -/
inductive Extra : Event → Option String → Option Bool → Prop
  | plain : Extra [] none none
  | twin (id : String) : Extra [("ssai_twin_of", .str id)] (some id) none
  | late : Extra [("_late", .other "True" (.bool true))] none (some true)

/-- An impression that is posted is stamped and published. -/
theorem ingest_of_extra {d : Draws} {id source : String} {t : ℤ} {extra : Event}
    {twin : Option String} {late : Option Bool} (hextra : Extra extra twin late)
    (hid : Text.isBlank id = false) (hbounds : Text.longMin ≤ t ∧ t ≤ Text.longMax) {r : Readings}
    (hclock : ¬ EventValidator.TooFarAhead r.validatedAt (.ofEpochMilli t)) :
    let e := Event.json (baseEvent d.campaign id t d.arid source ++ extra)
    let call := EventIngestService.ingest r "v1_events" (.obj e)
    call.topic = .impression ∧
      call.node = EventIngestService.enrich r "v1_events" (.ofEpochMilli t) e := by
  intro e call
  have hmappable :
      PixelTransport.Mappable (baseEvent d.campaign id t d.arid source ++ extra) t := by
    refine ⟨?_, .inl rfl, hbounds, ?_⟩
    · simp only [List.forall_mem_cons]
      exact ⟨⟨_, rfl, hid⟩, ⟨_, rfl, by decide⟩, ⟨_, rfl, isBlank_append_of_left (by decide)⟩,
        fun _ h => absurd h List.not_mem_nil⟩
    · simp only [List.forall_mem_cons]
      refine ⟨.inr ⟨_, rfl⟩, .inr ⟨_, rfl⟩, .inl ?_, .inr ⟨_, rfl⟩, .inr ⟨_, rfl⟩,
        fun _ h => absurd h List.not_mem_nil⟩
      cases hextra <;> rfl
  obtain ⟨e', he', hcarries⟩ := PixelTransport.exists_essentials hmappable
  have htype : e'.eventType = "impression" :=
    EventValue.str.inj (Option.some.inj hcarries.eventType).symm
  have hrouted := (PixelTransport.describes_json hmappable hcarries he').routed_iff.2
    ⟨by rwa [he'], he'.symm, show topicFor e'.eventType = some .impression by rw [htype]; decide⟩
  obtain ⟨fields, hfields, hcall⟩ := EventIngestService.ingest_of_routed "v1_events" hrouted
  obtain rfl := Json.obj.inj hfields
  rw [show call = _ from hcall]
  exact ⟨rfl, rfl⟩

/-- An impression that is posted arrives, and is read as it was sent. -/
theorem ingest_impression {fmt : JsonFormat} {d : Draws} {id source : String} {t : ℤ}
    {extra : Event} {twin : Option String} {late : Option Bool} (hextra : Extra extra twin late)
    (hid : Text.isBlank id = false) (hbounds : Text.longMin ≤ t ∧ t ≤ Text.longMax)
    (htime : fmt.timestamp (.str (Time.toText (Instant.ofEpochMilli t).truncatedToMillis)) =
      some t) (htrue : fmt.boolean (.bool true) = some true) {r : Readings}
    (hclock : ¬ EventValidator.TooFarAhead r.validatedAt (.ofEpochMilli t)) :
    let call := EventIngestService.ingest r "v1_events"
      (.obj (Event.json (baseEvent d.campaign id t d.arid source ++ extra)))
    call.topic = .impression ∧
      EventRow.ofJson fmt call.node = tracedRow d id source twin late t := by
  intro call
  have harrived : call.topic = .impression ∧ call.node = EventIngestService.enrich r "v1_events"
      (.ofEpochMilli t) (Event.json (baseEvent d.campaign id t d.arid source ++ extra)) :=
    ingest_of_extra hextra hid hbounds hclock
  refine ⟨harrived.1, ?_⟩
  rw [harrived.2, ofJson_enrich htime, EventRow.ofJson]
  simp only [Event.get_json]
  cases hextra with
  | plain => simp [baseEvent, tracedRow, Event.get, Lib.entry, EventValue.json, string_str]
  | twin id' => simp [baseEvent, tracedRow, Event.get, Lib.entry, EventValue.json, string_str]
  | late => simp [baseEvent, tracedRow, Event.get, Lib.entry, EventValue.json, string_str, htrue]

/-- An event that lacks a field is a dead letter. -/
theorem ingest_of_missing {fields : Fields} {reason : String}
    (h : EventValidator.required.findSome? (EventValidator.checkField (.obj fields)) = some reason)
    (r : Readings) (endpoint : String) :
    EventIngestService.ingest r endpoint (.obj fields) =
      EventIngestService.toDlq r endpoint reason (.obj fields) := by
  have hvalidate : EventValidator.validate r.validatedAt (.obj fields) = .fail reason := by
    have hobject : (Json.obj fields).isObject = true := rfl
    rw [EventValidator.validate, if_pos hobject, h]
  rw [EventIngestService.ingest, hvalidate]

/-- The event without a campaign is a dead letter. -/
theorem ingest_badSchema (d : Draws) (r : Readings) {e : Event}
    (he : e ∈ (posts .badSchema d).flatten) :
    EventIngestService.ingest r "v1_events" (.obj e.json) =
      EventIngestService.toDlq r "v1_events" "missing_field:campaign_id" (.obj e.json) := by
  have hpopped : e = (baseEvent d.campaign d.eventId d.ts d.arid "client").filter
      fun f => f.1 ≠ "campaign_id" := by simpa [posts] using he
  have hget : ∀ field, e.json.get field = (e.get field).map EventValue.json := Event.get_json e
  refine ingest_of_missing ?_ r "v1_events"
  have hid : EventValidator.checkField (.obj e.json) "event_id" = none :=
    EventValidator.checkField_eq_none.2 ((EventValidator.present_str _ _ d.eventId
      (by rw [hget, hpopped]; rfl)).2 (isBlank_eventId d))
  have htype : EventValidator.checkField (.obj e.json) "event_type" = none :=
    EventValidator.checkField_eq_none.2 ((EventValidator.present_str _ _ "impression"
      (by rw [hget, hpopped]; rfl)).2 (by decide))
  have hcampaign : EventValidator.checkField (.obj e.json) "campaign_id" =
      some "missing_field:campaign_id" := by
    rw [EventValidator.checkField, Json.get, hget, hpopped]
    rfl
  rw [EventValidator.required, List.findSome?_cons, hid, List.findSome?_cons, htype,
    List.findSome?_cons, hcampaign]

theorem length_hexdigest (bytes : List UInt8) :
    (hexdigest bytes).length = 2 * bytes.length := by
  rw [hexdigest, ← String.length_toList, String.toList_ofList, List.length_flatMap]
  simp [Nat.mul_comm]

/-- The forged signature is too short to be one. -/
theorem exists_track_forged {hmac : String → List UInt8} (hhmac : ∀ s, (hmac s).length = 32)
    (d : Draws) (verifiedAt defaultedAt : Instant) (r : Readings) (rawQuery : Option String) :
    ∃ reason, TrackController.track (fun s => hexdigest (hmac s)) verifiedAt defaultedAt r rawQuery
      (forgedQuery d) = EventIngestService.toDlq r "v1_track" ("track_" ++ reason)
        (.obj (TrackController.rejectedQuery rawQuery (forgedQuery d))) := by
  have hinvalid : SignatureVerifier.verify (fun s => hexdigest (hmac s)) verifiedAt
      (forgedQuery d) ≠ .valid := by
    intro hvalid
    obtain ⟨sig, hsig, htag⟩ := SignatureVerifier.verify_eq_valid hvalid
    have hlength := congrArg String.length htag
    obtain rfl : "deadbeef" ++ d.sigHex = sig := Option.some.inj hsig
    rw [length_hexdigest, hhmac, Text.lowercase, ← String.length_toList, String.toList_ofList,
      List.length_map, String.length_toList, String.length_append, d.sigHex_length] at hlength
    revert hlength
    decide
  unfold TrackController.track
  split
  · rename_i reason _
    exact ⟨reason, rfl⟩
  · contradiction

/-- An earlier time is not further ahead. -/
theorem not_tooFarAhead {now : Instant} {t t' : ℤ} (hle : t' ≤ t)
    (h : ¬ EventValidator.TooFarAhead now (.ofEpochMilli t)) :
    ¬ EventValidator.TooFarAhead now (.ofEpochMilli t') := by
  unfold EventValidator.TooFarAhead Instant.ofEpochMilli at *
  simp only [not_lt] at h ⊢
  omega

/-! ## Rows and calls -/

variable {hmac : String → List UInt8} {fmt : JsonFormat} {kind : TraceKind} {d : Draws}

/-- The event reaches its topic as the row, whenever the Collector takes it. -/
def Arrives (fmt : JsonFormat) (d : Draws) (e : Event) (row : EventRow) : Prop :=
  ∀ r : Readings, ¬ EventValidator.TooFarAhead r.validatedAt (.ofEpochMilli d.ts) →
    (EventIngestService.ingest r "v1_events" (.obj e.json)).topic = .impression ∧
      EventRow.ofJson fmt (EventIngestService.ingest r "v1_events" (.obj e.json)).node = row

theorem arrives (hreads : Reads fmt kind d) {id source : String} {extra : Event}
    {twin : Option String} {late : Option Bool} (hextra : Extra extra twin late)
    (hid : Text.isBlank id = false) :
    Arrives fmt d (baseEvent d.campaign id (eventTime kind d) d.arid source ++ extra)
      (tracedRow d id source twin late (eventTime kind d)) := by
  intro r hclock
  obtain ⟨hge, hle⟩ := eventTime_bounds kind d
  obtain ⟨hmin, hmax⟩ := hreads.bounds
  exact ingest_impression hextra hid ⟨by omega, by omega⟩ hreads.time hreads.boolean
    (not_tooFarAhead hle hclock)

/-- Every event posted arrives as one of the rows, unless it is not valid. -/
theorem exists_row (hreads : Reads fmt kind d) (hkind : kind ≠ .badSchema) {e : Event}
    (he : e ∈ (posts kind d).flatten) : ∃ row ∈ rows kind d, Arrives fmt d e row := by
  cases kind with
  | normal =>
      obtain rfl := List.mem_singleton.1 he
      exact ⟨_, List.mem_singleton_self _, arrives hreads .plain (isBlank_eventId d)⟩
  | duplicate =>
      have he' : e = baseEvent d.campaign d.eventId d.ts d.arid "client" := by
        simpa [posts] using he
      rw [he']
      exact ⟨_, List.mem_singleton_self _, arrives hreads .plain (isBlank_eventId d)⟩
  | ssai =>
      rcases List.mem_cons.1 he with rfl | he
      · exact ⟨_, List.mem_cons_self, arrives hreads .plain (isBlank_eventId d)⟩
      · obtain rfl := List.mem_singleton.1 he
        exact ⟨_, List.mem_cons_of_mem _ (List.mem_singleton_self _),
          arrives hreads (.twin d.eventId) (isBlank_twinId d)⟩
  | late =>
      obtain rfl := List.mem_singleton.1 he
      exact ⟨_, List.mem_singleton_self _, arrives hreads .late (isBlank_eventId d)⟩
  | badSchema => exact absurd rfl hkind
  | forged => cases he
  | adRequest => cases he

/-- The rows of a trace come from the events it posts. -/
theorem exists_posted (hreads : Reads fmt kind d) {row : EventRow} (hrow : row ∈ rows kind d) :
    ∃ e ∈ (posts kind d).flatten, Arrives fmt d e row := by
  cases kind with
  | normal =>
      obtain rfl := List.mem_singleton.1 hrow
      exact ⟨_, List.mem_cons_self, arrives hreads .plain (isBlank_eventId d)⟩
  | duplicate =>
      obtain rfl := List.mem_singleton.1 hrow
      exact ⟨_, List.mem_cons_self, arrives hreads .plain (isBlank_eventId d)⟩
  | ssai =>
      rcases List.mem_cons.1 hrow with rfl | hrow
      · exact ⟨_, List.mem_cons_self, arrives hreads .plain (isBlank_eventId d)⟩
      · obtain rfl := List.mem_singleton.1 hrow
        exact ⟨_, List.mem_cons_of_mem _ List.mem_cons_self,
          arrives hreads (.twin d.eventId) (isBlank_twinId d)⟩
  | late =>
      obtain rfl := List.mem_singleton.1 hrow
      exact ⟨_, List.mem_cons_self, arrives hreads .late (isBlank_eventId d)⟩
  | badSchema => cases hrow
  | forged => cases hrow
  | adRequest => cases hrow

/-- What the calls for a trace hand to the data topics are its rows. -/
theorem rows_of_call (hhmac : ∀ s, (hmac s).length = 32) (hreads : Reads fmt kind d)
    {call : PublishCall} (h : CallOf (fun s => hexdigest (hmac s)) kind d call)
    (hdata : call.topic ≠ .dlq) :
    call.topic = .impression ∧ EventRow.ofJson fmt call.node ∈ rows kind d := by
  cases h with
  | posted he r hclock =>
      by_cases hkind : kind = .badSchema
      · subst hkind
        rw [ingest_badSchema d r he] at hdata
        exact absurd rfl hdata
      · obtain ⟨row, hrow, harrives⟩ := exists_row hreads hkind he
        obtain ⟨htopic, hread⟩ := harrives r hclock
        exact ⟨htopic, hread ▸ hrow⟩
  | pixel hkind verifiedAt defaultedAt r rawQuery =>
      obtain ⟨reason, htrack⟩ := exists_track_forged hhmac d verifiedAt defaultedAt r rawQuery
      rw [htrack] at hdata
      exact absurd rfl hdata

end AdPipeline.Tracer
