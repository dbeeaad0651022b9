import AdPipeline.Collector.TopicRouter
import AdPipeline.Collector.EventValidator

/-!
# Ingestion of one event

`ingest` validates, enriches and routes an event and makes exactly one publish call. The JSON node
of a call is kept as a tree; the text handed to Kafka is what the mapper writes for it. The clock
readings and the random identifier of a call are its `Readings`.
-/

namespace AdPipeline.Collector

/-- What the handling of one event reads from outside: the clock when it validates, the clock when
it stamps the record, and the random UUID of a dead letter. -/
structure Readings where
  validatedAt : Instant
  stampedAt : Instant
  uuid : String

/-- A call of `publisher.publish`, and whether its outcome is then mapped to `INVALID`. -/
structure PublishCall where
  topic : Topic
  key : String
  node : Fields
  invalid : Bool

/-- The outcome reported for a call, given how its publication went. -/
def PublishCall.outcome (call : PublishCall) (published : Outcome) : Outcome :=
  if call.invalid then .invalid else published

namespace EventIngestService

/-- `enrich`: the server's stamps, and the default source. -/
def enrich (r : Readings) (endpoint : String) (eventTime : Instant) (node : Fields) : Fields :=
  let stamped := ((node.put "server_ts" (.str (Time.toText r.stampedAt.truncatedToMillis))).put
    "event_time" (.str (Time.toText eventTime.truncatedToMillis))).put "ingest_endpoint"
      (.str endpoint)
  if (stamped.get "source").isSome then stamped else stamped.put "source" (.str "client")

/-- The dead letter written for a rejected event. -/
def deadLetter (r : Readings) (endpoint reason : String) (original : Json) : Fields :=
  [("dlq_id", .str r.uuid), ("reason", .str reason), ("endpoint", .str endpoint),
    ("server_ts", .str (Time.toText r.stampedAt)), ("raw", original)]

/-- The partition key of a dead letter: the event id when it has a text, else the letter's own. -/
def dlqKey (r : Readings) (original : Json) : String :=
  match (original.get "event_id").map Json.asText with
  | some id => if Text.isBlank id then r.uuid else id
  | none => r.uuid

/-- `toDlq`. -/
def toDlq (r : Readings) (endpoint reason : String) (original : Json) : PublishCall where
  topic := .dlq
  key := dlqKey r original
  node := deadLetter r endpoint reason original
  invalid := true

/-- The partition key of an event: the ad request id unless it is null, else the event id. -/
def partitionKey (node : Json) : String :=
  match (node.get "ad_request_id").filter fun v => !v.isNull with
  | some arid => arid.asText
  | none => ((node.get "event_id").map Json.asText).getD ""

/-- `ingest`. A node that passes validation is an object, so the last branch is never taken. -/
def ingest (r : Readings) (endpoint : String) (node : Json) : PublishCall :=
  match EventValidator.validate r.validatedAt node with
  | .fail reason => toDlq r endpoint reason node
  | .ok eventTime =>
    match node with
    | .obj fields =>
      let eventType := ((node.get "event_type").map Json.asText).getD ""
      match topicFor eventType with
      | none => toDlq r endpoint ("unknown_event_type:" ++ eventType) node
      | some topic =>
        let enriched := enrich r endpoint eventTime fields
        { topic := topic, key := partitionKey (.obj enriched), node := enriched, invalid := false }
    | _ => toDlq r endpoint "not_an_object" node

/-! ## What a call is -/

/-- An event is routed when it is valid and its type belongs to a topic. -/
structure Routed (now : Instant) (node : Json) (et : Instant) (topic : Topic) : Prop
    extends EventValidator.Valid now node et where
  known : topicFor (((node.get "event_type").map Json.asText).getD "") = some topic

/-- The server's stamps, before the source is looked at. -/
def stamp (r : Readings) (endpoint : String) (eventTime : Instant) (node : Fields) : Fields :=
  ((node.put "server_ts" (.str (Time.toText r.stampedAt.truncatedToMillis))).put "event_time"
    (.str (Time.toText eventTime.truncatedToMillis))).put "ingest_endpoint" (.str endpoint)

theorem enrich_eq (r : Readings) (endpoint : String) (et : Instant) (fields : Fields) :
    enrich r endpoint et fields =
      if ((stamp r endpoint et fields).get "source").isSome then stamp r endpoint et fields
      else (stamp r endpoint et fields).put "source" (.str "client") :=
  rfl

theorem get_stamp_of_notMem {r : Readings} {endpoint : String} {et : Instant} {fields : Fields}
    {name : String} (h : name ∉ ["server_ts", "event_time", "ingest_endpoint"]) :
    (stamp r endpoint et fields).get name = fields.get name := by
  simp only [List.mem_cons, List.not_mem_nil, or_false, not_or] at h
  obtain ⟨hserver, hevent, hendpoint⟩ := h
  rw [stamp, Fields.get_put_of_ne _ _ hendpoint, Fields.get_put_of_ne _ _ hevent,
    Fields.get_put_of_ne _ _ hserver]

/-- The default of the source leaves the other fields as they are. -/
theorem get_enrich_of_ne_source {r : Readings} {endpoint : String} {et : Instant}
    {fields : Fields} {name : String} (h : name ≠ "source") :
    (enrich r endpoint et fields).get name = (stamp r endpoint et fields).get name := by
  rw [enrich_eq]
  split_ifs
  · rfl
  · rw [Fields.get_put_of_ne _ _ h]

/-- Enrichment leaves the fields it does not stamp as they are. -/
theorem get_enrich_of_notMem {r : Readings} {endpoint : String} {et : Instant} {fields : Fields}
    {name : String}
    (h : name ∉ ["server_ts", "event_time", "ingest_endpoint", "source"]) :
    (enrich r endpoint et fields).get name = fields.get name := by
  simp only [List.mem_cons, List.not_mem_nil, or_false, not_or] at h
  obtain ⟨hserver, hevent, hendpoint, hsource⟩ := h
  rw [get_enrich_of_ne_source hsource, get_stamp_of_notMem]
  simp [hserver, hevent, hendpoint]

/-- The time of occurrence is printed in whole milliseconds. -/
theorem get_enrich_eventTime {r : Readings} {endpoint : String} {et : Instant} {fields : Fields} :
    (enrich r endpoint et fields).get "event_time" =
      some (.str (Time.toText et.truncatedToMillis)) := by
  rw [get_enrich_of_ne_source (by decide), stamp, Fields.get_put_of_ne _ _ (by decide),
    Fields.get_put_self]

/-- An event without a source is from the client. -/
theorem get_enrich_source {r : Readings} {endpoint : String} {et : Instant} {fields : Fields} :
    (enrich r endpoint et fields).get "source" =
      some ((fields.get "source").getD (.str "client")) := by
  have hstamped : (stamp r endpoint et fields).get "source" = fields.get "source" :=
    get_stamp_of_notMem (by decide)
  rw [enrich_eq, hstamped]
  cases hsource : fields.get "source" with
  | none =>
      rw [if_neg (by simp), Fields.get_put_self]
      rfl
  | some v =>
      rw [if_pos (by simp), hstamped, hsource]
      rfl

/-- The key is that of the event as received. -/
theorem partitionKey_enrich (r : Readings) (endpoint : String) (et : Instant) (fields : Fields) :
    partitionKey (.obj (enrich r endpoint et fields)) = partitionKey (.obj fields) := by
  unfold partitionKey
  simp only [Json.get]
  rw [get_enrich_of_notMem (by simp), get_enrich_of_notMem (by simp)]

/-- A routed event is published once, to its topic, under its key. -/
theorem ingest_of_routed {r : Readings} (endpoint : String) {node : Json} {et : Instant}
    {topic : Topic} (h : Routed r.validatedAt node et topic) :
    ∃ fields, node = .obj fields ∧
      ingest r endpoint node =
        { topic := topic, key := partitionKey node, node := enrich r endpoint et fields,
          invalid := false } := by
  have hobj := EventValidator.isObject_of_present (h.present "event_id" (by
    simp [EventValidator.required]))
  have hvalid := EventValidator.validate_eq_ok.2 h.toValid
  have hknown := h.known
  cases node with
  | obj fields =>
      refine ⟨fields, rfl, ?_⟩
      unfold ingest
      simp only [hvalid, hknown, partitionKey_enrich]
  | _ => simp [Json.isObject] at hobj

/-- An event that is not routed becomes a dead letter with its reason. -/
theorem ingest_of_not_routed {r : Readings} (endpoint : String) {node : Json}
    (h : ∀ et topic, ¬ Routed r.validatedAt node et topic) :
    ∃ reason, ingest r endpoint node = toDlq r endpoint reason node := by
  unfold ingest
  split
  · exact ⟨_, rfl⟩
  · rename_i et hvalid
    have hv := EventValidator.validate_eq_ok.1 hvalid
    split
    · simp only
      split
      · exact ⟨_, rfl⟩
      · rename_i topic htopic
        exact absurd ⟨hv, htopic⟩ (h et topic)
    · exact ⟨_, rfl⟩

/-! ## Events by what they say -/

/-- What every event says of itself. -/
structure Essentials where
  eventId : String
  eventType : String
  campaignId : String
  time : Instant
  eventId_given : Text.isBlank eventId = false
  eventType_given : Text.isBlank eventType = false
  campaignId_given : Text.isBlank campaignId = false

/-- The node says so. -/
structure Describes (node : Fields) (e : Essentials) : Prop where
  eventId : node.get "event_id" = some (.str e.eventId)
  eventType : node.get "event_type" = some (.str e.eventType)
  campaignId : node.get "campaign_id" = some (.str e.campaignId)
  time : (node.get "event_time").bind EventValidator.parseInstant = some e.time

/-- An event is routed unless it is too far ahead or of no known type. -/
theorem Describes.routed_iff {node : Fields} {e : Essentials} (h : Describes node e)
    {now t : Instant} {topic : Topic} :
    Routed now (.obj node) t topic ↔
      ¬ EventValidator.TooFarAhead now e.time ∧ t = e.time ∧ topicFor e.eventType = some topic := by
  have htype : ((Json.obj node).get "event_type").map Json.asText = some e.eventType := by
    rw [Json.get, h.eventType]
    rfl
  have hpresent : ∀ field s, node.get field = some (.str s) → Text.isBlank s = false →
      EventValidator.Present (.obj node) field :=
    fun field s hget hs => (EventValidator.present_str node field s hget).2 hs
  constructor
  · intro hr
    obtain rfl : e.time = t := Option.some.inj (h.time.symm.trans hr.parses)
    have hknown := hr.known
    rw [htype] at hknown
    exact ⟨not_lt.2 hr.notFuture, rfl, hknown⟩
  · rintro ⟨hahead, rfl, htopic⟩
    refine ⟨⟨?_, h.time, not_lt.1 hahead⟩, by rw [htype]; exact htopic⟩
    simp only [EventValidator.required, List.forall_mem_cons, List.not_mem_nil, false_implies,
      implies_true, and_true]
    exact ⟨hpresent _ _ h.eventId e.eventId_given, hpresent _ _ h.eventType e.eventType_given,
      hpresent _ _ h.campaignId e.campaignId_given, EventValidator.present_of_parses h.time⟩

/-- A dead letter of the event is keyed by the event's own id. -/
theorem Describes.dlqKey_eq {node : Fields} {e : Essentials} (h : Describes node e)
    (r : Readings) : dlqKey r (.obj node) = e.eventId := by
  have hid : ((Json.obj node).get "event_id").map Json.asText = some e.eventId := by
    rw [Json.get, h.eventId]
    rfl
  rw [dlqKey, hid]
  exact if_neg (by simp [e.eventId_given])

end EventIngestService

end AdPipeline.Collector
