import AdPipeline.Collector.EpochTime
import AdPipeline.Collector.EventController
import AdPipeline.Collector.PixelEvent
import AdPipeline.Collector.PixelSender

/-!
# Pixels and posted events

An event reaches the topics as a pixel or in the body of a request. `sameRouting_of_alike` says when
two nodes are routed alike: they describe one event, and differ in what is null or has a default.
`pixel_agrees` is that the node of a pixel and the posted node are such a pair.
-/

namespace AdPipeline.Collector

namespace PixelTransport

open EventValidator (TooFarAhead)
open EventIngestService (Essentials Describes)

/-- The value of a field, a null being none. -/
def valueOf (node : Fields) (field : String) : Option Json :=
  (node.get field).filter fun v => !v.isNull

/-- Two nodes of one event, up to nulls and to the default of the source. -/
structure Alike (node node' : Fields) (e : Essentials) : Prop where
  left : Describes node e
  right : Describes node' e
  optional : ∀ field ∈ ["ad_request_id", "creative_id", "quartile", "session_id"],
    valueOf node field = valueOf node' field
  source : (node.get "source").getD (.str "client") = (node'.get "source").getD (.str "client")

/-- The fields a pixel carries. -/
def mappedFields : List String := Player.pixelMap.entries.map Prod.snd

/-- Two calls for one topic and key. What reaches a data topic has the same mapped fields. -/
structure SameRouting (call call' : PublishCall) : Prop where
  topic : call.topic = call'.topic
  key : call.key = call'.key
  fields : call.topic ≠ .dlq → ∀ field ∈ mappedFields,
    valueOf call.node field = valueOf call'.node field

variable {node node' : Fields} {e : Essentials} {r r' : Readings}

/-! ## Nodes of one event -/

theorem Alike.partitionKey_eq (h : Alike node node' e) :
    EventIngestService.partitionKey (.obj node) = EventIngestService.partitionKey (.obj node') := by
  have harid := h.optional "ad_request_id" (by simp)
  unfold valueOf at harid
  unfold EventIngestService.partitionKey
  rw [Json.get, Json.get, Json.get, Json.get, harid, h.left.eventId, h.right.eventId]

/-- Enrichment keeps two nodes of one event alike. -/
theorem Alike.valueOf_enrich (h : Alike node node' e) (endpoint endpoint' : String)
    {field : String} (hfield : field ∈ mappedFields) :
    valueOf (EventIngestService.enrich r endpoint e.time node) field =
      valueOf (EventIngestService.enrich r' endpoint' e.time node') field := by
  have hkept : field ∉ ["server_ts", "event_time", "ingest_endpoint", "source"] →
      valueOf node field = valueOf node' field →
        valueOf (EventIngestService.enrich r endpoint e.time node) field =
          valueOf (EventIngestService.enrich r' endpoint' e.time node') field := by
    intro hnot hvalue
    unfold valueOf at hvalue ⊢
    rw [EventIngestService.get_enrich_of_notMem hnot, EventIngestService.get_enrich_of_notMem hnot]
    exact hvalue
  simp only [mappedFields, Player.pixelMap, List.map_cons, List.map_nil, List.mem_cons,
    List.not_mem_nil, or_false] at hfield
  rcases hfield with rfl | rfl | rfl | rfl | rfl | rfl | rfl | rfl | rfl
  · exact hkept (by decide) (by rw [valueOf, valueOf, h.left.eventId, h.right.eventId])
  · exact hkept (by decide) (by rw [valueOf, valueOf, h.left.eventType, h.right.eventType])
  · exact hkept (by decide) (by rw [valueOf, valueOf, h.left.campaignId, h.right.campaignId])
  · rw [valueOf, valueOf, EventIngestService.get_enrich_eventTime,
      EventIngestService.get_enrich_eventTime]
  · exact hkept (by decide) (h.optional _ (by simp))
  · exact hkept (by decide) (h.optional _ (by simp))
  · exact hkept (by decide) (h.optional _ (by simp))
  · exact hkept (by decide) (h.optional _ (by simp))
  · rw [valueOf, valueOf, EventIngestService.get_enrich_source,
      EventIngestService.get_enrich_source, h.source]

/-- Nodes of one event are routed alike at clocks that judge its time alike. -/
theorem sameRouting_of_alike (h : Alike node node' e) (endpoint endpoint' : String)
    (hclock : TooFarAhead r.validatedAt e.time ↔ TooFarAhead r'.validatedAt e.time) :
    SameRouting (EventIngestService.ingest r endpoint (.obj node))
      (EventIngestService.ingest r' endpoint' (.obj node')) := by
  by_cases hsound : ¬ TooFarAhead r.validatedAt e.time ∧ ∃ topic, topicFor e.eventType = some topic
  · -- both are published
    obtain ⟨hahead, topic, htopic⟩ := hsound
    obtain ⟨fields, hfields, hcall⟩ := EventIngestService.ingest_of_routed endpoint
      (h.left.routed_iff.2 ⟨hahead, rfl, htopic⟩)
    obtain ⟨fields', hfields', hcall'⟩ := EventIngestService.ingest_of_routed endpoint'
      (h.right.routed_iff.2 ⟨fun hahead' => hahead (hclock.2 hahead'), rfl, htopic⟩)
    obtain rfl := Json.obj.inj hfields
    obtain rfl := Json.obj.inj hfields'
    rw [hcall, hcall']
    exact ⟨rfl, h.partitionKey_eq, fun _ field hf => h.valueOf_enrich endpoint endpoint' hf⟩
  · -- both are dead letters
    have hnot : ∀ t topic,
        ¬ EventIngestService.Routed r.validatedAt (.obj node) t topic := by
      intro t topic hr
      obtain ⟨hahead, -, htopic⟩ := h.left.routed_iff.1 hr
      exact hsound ⟨hahead, topic, htopic⟩
    have hnot' : ∀ t topic,
        ¬ EventIngestService.Routed r'.validatedAt (.obj node') t topic := by
      intro t topic hr
      obtain ⟨hahead, -, htopic⟩ := h.right.routed_iff.1 hr
      exact hsound ⟨fun hahead' => hahead (hclock.1 hahead'), topic, htopic⟩
    obtain ⟨reason, hcall⟩ := EventIngestService.ingest_of_not_routed endpoint hnot
    obtain ⟨reason', hcall'⟩ := EventIngestService.ingest_of_not_routed endpoint' hnot'
    rw [hcall, hcall']
    exact ⟨rfl, (h.left.dlqKey_eq r).trans (h.right.dlqKey_eq r').symm,
      fun hdata => absurd rfl hdata⟩

/-! ## The pixel of an event and its posted node -/

/-- A sender's event: the mapped fields are texts where they are given at all, three of them must
be given and not blank, and the time of occurrence is an integer that fits a `Long`. -/
structure Mappable (ev : Event) (n : ℤ) : Prop where
  identified : ∀ field ∈ ["event_id", "event_type", "campaign_id"],
    ∃ s, ev.get field = some (.str s) ∧ Text.isBlank s = false
  time : ev.get "event_time" = some (.int n) ∨ ev.get "event_time" = some (.str (toString n))
  bounds : Text.longMin ≤ n ∧ n ≤ Text.longMax
  optional : ∀ field ∈ ["ad_request_id", "creative_id", "quartile", "session_id", "source"],
    ev.get field = none ∨ ∃ s, ev.get field = some (.str s)

variable {ev : Event} {n : ℤ}

/-- A field that is a text where it is given is posted as the text a pixel carries. -/
theorem get_json_of_text {field : String}
    (h : ev.get field = none ∨ ∃ s, ev.get field = some (.str s)) :
    ev.json.get field = (ev.text field).map .str := by
  rw [Event.get_json, Event.text]
  rcases h with h | ⟨s, h⟩ <;> rw [h] <;> rfl

/-- The time of occurrence is read alike as a number and as the text of a pixel. -/
theorem parses_time (hev : Mappable ev n) :
    (ev.json.get "event_time").bind EventValidator.parseInstant = some (.ofEpochMilli n) ∧
      (ev.text "event_time").bind EventValidator.parseInstantText = some (.ofEpochMilli n) := by
  have htext : EventValidator.parseInstantText (toString n) = some (.ofEpochMilli n) := by
    rw [EventValidator.parseInstantText_toString, Text.inLong, if_pos hev.bounds]
    rfl
  rw [Event.get_json, Event.text]
  rcases hev.time with h | h <;> rw [h]
  · refine ⟨?_, htext⟩
    show EventValidator.parseInstant (.int n) = _
    rw [EventValidator.parseInstant_int, Json.lowLong_of_bounds hev.bounds]
  · refine ⟨?_, htext⟩
    show EventValidator.parseInstant (.str (toString n)) = _
    rw [EventValidator.parseInstant_str, htext]

/-- The event has the texts. -/
structure Carries (ev : Event) (e : Essentials) : Prop where
  eventId : ev.get "event_id" = some (.str e.eventId)
  eventType : ev.get "event_type" = some (.str e.eventType)
  campaignId : ev.get "campaign_id" = some (.str e.campaignId)

theorem exists_essentials (hev : Mappable ev n) :
    ∃ e : Essentials, e.time = .ofEpochMilli n ∧ Carries ev e := by
  obtain ⟨eid, heid, heid'⟩ := hev.identified "event_id" (by simp)
  obtain ⟨et, het, het'⟩ := hev.identified "event_type" (by simp)
  obtain ⟨cid, hcid, hcid'⟩ := hev.identified "campaign_id" (by simp)
  exact ⟨⟨eid, et, cid, .ofEpochMilli n, heid', het', hcid'⟩, rfl, ⟨heid, het, hcid⟩⟩

/-- The posted node says what the event says. -/
theorem describes_json (hev : Mappable ev n) {e : Essentials} (he : Carries ev e)
    (ht : e.time = .ofEpochMilli n) : Describes ev.json e := by
  refine ⟨?_, ?_, ?_, ?_⟩
  · rw [Event.get_json, he.eventId]
    rfl
  · rw [Event.get_json, he.eventType]
    rfl
  · rw [Event.get_json, he.campaignId]
    rfl
  · rw [ht]
    exact (parses_time hev).1

variable {p : QueryParams}

/-- The node built from a query that carries the mapped fields says what the event says. -/
theorem describes_pixelEvent (hev : Mappable ev n) {e : Essentials} (he : Carries ev e)
    (ht : e.time = .ofEpochMilli n)
    (hfirst : ∀ key field, (key, field) ∈ Player.pixelMap.entries → p.first key = ev.text field)
    (now : Instant) : Describes (TrackController.pixelEvent now p) e := by
  have htext : ∀ {field s}, ev.get field = some (.str s) → ev.text field = some s := by
    intro field s h
    rw [Event.text, h]
    rfl
  refine ⟨?_, ?_, ?_, ?_⟩
  · show some ((p.first "eid").elim Json.null .str) = _
    rw [hfirst "eid" "event_id" (by decide), htext he.eventId]
    rfl
  · show some (Json.str ((p.first "et").getD "impression")) = _
    rw [hfirst "et" "event_type" (by decide), htext he.eventType]
    rfl
  · show some ((p.first "cid").elim Json.null .str) = _
    rw [hfirst "cid" "campaign_id" (by decide), htext he.campaignId]
    rfl
  · have hget : (TrackController.pixelEvent now p).get "event_time" = some (.str (Time.toText
        (((p.first "ts").bind EventValidator.parseInstantText).getD now))) := rfl
    rw [hget, hfirst "ts" "event_time" (by decide), (parses_time hev).2, Option.getD_some,
      Option.bind_some, EventValidator.parseInstant_str,
      EventValidator.parseInstantText_toText (Time.inRange_ofEpochMilli hev.bounds), ht]

/-- The node built from a query that carries the mapped fields and the node that is posted are those
of one event. -/
theorem exists_alike (hev : Mappable ev n)
    (hfirst : ∀ key field, (key, field) ∈ Player.pixelMap.entries → p.first key = ev.text field)
    (now : Instant) :
    ∃ e : Essentials, e.time = .ofEpochMilli n ∧
      Alike (TrackController.pixelEvent now p) ev.json e := by
  obtain ⟨e, ht, he⟩ := exists_essentials hev
  -- an optional field is null in the pixel's node where the posted node lacks it
  have hoptional : ∀ key field, (key, field) ∈ Player.pixelMap.entries →
      field ∈ ["ad_request_id", "creative_id", "quartile", "session_id", "source"] →
      (TrackController.pixelEvent now p).get field = some ((p.first key).elim .null .str) →
      valueOf (TrackController.pixelEvent now p) field = valueOf ev.json field := by
    intro key field hkey hfield hget
    rw [valueOf, valueOf, hget, hfirst key field hkey,
      get_json_of_text (hev.optional field hfield)]
    cases ev.text field <;> rfl
  refine ⟨e, ht, describes_pixelEvent hev he ht hfirst now, describes_json hev he ht, ?_, ?_⟩
  · intro field hfield
    simp only [List.mem_cons, List.not_mem_nil, or_false] at hfield
    rcases hfield with rfl | rfl | rfl | rfl
    · exact hoptional "arid" _ (by decide) (by decide) rfl
    · exact hoptional "crid" _ (by decide) (by decide) rfl
    · exact hoptional "q" _ (by decide) (by decide) rfl
    · exact hoptional "sid" _ (by decide) (by decide) rfl
  · show Json.str ((p.first "src").getD "client") = _
    rw [hfirst "src" "source" (by decide), get_json_of_text (hev.optional "source" (by simp))]
    cases ev.text "source" <;> rfl

/-- An unforged pixel that arrives before it expires is valid, and its event is routed as the event
posted in a request is: to the same topic, under the same key, with the same mapped fields. -/
theorem pixel_agrees (hmac : String → List UInt8) (sender : Sender) (ev : Event) (n : ℤ)
    (hev : Mappable ev n) (builtAt verifiedAt defaultedAt : Instant)
    (hbuilt : Time.inRange builtAt = true)
    (hexp : verifiedAt.epochSecond ≤ PixelSender.expiry builtAt) (r r' : Readings)
    (hclock : TooFarAhead r.validatedAt (.ofEpochMilli n) ↔
      TooFarAhead r'.validatedAt (.ofEpochMilli n))
    (rawQuery : Option String) (s : EventController.State) :
    SignatureVerifier.verify (fun text => hexdigest (hmac text)) verifiedAt
        (sender.pixel hmac builtAt none ev) = .valid ∧
      SameRouting
        (TrackController.track (fun text => hexdigest (hmac text)) verifiedAt defaultedAt r rawQuery
          (sender.pixel hmac builtAt none ev))
        (EventController.nextAttempt s (.obj ev.json) r').call := by
  rw [Sender.pixel_eq]
  have hvalid : SignatureVerifier.verify (fun text => hexdigest (hmac text)) verifiedAt
      (PixelSender.query hmac Player.pixelMap builtAt none ev) = .valid :=
    PixelSender.verify_query hmac hbuilt hexp
  obtain ⟨e, htime, halike⟩ := exists_alike
    (p := PixelSender.query hmac Player.pixelMap builtAt none ev) hev
    (fun key field h => PixelSender.first_query_of_mem hmac none h) defaultedAt
  refine ⟨hvalid, ?_⟩
  rw [TrackController.track, hvalid]
  exact sameRouting_of_alike halike "v1_track" "v1_events" (by rw [htime]; exact hclock)

/-- A click whose texts contain delimiters. -/
def click : Event :=
  [("event_id", .str "e1"), ("event_type", .str "click"), ("campaign_id", .str "c 1&x=%"),
    ("event_time", .int 1790000000000), ("ad_request_id", .str "r+1")]

/-- The keyed hash of the click, under the development key. -/
def clickHmac (text : String) : List UInt8 :=
  if text = "arid=r+1&cid=c 1&x=%&eid=e1&et=click&exp=1790000300&ts=1790000000000" then
    [0x32, 0x7f, 0x05, 0x57, 0x80, 0x57, 0xda, 0x5b, 0xf1, 0xe3, 0x58, 0x03, 0x09, 0x4c, 0x4e,
      0x25, 0x68, 0x2e, 0x3d, 0x20, 0x68, 0x77, 0x13, 0xa8, 0x7a, 0x35, 0x05, 0x23, 0x9e, 0x5d,
      0xfb, 0x76]
  else []

/-- The click, sent by the player as a pixel and posted. -/
theorem pixel_agrees_click :
    SignatureVerifier.verify (fun text => hexdigest (clickHmac text)) (.ofEpochMilli 1790000001000)
        (Sender.player.pixel clickHmac (.ofEpochMilli 1790000000000) none click) = .valid ∧
      SameRouting
        (TrackController.track (fun text => hexdigest (clickHmac text))
          (.ofEpochMilli 1790000001000) ⟨0⟩ ⟨.ofEpochMilli 1790000001000, ⟨0⟩, ""⟩ none
          (Sender.player.pixel clickHmac (.ofEpochMilli 1790000000000) none click))
        (EventController.nextAttempt (EventController.start ⟨1, 1, Nat.one_pos⟩ [])
          (.obj click.json) ⟨.ofEpochMilli 1790000002000, ⟨0⟩, ""⟩).call := by
  refine pixel_agrees clickHmac .player click 1790000000000 ⟨?_, .inl rfl, by decide, ?_⟩
    (.ofEpochMilli 1790000000000) (.ofEpochMilli 1790000001000) ⟨0⟩ (by decide) (by decide) _ _ ?_
    none _
  · simp only [List.forall_mem_cons, List.not_mem_nil, false_implies, implies_true, and_true]
    exact ⟨⟨"e1", rfl, rfl⟩, ⟨"click", rfl, rfl⟩, "c 1&x=%", rfl, rfl⟩
  · simp only [List.forall_mem_cons, List.not_mem_nil, false_implies, implies_true, and_true]
    exact ⟨.inr ⟨"r+1", rfl⟩, .inl rfl, .inl rfl, .inl rfl, .inl rfl⟩
  · exact iff_of_false (by decide) (by decide)

end PixelTransport

end AdPipeline.Collector
