import AdPipeline.AdDecision.DecisionService
import AdPipeline.Stream.Realtime
import AdPipeline.Tracer.Scan

/-!
# The records of a trace

Three parties write the ids of a trace into the topics that the tracer watches: the Collector
publishes its events or their dead letters, the Outbox delivers the answer to its ad request, and
the realtime job reports those that are late. Each of these records is seen by `scan_kafka`
(`exists_details`), so that the list of a trace is that of these records once scans have got to the
ends of the partitions (`shows_published`).
-/

namespace AdPipeline.Tracer

open Lib Collector
open AdPipeline.Stream (EventRow Kind floorToMinute)

/-! ## What is written of a trace -/

/-- `kind` as `all_events` writes it. -/
def kindName : Kind → String
  | .impression => "impression"
  | .quartile => "quartile"
  | .complete => "complete"
  | .click => "click"
  | .request => "request"

/-- `topic_origin`. -/
def topicOrigin : Kind → String
  | .impression => "ad.impression"
  | .click => "ad.click"
  | .request => "ad.request"
  | .quartile => "ad.quartile"
  | .complete => "ad.quartile"

/-- `late_events_sink`: the record of an event that `late_at_window` selects. How the format writes
a timestamp is left open. -/
def lateEventRecord (timestamp : ℤ → String) (watermark : ℤ) (e : Stream.Event) : Fields :=
  [("event_id", .str e.eventId),
    ("event_type", .str (kindName e.kind)),
    ("campaign_id", .str e.campaignId),
    ("ad_request_id", e.adRequestId.elim .null .str),
    ("event_time", .str (timestamp e.eventTime)),
    ("window_end", .str (timestamp (floorToMinute e.eventTime + Stream.minute))),
    ("watermark_at", .str (timestamp watermark)),
    ("lateness_ms", .int ((watermark - e.eventTime).tdiv 1000 * 1000)),
    ("topic_origin", .str (topicOrigin e.kind))]

/-- The records with the ids of a trace. -/
inductive RecordOf (sign : String → String) (kind : TraceKind) (d : Draws) (answered : Bool) :
    Fields → Prop
  /-- The Collector publishes an event of the trace, or its dead letter. -/
  | published {call : PublishCall} (h : CallOf sign kind d call) :
      RecordOf sign kind d answered call.node
  /-- The realtime job reports one of its events as late. -/
  | late (timestamp : ℤ → String) (watermark : ℤ) {e : Stream.Event}
      (he : some e.eventId ∈ (rows kind d).map EventRow.eventId) :
      RecordOf sign kind d answered (lateEventRecord timestamp watermark e)
  /-- It reports the answer to its ad request as late. -/
  | lateAnswer (hkind : kind = .adRequest) (hanswered : answered = true)
      (timestamp : ℤ → String) (watermark : ℤ) {e : Stream.Event}
      (harid : e.adRequestId = some d.arid) :
      RecordOf sign kind d answered (lateEventRecord timestamp watermark e)
  /-- The Outbox delivers the answer to its ad request, which JSONB may have put in another order.
  An answer that the tracer has not got leaves it without an id. -/
  | delivered (hkind : kind = .adRequest) (hanswered : answered = true) {call : AdDecision.Call}
      (harid : call.req.adRequestId = some d.arid) (campaign : Option AdDecision.Campaign)
      (creative : Option String) {record : Fields}
      (hsame : ∀ name, record.get name = (AdDecision.payload call campaign creative).get name) :
      RecordOf sign kind d answered record

variable {kind : TraceKind} {d : Draws} {answered : Bool} {log : Partition → List (Option Json)}

/-! ## What is seen of it -/

/-- How late an event is, and nothing else. -/
def ShowsLate (details : Details) : Prop := ∃ ms : ℤ, details = ⟨none, some (.int ms), none⟩

/-- What is shown of the records of a kind of trace: the reason of a dead letter, how late a late
event is, and the source of any other record. -/
def Shows (kind : TraceKind) (details : Details) : Prop :=
  match kind with
  | .badSchema => details.reason = some (.str "missing_field:campaign_id")
  | .forged => ∃ reason, details.reason = some (.str ("track_" ++ reason))
  | .adRequest => details = ⟨none, none, some (.str "server")⟩ ∨ ShowsLate details
  | _ => (∃ source, details = ⟨none, none, some (.str source)⟩ ∧
      (source = "client" ∨ source = "server")) ∨ ShowsLate details

theorem matchFieldOf_ids (hkind : kind ≠ .adRequest) :
    matchFieldOf (ids kind d answered) = "event_id" := by
  cases kind with
  | adRequest => exact absurd rfl hkind
  | _ => rfl

/-- The events posted are impressions with an id of the trace, unless they are not valid. -/
theorem exists_extra (answered : Bool) (hkind : kind ≠ .badSchema) {e : Event}
    (he : e ∈ (posts kind d).flatten) :
    ∃ id source extra twin late, Extra extra twin late ∧ Text.isBlank id = false ∧
      e = baseEvent d.campaign id (eventTime kind d) d.arid source ++ extra ∧
      id ∈ (ids kind d answered).map TracedId.eventId ∧
      (source = "client" ∨ source = "server") := by
  cases kind with
  | normal =>
      obtain rfl := List.mem_singleton.1 he
      exact ⟨_, _, _, _, _, .plain, isBlank_eventId d, rfl, List.mem_cons_self, .inl rfl⟩
  | duplicate =>
      have he' : e = baseEvent d.campaign d.eventId d.ts d.arid "client" := by
        simpa [posts] using he
      rw [he']
      exact ⟨_, _, _, _, _, .plain, isBlank_eventId d, rfl, List.mem_cons_self, .inl rfl⟩
  | ssai =>
      rcases List.mem_cons.1 he with rfl | he
      · exact ⟨_, _, _, _, _, .plain, isBlank_eventId d, rfl, List.mem_cons_self, .inl rfl⟩
      · obtain rfl := List.mem_singleton.1 he
        exact ⟨_, _, _, _, _, .twin d.eventId, isBlank_twinId d, rfl,
          List.mem_cons_of_mem _ List.mem_cons_self, .inr rfl⟩
  | late =>
      obtain rfl := List.mem_singleton.1 he
      exact ⟨_, _, _, _, _, .late, isBlank_eventId d, rfl, List.mem_cons_self, .inl rfl⟩
  | badSchema => exact absurd rfl hkind
  | forged => cases he
  | adRequest => cases he

/-- A record is seen when an id is among its candidates and none of these is a container. -/
theorem look_of_candidates {ids : List TracedId} {fields : Fields} {cand : List (Option Json)}
    (hcandidates : candidates (matchFieldOf ids) fields = cand)
    (hplain : cand.any (Option.any Json.isContainer) = false) {id : String}
    (hid : id ∈ ids.map TracedId.eventId) (hcand : some (.str id) ∈ cand) :
    look ids (some (.obj fields)) =
      .sighted ⟨fields.get "reason", fields.get "lateness_ms", fields.get "source"⟩ := by
  have htarget : cand.any (isTarget ids) = true := by
    obtain ⟨i, hi, rfl⟩ := List.mem_map.1 hid
    refine List.any_eq_true.2 ⟨_, hcand, ?_⟩
    exact List.any_eq_true.2 ⟨i, hi, decide_eq_true rfl⟩
  simp only [look, hcandidates, hplain, htarget, Bool.false_eq_true, if_false, if_true]

/-- A stamped impression is seen by its id. -/
theorem look_enrich {ids : List TracedId} (hfield : matchFieldOf ids = "event_id") {id : String}
    (hid : id ∈ ids.map TracedId.eventId) {source : String} {extra : Event} {twin : Option String}
    {late : Option Bool} (hextra : Extra extra twin late) (r : Readings) (campaign arid : String)
    (t : ℤ) :
    look ids (some (.obj (EventIngestService.enrich r "v1_events" (.ofEpochMilli t)
      (Event.json (baseEvent campaign id t arid source ++ extra))))) =
      .sighted ⟨none, none, some (.str source)⟩ := by
  have hkept : ∀ name ∉ ["server_ts", "event_time", "ingest_endpoint", "source"],
      (EventIngestService.enrich r "v1_events" (.ofEpochMilli t)
        (Event.json (baseEvent campaign id t arid source ++ extra))).get name =
      ((baseEvent campaign id t arid source ++ extra).get name).map EventValue.json :=
    fun name h => (EventIngestService.get_enrich_of_notMem h).trans (Event.get_json _ _)
  have hsource : (EventIngestService.enrich r "v1_events" (.ofEpochMilli t)
      (Event.json (baseEvent campaign id t arid source ++ extra))).get "source" =
        some (.str source) := by
    rw [EventIngestService.get_enrich_source, Event.get_json]
    cases hextra <;> rfl
  have hcandidates : candidates (matchFieldOf ids) (EventIngestService.enrich r "v1_events"
      (.ofEpochMilli t) (Event.json (baseEvent campaign id t arid source ++ extra))) =
        [some (.str id), some (.str id), some (.str arid)] := by
    rw [candidates, hfield, hkept _ (by decide), hkept _ (by decide), hkept _ (by decide)]
    cases hextra <;> rfl
  rw [look_of_candidates hcandidates rfl hid List.mem_cons_self, hkept _ (by decide),
    hkept _ (by decide), hsource]
  cases hextra <;> rfl

/-- A dead letter is seen by the id in the original. -/
theorem look_deadLetter {ids : List TracedId} (hfield : matchFieldOf ids = "event_id") {id : String}
    (hid : id ∈ ids.map TracedId.eventId) {raw : Fields}
    (hcand : some (.str id) ∈ [raw.get "event_id", raw.get "eid", raw.get "ad_request_id"])
    (hplain : [raw.get "event_id", raw.get "eid", raw.get "ad_request_id"].any
      (Option.any Json.isContainer) = false) (r : Readings) (endpoint reason : String) :
    look ids (some (.obj (EventIngestService.deadLetter r endpoint reason (.obj raw)))) =
      .sighted ⟨some (.str reason), none, none⟩ := by
  have hcandidates : candidates (matchFieldOf ids)
      (EventIngestService.deadLetter r endpoint reason (.obj raw)) =
        [none, none, none] ++ [raw.get "event_id", raw.get "eid", raw.get "ad_request_id"] := by
    rw [candidates, hfield]
    rfl
  have hplain' : ([none, none, none] ++ [raw.get "event_id", raw.get "eid",
      raw.get "ad_request_id"]).any (Option.any Json.isContainer) = false := by
    rw [List.any_append, hplain]
    rfl
  rw [look_of_candidates hcandidates hplain' hid (List.mem_append_right _ hcand)]
  rfl

theorem get_rejectedQuery (rawQuery : Option String) (d : Draws) :
    (TrackController.rejectedQuery rawQuery (forgedQuery d)).get "event_id" = none ∧
      (TrackController.rejectedQuery rawQuery (forgedQuery d)).get "eid" = some (.str d.eventId) ∧
      (TrackController.rejectedQuery rawQuery (forgedQuery d)).get "ad_request_id" = none := by
  refine ⟨rfl, rfl, rfl⟩

variable {hmac : String → List UInt8}

theorem shows_of_posted (hkind : kind ≠ .badSchema) {e : Event} (he : e ∈ (posts kind d).flatten)
    {source : String} (hsource : source = "client" ∨ source = "server") :
    Shows kind ⟨none, none, some (.str source)⟩ := by
  cases kind with
  | badSchema => exact absurd rfl hkind
  | forged => cases he
  | adRequest => cases he
  | _ => exact .inl ⟨source, rfl, hsource⟩

/-- What the Collector publishes for a trace is seen. -/
theorem exists_details_published (answered : Bool) (hhmac : ∀ s, (hmac s).length = 32)
    (hbounds : Text.longMin + 90000 ≤ d.ts ∧ d.ts ≤ Text.longMax) {call : PublishCall}
    (h : CallOf (fun s => hexdigest (hmac s)) kind d call) :
    ∃ details, look (ids kind d answered) (some (.obj call.node)) = .sighted details ∧
      Shows kind details := by
  cases h with
  | @posted e he r hclock =>
      by_cases hkind : kind = .badSchema
      · subst hkind
        rw [ingest_badSchema d r he]
        have hpopped : e = (baseEvent d.campaign d.eventId d.ts d.arid "client").filter
          fun f => f.1 ≠ "campaign_id" := by simpa [posts] using he
        refine ⟨_, look_deadLetter rfl List.mem_cons_self ?_ ?_ r _ _, rfl⟩
        · rw [hpopped]
          exact List.mem_cons_self
        · rw [hpopped]
          rfl
      · obtain ⟨id, source, extra, twin, late, hextra, hblank, rfl, hid, hsource⟩ :=
          exists_extra answered hkind he
        have hrequest : kind ≠ .adRequest := by
          rintro rfl
          cases he
        obtain ⟨hge, hle⟩ := eventTime_bounds kind d
        have htime : Text.longMin ≤ eventTime kind d ∧ eventTime kind d ≤ Text.longMax := by
          omega
        obtain ⟨-, hnode⟩ := ingest_of_extra hextra hblank htime (not_tooFarAhead hle hclock)
        rw [hnode]
        exact ⟨_, look_enrich (matchFieldOf_ids hrequest) hid hextra r _ _ _,
          shows_of_posted hkind he hsource⟩
  | pixel hkind verifiedAt defaultedAt r rawQuery =>
      subst hkind
      obtain ⟨reason, htrack⟩ := exists_track_forged hhmac d verifiedAt defaultedAt r rawQuery
      obtain ⟨hid, heid, harid⟩ := get_rejectedQuery rawQuery d
      rw [htrack]
      refine ⟨_, look_deadLetter rfl List.mem_cons_self ?_ ?_ r _ _, reason, rfl⟩
      · rw [heid]
        exact List.mem_cons_of_mem _ List.mem_cons_self
      · rw [hid, heid, harid]
        rfl

theorem mem_ids_of_row {id : String} (answered : Bool)
    (h : some id ∈ (rows kind d).map EventRow.eventId) :
    id ∈ (ids kind d answered).map TracedId.eventId := by
  cases kind with
  | badSchema => cases h
  | forged => cases h
  | adRequest => cases h
  | _ => simpa [rows, ids, tracedRow] using h

/-- What the realtime job reports of a trace is seen. -/
theorem exists_details_late (answered : Bool) (timestamp : ℤ → String) (watermark : ℤ)
    {e : Stream.Event} (he : some e.eventId ∈ (rows kind d).map EventRow.eventId) :
    ∃ details, look (ids kind d answered) (some (.obj (lateEventRecord timestamp watermark e))) =
      .sighted details ∧ Shows kind details := by
  have hid := mem_ids_of_row answered he
  have hkind : kind ≠ .adRequest := by
    rintro rfl
    cases he
  have hcandidates : candidates (matchFieldOf (ids kind d answered))
      (lateEventRecord timestamp watermark e) =
        [some (.str e.eventId), some (.str e.eventId), some (e.adRequestId.elim .null .str)] := by
    rw [matchFieldOf_ids hkind]
    rfl
  refine ⟨_, look_of_candidates hcandidates ?_ hid List.mem_cons_self, ?_⟩
  · cases e.adRequestId <;> rfl
  · cases kind with
    | badSchema => cases he
    | forged => cases he
    | adRequest => exact absurd rfl hkind
    | _ => exact .inr ⟨_, rfl⟩

/-- What the Outbox delivers of a trace is seen. -/
theorem exists_details_delivered {call : AdDecision.Call}
    (harid : call.req.adRequestId = some d.arid) (campaign : Option AdDecision.Campaign)
    (creative : Option String) {record : Fields}
    (hsame : ∀ name, record.get name = (AdDecision.payload call campaign creative).get name) :
    ∃ details, look (ids .adRequest d true) (some (.obj record)) = .sighted details ∧
      Shows .adRequest details := by
  have hcall : AdDecision.arid call = d.arid := by rw [AdDecision.arid, harid, Option.getD_some]
  have hcandidates : candidates (matchFieldOf (ids .adRequest d true)) record =
      [some (.str d.arid), some (.str call.eventId), some (.str d.arid)] := by
    rw [candidates, hsame, hsame, hsame, hsame, ← hcall]
    rfl
  refine ⟨_, look_of_candidates hcandidates rfl List.mem_cons_self List.mem_cons_self, ?_⟩
  rw [hsame, hsame, hsame]
  exact .inl rfl

/-- So is the report that it is late. -/
theorem exists_details_lateAnswer (timestamp : ℤ → String) (watermark : ℤ) {e : Stream.Event}
    (harid : e.adRequestId = some d.arid) :
    ∃ details, look (ids .adRequest d true)
      (some (.obj (lateEventRecord timestamp watermark e))) = .sighted details ∧
      Shows .adRequest details := by
  have hcandidates : candidates (matchFieldOf (ids .adRequest d true))
      (lateEventRecord timestamp watermark e) =
        [some (.str d.arid), some (.str e.eventId), some (.str d.arid)] := by
    have hget : (lateEventRecord timestamp watermark e).get "ad_request_id" =
        some (.str d.arid) := by
      rw [lateEventRecord, harid]
      rfl
    have hfield : matchFieldOf (ids .adRequest d true) = "ad_request_id" := rfl
    rw [candidates, hfield, hget]
    rfl
  exact ⟨_, look_of_candidates hcandidates rfl List.mem_cons_self List.mem_cons_self,
    .inr ⟨_, rfl⟩⟩

/-- Every record of a trace is seen. -/
theorem exists_details (hhmac : ∀ s, (hmac s).length = 32)
    (hbounds : Text.longMin + 90000 ≤ d.ts ∧ d.ts ≤ Text.longMax) {record : Fields}
    (h : RecordOf (fun s => hexdigest (hmac s)) kind d answered record) :
    ∃ details, look (ids kind d answered) (some (.obj record)) = .sighted details ∧
      Shows kind details := by
  cases h with
  | published h => exact exists_details_published answered hhmac hbounds h
  | late timestamp watermark he => exact exists_details_late answered timestamp watermark he
  | lateAnswer hkind hanswered timestamp watermark harid =>
      subst hkind hanswered
      exact exists_details_lateAnswer timestamp watermark harid
  | delivered hkind hanswered harid campaign creative hsame =>
      subst hkind hanswered
      exact exists_details_delivered harid campaign creative hsame

/-! ## The list of a trace -/

/-- The places of the records of a trace that have been written since it began. Its ids are random,
so no other record has them. -/
structure Written (sign : String → String) (kind : TraceKind) (d : Draws) (answered : Bool)
    (s : State) (opened : Offsets) (places : List (Partition × ℕ)) : Prop where
  nodup : places.Nodup
  since : ∀ x ∈ places, ∃ a, opened x.1 = some a ∧ a ≤ x.2
  record : ∀ x ∈ places, ∃ record, RecordOf sign kind d answered record ∧
    (s.log x.1)[x.2]? = some (some (.obj record))
  own : ∀ p i a, opened p = some a → a ≤ i → ∀ value, (s.log p)[i]? = some value →
    (look (ids kind d answered) value).details?.isSome = true → (p, i) ∈ places

/-- Once scans have got to the ends of the partitions, the list of a trace is the list of the
records written of it: its events and their dead letters with the reasons, the answer to its ad
request, and the reports of those that are late. -/
theorem shows_published (hhmac : ∀ s, (hmac s).length = 32)
    (hbounds : Text.longMin + 90000 ≤ d.ts ∧ d.ts ≤ Text.longMax) {s : State}
    (h : (system log).Reachable s) {n : ℕ} (hids : (s.traces n).ids = ids kind d answered)
    (hend : ∀ p b, (s.traces n).offsets p = some b → b = (s.log p).length)
    {places : List (Partition × ℕ)} (hwritten : Written (fun s => hexdigest (hmac s)) kind d
      answered s (s.traces n).opened places) :
    ((s.traces n).kafka.map fun x => (x.1, x.2.1)).Perm places ∧
      ∀ x ∈ (s.traces n).kafka, Shows kind x.2.2 := by
  have hinv := inv_of_reachable h
  have hfind : ∀ value, (s.traces n).find value = (look (ids kind d answered) value).details? := by
    intro value
    rw [Trace.find, hids]
  have hplace : ∀ {p i details}, (p, i, details) ∈ (s.traces n).kafka →
      (p, i) ∈ places ∧ Shows kind details := by
    intro p i details hx
    obtain ⟨a, ha, hai, hfound⟩ := (mem_kafka_of_end hinv (hend p)).1 hx
    obtain ⟨value, hvalue, hlook⟩ := Option.bind_eq_some_iff.1 hfound
    rw [hfind] at hlook
    have hmem := hwritten.own p i a ha hai value hvalue (by rw [hlook]; rfl)
    refine ⟨hmem, ?_⟩
    obtain ⟨record, hof, hrecord⟩ := hwritten.record _ hmem
    obtain ⟨details', hlook', hshows⟩ := exists_details hhmac hbounds hof
    obtain rfl := Option.some.inj (hvalue.symm.trans hrecord)
    rw [hlook'] at hlook
    obtain rfl := Option.some.inj hlook
    exact hshows
  refine ⟨(List.perm_ext_iff_of_nodup (hinv.sound n).exact.nodup hwritten.nodup).2 ?_,
    fun x hx => (hplace hx).2⟩
  rintro ⟨p, i⟩
  constructor
  · intro hx
    obtain ⟨⟨q, j, details⟩, hmem, heq⟩ := List.mem_map.1 hx
    obtain ⟨rfl, rfl⟩ := Prod.mk.inj heq
    exact (hplace hmem).1
  · intro hx
    obtain ⟨a, ha, hai⟩ := hwritten.since _ hx
    obtain ⟨record, hof, hrecord⟩ := hwritten.record _ hx
    obtain ⟨details, hlook, -⟩ := exists_details hhmac hbounds hof
    refine List.mem_map.2
      ⟨(p, i, details), (mem_kafka_of_end hinv (hend p)).2 ⟨a, ha, hai, ?_⟩, rfl⟩
    rw [hrecord, Option.bind_some, hfind, hlook]
    rfl

/-- What the Collector publishes of a late event. -/
def lateCall : PublishCall :=
  EventIngestService.ingest sampleReadings "v1_events"
    (.obj (Event.json (baseEvent sampleDraws.campaign sampleDraws.eventId (sampleDraws.ts - 90000)
      sampleDraws.arid "client" ++ [("_late", .other "True" (.bool true))])))

/-- What the realtime job reports of it. -/
def lateReport : Fields :=
  lateEventRecord toString sampleDraws.ts
    { eventId := sampleDraws.eventId
      campaignId := sampleDraws.campaign
      adRequestId := some sampleDraws.arid
      eventTime := sampleDraws.ts - 90000
      kind := .impression
      isSsaiTwin := 0 }

/-- A late event is published, and reported after a record of somebody else. -/
def lateActions : List Action :=
  [.measureBegin 0, .measure (.impression, 0), .measure (.late, 0), .measureEnd,
    .register 0 "t" .late sampleDraws false, .produce (.impression, 0) (some (.obj lateCall.node)),
    .produce (.late, 0) none, .produce (.late, 0) (some (.obj lateReport)),
    .request "t", .scanBegin 0 fun _ => true, .poll (.impression, 0), .poll (.late, 0),
    .poll (.late, 0), .scanEnd]

theorem exists_lateState : ∃ s, (system fun _ => []).run (system fun _ => []).init
      lateActions = some s ∧ (s.traces 0).ids = ids .late sampleDraws false ∧
    (∀ p, p ≠ (.impression, 0) → p ≠ (.late, 0) → s.log p = [] ∧ (s.traces 0).opened p = none ∧
      (s.traces 0).offsets p = none) ∧
    (s.traces 0).opened (.impression, 0) = some 0 ∧ (s.traces 0).offsets (.impression, 0) = some 1 ∧
    (s.traces 0).opened (.late, 0) = some 0 ∧ (s.traces 0).offsets (.late, 0) = some 2 ∧
    s.log (.impression, 0) = [some (.obj lateCall.node)] ∧
    s.log (.late, 0) = [none, some (.obj lateReport)] := by
  refine ⟨_, rfl, rfl, fun p himpression hlate => ⟨?_, ?_, ?_⟩, rfl, rfl, rfl, rfl, rfl, rfl⟩
  · simp [State.setTrace, system, himpression, hlate]
  · simp [State.setTrace, system, Trace.poll, Trace.measure, Trace.begun, himpression, hlate]
  · simp [State.setTrace, system, Trace.poll, Trace.measure, Trace.begun, himpression, hlate]

/-- Both are shown. -/
theorem shows_published_late : ∃ s, (system fun _ => []).run (system fun _ => []).init
      lateActions = some s ∧
    ((s.traces 0).kafka.map fun x => (x.1, x.2.1)).Perm [((.impression, 0), 0), ((.late, 0), 1)] ∧
    ∀ x ∈ (s.traces 0).kafka, Shows .late x.2.2 := by
  obtain ⟨s, hrun, hids, hother, hopened, hoffsets, hopened', hoffsets', hlog, hlog'⟩ :=
    exists_lateState
  have hend : ∀ p b, (s.traces 0).offsets p = some b → b = (s.log p).length := by
    intro p b hb
    by_cases himpression : p = (.impression, 0)
    · subst himpression
      rw [hlog]
      exact (Option.some.inj (hoffsets.symm.trans hb)).symm
    · by_cases hlate : p = (.late, 0)
      · subst hlate
        rw [hlog']
        exact (Option.some.inj (hoffsets'.symm.trans hb)).symm
      · rw [(hother p himpression hlate).2.2] at hb
        cases hb
  have hcall : CallOf (fun _ => hexdigest (List.replicate 32 0)) .late sampleDraws lateCall :=
    .posted (List.mem_singleton_self _) sampleReadings sampleReadings_clock
  have hwritten : Written (fun _ => hexdigest (List.replicate 32 0)) .late sampleDraws false
      s (s.traces 0).opened [((.impression, 0), 0), ((.late, 0), 1)] := by
    refine ⟨by decide, ?_, ?_, ?_⟩
    · simp only [List.forall_mem_cons, List.not_mem_nil, false_implies, implies_true, and_true]
      exact ⟨⟨0, hopened, Nat.zero_le _⟩, ⟨0, hopened', Nat.zero_le _⟩⟩
    · simp only [List.forall_mem_cons, List.not_mem_nil, false_implies, implies_true, and_true]
      exact ⟨⟨_, .published hcall, by rw [hlog]; rfl⟩,
        ⟨_, .late toString sampleDraws.ts List.mem_cons_self, by rw [hlog']; rfl⟩⟩
    · intro p i a ha _ value hvalue hseen
      by_cases himpression : p = (.impression, 0)
      · subst himpression
        rw [hlog] at hvalue
        obtain rfl : i = 0 := by
          have hlt := (List.getElem?_eq_some_iff.1 hvalue).1
          simpa using hlt
        exact List.mem_cons_self
      · by_cases hlate : p = (.late, 0)
        · subst hlate
          rw [hlog'] at hvalue
          match i, hvalue with
          | 0, hvalue =>
              obtain rfl := Option.some.inj hvalue
              cases hseen
          | 1, _ => exact List.mem_cons_of_mem _ (List.mem_singleton_self _)
        · rw [(hother p himpression hlate).2.1] at ha
          cases ha
  exact ⟨s, hrun, shows_published (fun _ => List.length_replicate) (by decide)
    (System.reachable_of_run hrun) hids hend hwritten⟩

end AdPipeline.Tracer
