import AdPipeline.Collector.EpochTime
import AdPipeline.Collector.TrackController

/-!
# What a signed pixel is counted as

`track` fills in an event type and a time of its own before the shared validator sees the event. A
query that lacks one of its required parameters is still kept out of the data topics exactly when
these defaults are not what completes it (`requiredOnly_iff`).
-/

namespace AdPipeline.Collector

namespace TrackController

open SignatureVerifier

/-- A parameter is there and not blank. -/
def Given (p : QueryParams) (key : String) : Prop :=
  ∃ v, p.first key = some v ∧ Text.isBlank v = false

/-- The time that `ts` gives, if it is there and parses. -/
def timeOf (p : QueryParams) : Option Instant :=
  (p.first "ts").bind EventValidator.parseInstantText

/-- All required parameters are given. -/
structure AllGiven (p : QueryParams) : Prop where
  eid : Given p "eid"
  et : Given p "et"
  cid : Given p "cid"
  ts : (timeOf p).isSome = true

/-- A published event is the one the parameters give. -/
def SameEvent (p : QueryParams) (node : Fields) : Prop :=
  (∃ et, p.first "et" = some et ∧ node.get "event_type" = some (.str et)) ∧
    ∃ t, timeOf p = some t ∧
      node.get "event_time" = some (.str (Time.toText t.truncatedToMillis))

/-- Only complete queries reach a data topic, as the event they give; the others become dead
letters. -/
structure RequiredOnly (call : PublishCall) (p : QueryParams) : Prop where
  counted : call.topic ≠ .dlq → AllGiven p ∧ SameEvent p call.node
  rejected : ¬ AllGiven p → call.topic = .dlq

/-- The event type the event gets. -/
def eventTypeOf (p : QueryParams) : String := (p.first "et").getD "impression"

/-- A default of the pixel's own is used. -/
def Defaulted (p : QueryParams) : Prop := p.first "et" = none ∨ timeOf p = none

/-- Whatever the defaults hide, nothing else is wrong: the identifiers are given, the event type is
known, and the time is not in the future. -/
structure OtherwiseSound (defaultedAt validatedAt : Instant) (p : QueryParams) : Prop where
  eid : Given p "eid"
  cid : Given p "cid"
  et : Text.isBlank (eventTypeOf p) = false
  known : (topicFor (eventTypeOf p)).isSome = true
  notFuture : ((timeOf p).getD defaultedAt).nanos ≤
    (validatedAt.plusSeconds EventValidator.maxFutureSkewSeconds).nanos

variable {p : QueryParams} {defaultedAt validatedAt : Instant}

/-! ## The event of a query -/

/-- A text parameter passes the check of its field exactly when it is given. -/
theorem present_text (node : Fields) (field key : String)
    (h : node.get field = some ((p.first key).elim .null .str)) :
    EventValidator.Present (.obj node) field ↔ Given p key := by
  unfold EventValidator.Present Given
  simp only [Json.get, h, Option.some.injEq, exists_eq_left']
  cases p.first key with
  | none => simp [Json.isNull]
  | some v => simp [Json.isNull, Json.isTextual, Json.asText]

/-- When the event of a query is routed, and how. -/
theorem routed_pixelEvent (hrange : Time.inRange defaultedAt = true) {t : Instant}
    {topic : Topic} :
    EventIngestService.Routed validatedAt (.obj (pixelEvent defaultedAt p)) t topic ↔
      OtherwiseSound defaultedAt validatedAt p ∧ t = (timeOf p).getD defaultedAt ∧
        topicFor (eventTypeOf p) = some topic := by
  have htime : Time.inRange ((timeOf p).getD defaultedAt) = true := by
    cases hts : timeOf p with
    | none => exact hrange
    | some u =>
        obtain ⟨raw, -, hraw⟩ := Option.bind_eq_some_iff.1 hts
        exact EventValidator.inRange_of_parseInstantText hraw
  have heid := present_text (p := p) (pixelEvent defaultedAt p) "event_id" "eid" rfl
  have hcid := present_text (p := p) (pixelEvent defaultedAt p) "campaign_id" "cid" rfl
  have het := EventValidator.present_str (pixelEvent defaultedAt p) "event_type" (eventTypeOf p) rfl
  have hts := EventValidator.present_str (pixelEvent defaultedAt p) "event_time"
    (Time.toText ((timeOf p).getD defaultedAt)) rfl
  have hget : (Json.obj (pixelEvent defaultedAt p)).get "event_time" =
      some (.str (Time.toText ((timeOf p).getD defaultedAt))) := rfl
  have hparse : ((Json.obj (pixelEvent defaultedAt p)).get "event_time").bind
      EventValidator.parseInstant = some ((timeOf p).getD defaultedAt) := by
    rw [hget, Option.bind_some, EventValidator.parseInstant_str,
      EventValidator.parseInstantText_toText htime]
  have hknown : ((Json.obj (pixelEvent defaultedAt p)).get "event_type").map Json.asText =
      some (eventTypeOf p) := rfl
  constructor
  · intro h
    have hpresent := h.present
    simp only [EventValidator.required, List.forall_mem_cons] at hpresent
    obtain ⟨he, hety, hc, -⟩ := hpresent
    have htopic := h.known
    rw [hknown, Option.getD_some] at htopic
    obtain rfl : (timeOf p).getD defaultedAt = t := Option.some.inj (hparse.symm.trans h.parses)
    refine ⟨⟨heid.1 he, hcid.1 hc, het.1 hety, ?_, h.notFuture⟩, rfl, htopic⟩
    rw [htopic]
    rfl
  · rintro ⟨hsound, rfl, htopic⟩
    refine ⟨⟨?_, hparse, hsound.notFuture⟩, ?_⟩
    · simp only [EventValidator.required, List.forall_mem_cons, List.not_mem_nil,
        false_implies, implies_true, and_true]
      exact ⟨heid.2 hsound.eid, het.2 hsound.et, hcid.2 hsound.cid,
        hts.2 (EventValidator.isBlank_toText _)⟩
    · rw [hknown]
      exact htopic

/-! ## Queries that are counted -/

/-- A query that uses no default and is otherwise sound gives all parameters. -/
theorem allGiven_of_not_defaulted (h : OtherwiseSound defaultedAt validatedAt p)
    (hdefault : ¬ Defaulted p) : AllGiven p := by
  rw [Defaulted, not_or] at hdefault
  obtain ⟨v, hv⟩ := Option.ne_none_iff_exists'.1 hdefault.1
  have hblank := h.et
  rw [eventTypeOf, hv, Option.getD_some] at hblank
  exact ⟨h.eid, ⟨v, hv, hblank⟩, h.cid, Option.isSome_iff_ne_none.2 hdefault.2⟩

theorem not_defaulted_of_allGiven (h : AllGiven p) : ¬ Defaulted p := by
  rintro (het | hts)
  · obtain ⟨v, hv, -⟩ := h.et
    rw [het] at hv
    cases hv
  · have hsome := h.ts
    rw [hts] at hsome
    cases hsome

/-- A validly signed query is counted only with all its required parameters, and as the event they
give, exactly when no default completes an event that is otherwise sound. -/
theorem requiredOnly_iff (sign : String → String) (verifiedAt defaultedAt : Instant)
    (r : Readings) (rawQuery : Option String) (p : QueryParams)
    (hrange : Time.inRange defaultedAt = true) (hsigned : verify sign verifiedAt p = .valid) :
    RequiredOnly (track sign verifiedAt defaultedAt r rawQuery p) p ↔
      ¬ (Defaulted p ∧ OtherwiseSound defaultedAt r.validatedAt p) := by
  have hcall : track sign verifiedAt defaultedAt r rawQuery p =
      EventIngestService.ingest r "v1_track" (.obj (pixelEvent defaultedAt p)) := by
    rw [track, hsigned]
  by_cases hsound : OtherwiseSound defaultedAt r.validatedAt p
  · -- the event is routed
    obtain ⟨topic, htopic⟩ := Option.isSome_iff_exists.1 hsound.known
    have hrouted := (routed_pixelEvent hrange).2 ⟨hsound, rfl, htopic⟩
    obtain ⟨fields, hfields, hingest⟩ := EventIngestService.ingest_of_routed "v1_track" hrouted
    obtain rfl : pixelEvent defaultedAt p = fields := by injection hfields
    have hdata : topic ≠ .dlq := by
      rintro rfl
      exact topicFor_ne_dlq _ htopic
    rw [hcall, hingest]
    constructor
    · rintro h ⟨hdefault, -⟩
      exact not_defaulted_of_allGiven (h.counted hdata).1 hdefault
    · intro h
      have hgiven := allGiven_of_not_defaulted hsound fun hdefault => h ⟨hdefault, hsound⟩
      refine ⟨fun _ => ⟨hgiven, ?_, ?_⟩, fun hnot => absurd hgiven hnot⟩
      · obtain ⟨et, het, -⟩ := hgiven.et
        refine ⟨et, het, ?_⟩
        rw [EventIngestService.get_enrich_of_notMem (by decide)]
        show some (Json.str (eventTypeOf p)) = _
        rw [eventTypeOf, het, Option.getD_some]
      · obtain ⟨t, ht⟩ := Option.isSome_iff_exists.1 hgiven.ts
        refine ⟨t, ht, ?_⟩
        rw [ht, Option.getD_some, EventIngestService.get_enrich_eventTime]
  · -- the event is rejected
    have hnot : ∀ t topic, ¬ EventIngestService.Routed r.validatedAt
        (.obj (pixelEvent defaultedAt p)) t topic := by
      intro t topic h
      exact hsound ((routed_pixelEvent hrange).1 h).1
    obtain ⟨reason, hingest⟩ := EventIngestService.ingest_of_not_routed "v1_track" hnot
    rw [hcall, hingest]
    constructor
    · rintro - ⟨-, h⟩
      exact hsound h
    · rintro -
      exact ⟨fun h => absurd rfl h, fun _ => rfl⟩

/-- The clock when the signed click occurs. -/
def clickTime : Instant := .ofEpochMilli 1790000000000

/-- The signed click is counted as a click. -/
theorem requiredOnly_iff_click :
    RequiredOnly
      (track sampleSign clickTime clickTime ⟨clickTime, clickTime, ""⟩ none signedClick)
      signedClick := by
  refine (requiredOnly_iff sampleSign clickTime clickTime ⟨clickTime, clickTime, ""⟩ none
    signedClick (by decide) (by decide)).2 ?_
  rintro ⟨hdefault | hdefault, -⟩
  · revert hdefault
    decide
  · revert hdefault
    decide

/-- The keyed hash of a beacon that was signed without an event type, under the development key. -/
def beaconSign (s : String) : String :=
  if s = "cid=c1&eid=e1&exp=1790003600&ts=1790000000000" then
    "a31fa55af1c1f112e502bc9103f943420776246edd12fbcc4f788a008180b2f7"
  else "0" ++ s

/-- A beacon without an event type. -/
def beacon : QueryParams where
  entries := [("eid", [some "e1"]), ("cid", [some "c1"]), ("ts", [some "1790000000000"]),
    ("exp", [some "1790003600"]),
    ("sig", [some "a31fa55af1c1f112e502bc9103f943420776246edd12fbcc4f788a008180b2f7"])]
  nodup := by decide

/-- The beacon is counted as an impression. -/
theorem beacon_counted :
    verify beaconSign clickTime beacon = .valid ∧ ¬ AllGiven beacon ∧
    (track beaconSign clickTime clickTime ⟨clickTime, clickTime, ""⟩ none beacon).topic =
      .impression ∧
    ¬ RequiredOnly (track beaconSign clickTime clickTime ⟨clickTime, clickTime, ""⟩ none beacon)
      beacon := by
  have hgiven : ¬ AllGiven beacon := by
    intro h
    obtain ⟨v, hv, -⟩ := h.et
    cases hv
  have htopic :
      (track beaconSign clickTime clickTime ⟨clickTime, clickTime, ""⟩ none beacon).topic =
        .impression := by
    decide
  refine ⟨by decide, hgiven, htopic, fun h => ?_⟩
  have hdead := h.rejected hgiven
  rw [htopic] at hdead
  cases hdead

end TrackController

end AdPipeline.Collector
