import AdPipeline.Collector.EventIngestService
import AdPipeline.Settlement.Batch

/-!
# How the two sides classify an event

The realtime job classifies a record by its topic, the batch by the text of its `event_type` and its
own list of campaigns. The router takes aliases and any letter case, so the two agree on a record
only when `event_type` is the one text the batch looks for and the campaign is none of those it
leaves out (`agree_iff_classified`).
-/

namespace AdPipeline.Settlement

open Collector AdPipeline.Stream

/-- The kinds that are counted. -/
def metrics : List Kind := [.impression, .click, .complete, .request]

/-- The batch's filter for a kind. -/
def batchCounts : Kind → ArchiveRow → Bool
  | .impression => isImpression
  | .click => isClick
  | .complete => isComplete
  | .request => isRequest
  | .quartile => fun _ => false

/-- The realtime job counts a record of a topic as an event of a kind and a campaign. -/
def RealtimeCounts (topic : Topic) (r : EventRow) (kind : Kind) (campaignId : String) : Prop :=
  ∃ v, allEvents topic r = some v ∧ v.kind = kind ∧ v.campaignId = campaignId

/-- The batch counts the archived record as an event of a kind and a campaign. -/
def BatchCounts (topic : Topic) (r : EventRow) (kind : Kind) (campaignId : String) : Prop :=
  batchCounts kind (archiveRow topic r) = true ∧ (archiveRow topic r).campaignId = some campaignId

/-- Both sides count the record alike. -/
def Agree (topic : Topic) (r : EventRow) : Prop :=
  ∀ kind ∈ metrics, ∀ c, RealtimeCounts topic r kind c ↔ BatchCounts topic r kind c

/-- The event type is the batch's text for the topic, and the campaign is one it settles. -/
def Settled (eventType : String) (r : EventRow) : Prop :=
  ∀ c ∈ r.campaignId, r.eventType = some eventType ∧ c ∉ nonCampaign

/-- When the two sides agree on a record of a topic. -/
def Classified (r : EventRow) : Topic → Prop
  | .impression => Settled "impression" r
  | .quartile => r.quartile = some "complete" → Settled "quartile" r
  | .click => Settled "click" r
  | .request => r.eventType = some "ad_response" → r.fill = some true →
      ∀ c ∈ r.campaignId, c ∉ ["none", "pending"]
  | .behavior => True
  | .dlq => True

/-! ## Routed records -/

/-- The event type of a routed record is a text that the router maps to its topic. -/
theorem eventType_of_routed (fmt : JsonFormat) {r : Readings} (endpoint : String) {node : Json}
    {et : Instant} {topic : Topic}
    (h : EventIngestService.Routed r.validatedAt node et topic) :
    ∃ s, (EventRow.ofJson fmt (EventIngestService.ingest r endpoint node).node).eventType = some s ∧
      topicFor s = some topic := by
  obtain ⟨fields, rfl, hcall⟩ := EventIngestService.ingest_of_routed endpoint h
  obtain ⟨v, hv, hnull, -⟩ := h.present "event_type" (by simp [EventValidator.required])
  have hknown := h.known
  rw [hv] at hknown
  -- a container has no text, and no topic takes the empty event type
  have hempty : topicFor "" = none := by decide
  have hscalar : v.isContainer = false := by
    cases v with
    | arr elements => simp [Json.asText, hempty] at hknown
    | obj fields => simp [Json.asText, hempty] at hknown
    | _ => rfl
  have hget :
      Fields.get (EventIngestService.enrich r endpoint et fields) "event_type" = some v := by
    rw [EventIngestService.get_enrich_of_notMem (by decide)]
    exact hv
  refine ⟨v.asText, ?_, hknown⟩
  rw [hcall]
  show (Fields.get (EventIngestService.enrich r endpoint et fields) "event_type").bind
    fmt.string = _
  rw [hget, Option.bind_some, fmt.string_scalar v hnull hscalar]

/-! ## The two sides -/

theorem realtimeCounts_row {r : EventRow} {k kind : Kind} {twin : ℕ} {c : String} :
    (∃ v, r.campaignId.map (ViewRow.ofRow r k twin) = some v ∧ v.kind = kind ∧ v.campaignId = c) ↔
      k = kind ∧ r.campaignId = some c := by
  constructor
  · rintro ⟨v, hv, rfl, rfl⟩
    obtain ⟨c, hc, rfl⟩ := Option.map_eq_some_iff.1 hv
    exact ⟨rfl, hc⟩
  · rintro ⟨rfl, hc⟩
    exact ⟨_, by rw [hc, Option.map_some], rfl, rfl⟩

/-- What the batch reads of a record, besides the campaign, for each kind. -/
def BatchText (r : ArchiveRow) : Kind → Prop
  | .impression => r.eventType = some "impression"
  | .click => r.eventType = some "click"
  | .complete => r.eventType = some "quartile" ∧ r.quartile = some "complete"
  | .request => r.eventType = some "ad_response" ∧ r.fill = some true
  | .quartile => False

/-- `base` already excludes null campaigns. -/
theorem inBase_eq (r : ArchiveRow) : inBase r = inCampaign r := by
  unfold inBase inCampaign
  cases r.campaignId <;> simp

theorem batchCounts_eq_true {r : ArchiveRow} {kind : Kind} :
    batchCounts kind r = true ↔ BatchText r kind ∧ inCampaign r = true := by
  cases kind <;>
    simp [batchCounts, isImpression, isClick, isComplete, isRequest, inBase_eq, BatchText, and_comm]

theorem batchCounts_iff {topic : Topic} {r : EventRow} {kind : Kind} {c : String} :
    BatchCounts topic r kind c ↔
      BatchText (archiveRow topic r) kind ∧ r.campaignId = some c ∧ c ∉ nonCampaign := by
  have hcampaign : (archiveRow topic r).campaignId = r.campaignId := rfl
  unfold BatchCounts
  rw [batchCounts_eq_true, inCampaign, hcampaign, and_assoc]
  refine and_congr_right fun _ => ?_
  constructor
  · rintro ⟨hin, hc⟩
    rw [hc] at hin
    exact ⟨hc, by simpa using hin⟩
  · rintro ⟨hc, hnon⟩
    exact ⟨by simpa [hc] using hnon, hc⟩

/-- The topic of the records that the batch counts as a kind. -/
def topicOf : Kind → Topic
  | .impression => .impression
  | .click => .click
  | .complete => .quartile
  | .request => .request
  | .quartile => .quartile

/-- The texts the batch looks for each belong to one topic, so a routed record can only count as the
kind of its topic. -/
theorem topicOf_of_batchText {topic : Topic} {r : EventRow} {s : String} {k : Kind}
    (hs : r.eventType = some s) (htopic : topicFor s = some topic)
    (h : BatchText (archiveRow topic r) k) : topicOf k = topic := by
  have howner : ∀ text, r.eventType = some text → topicFor text = some topic := by
    intro text htext
    obtain rfl : s = text := Option.some.inj (hs.symm.trans htext)
    exact htopic
  cases k with
  | impression => exact Option.some.inj (howner "impression" h)
  | click => exact Option.some.inj (howner "click" h)
  | complete => exact Option.some.inj (howner "quartile" h.1)
  | request => exact Option.some.inj (howner "ad_response" h.1)
  | quartile => exact h.elim

/-- A topic whose records all count as one kind on the realtime side. -/
theorem agree_of_single {topic : Topic} {r : EventRow} {s text : String} (kind : Kind)
    (hs : r.eventType = some s) (htopic : topicFor s = some topic) (hmetric : kind ∈ metrics)
    (honly : ∀ k ∈ metrics, topicOf k = topic → kind = k)
    (hrealtime : ∀ k c, RealtimeCounts topic r k c ↔ kind = k ∧ r.campaignId = some c)
    (hbatch : BatchText (archiveRow topic r) kind ↔ r.eventType = some text) :
    Agree topic r ↔ Settled text r := by
  constructor
  · intro h c hc
    have hcounts := (h kind hmetric c).1 ((hrealtime kind c).2 ⟨rfl, hc⟩)
    rw [batchCounts_iff, hbatch] at hcounts
    exact ⟨hcounts.1, hcounts.2.2⟩
  · intro h k hk c
    rw [hrealtime, batchCounts_iff]
    constructor
    · rintro ⟨rfl, hc⟩
      obtain ⟨htext, hnon⟩ := h c hc
      exact ⟨hbatch.2 htext, hc, hnon⟩
    · rintro ⟨hk', hc, -⟩
      exact ⟨honly k hk (topicOf_of_batchText hs htopic hk'), hc⟩

/-- A record that neither side counts. -/
theorem agree_of_neither {topic : Topic} {r : EventRow}
    (hrealtime : ∀ k ∈ metrics, ∀ c, ¬ RealtimeCounts topic r k c)
    (hbatch : ∀ k ∈ metrics, ¬ BatchText (archiveRow topic r) k) : Agree topic r := by
  intro k hk c
  rw [batchCounts_iff]
  exact ⟨fun h => absurd h (hrealtime k hk c), fun h => absurd h.1 (hbatch k hk)⟩

/-! ## Topic by topic -/

theorem agree_impression {r : EventRow} {s : String} (hs : r.eventType = some s)
    (htopic : topicFor s = some .impression) : Agree .impression r ↔ Classified r .impression :=
  agree_of_single .impression hs htopic (by decide) (by decide) (fun _ _ => realtimeCounts_row)
    Iff.rfl

theorem agree_click {r : EventRow} {s : String} (hs : r.eventType = some s)
    (htopic : topicFor s = some .click) : Agree .click r ↔ Classified r .click :=
  agree_of_single .click hs htopic (by decide) (by decide) (fun _ _ => realtimeCounts_row) Iff.rfl

/-- Of the quartiles only the last one counts, on either side. -/
theorem agree_quartile {r : EventRow} {s : String} (hs : r.eventType = some s)
    (htopic : topicFor s = some .quartile) : Agree .quartile r ↔ Classified r .quartile := by
  by_cases hcomplete : r.quartile = some "complete"
  · have hsingle : Agree .quartile r ↔ Settled "quartile" r := by
      refine agree_of_single .complete hs htopic (by decide) (by decide) (fun k c => ?_) ?_
      · simp only [RealtimeCounts, allEvents, if_pos hcomplete]
        exact realtimeCounts_row
      · exact and_iff_left hcomplete
    simpa [Classified, hcomplete] using hsingle
  · have hneither : Agree .quartile r := by
      refine agree_of_neither (fun k hk c => ?_) (fun k hk htext => ?_)
      · simp only [RealtimeCounts, allEvents, if_neg hcomplete]
        rw [realtimeCounts_row]
        rintro ⟨rfl, -⟩
        exact absurd hk (by decide)
      · have honly : ∀ k ∈ metrics, topicOf k = .quartile → Kind.complete = k := by decide
        obtain rfl := honly k hk (topicOf_of_batchText hs htopic htext)
        exact hcomplete htext.2
    simp [Classified, hcomplete, hneither]

theorem realtimeCounts_request {r : EventRow} {k : Kind} {c : String} :
    RealtimeCounts .request r k c ↔ Kind.request = k ∧ r.campaignId = some c ∧
      r.eventType = some "ad_response" ∧ r.fill = some true ∧ c ≠ "nofill" := by
  unfold RealtimeCounts
  simp only [allEvents]
  split_ifs with hfilled
  · constructor
    · rintro ⟨v, hv, rfl, rfl⟩
      obtain ⟨c, hc, rfl⟩ := Option.map_eq_some_iff.1 hv
      obtain ⟨hc, hne⟩ := Option.filter_eq_some_iff.1 hc
      exact ⟨rfl, hc, hfilled.1, hfilled.2, of_decide_eq_true hne⟩
    · rintro ⟨rfl, hc, -, -, hne⟩
      have hfilter : r.campaignId.filter (fun c => c ≠ "nofill") = some c := by
        rw [hc, Option.filter_some, if_pos (by simpa using hne)]
      exact ⟨ViewRow.ofRow r .request 0 c, by rw [hfilter, Option.map_some], rfl, rfl⟩
  · constructor
    · rintro ⟨v, hv, -⟩
      cases hv
    · rintro ⟨-, -, htype, hfill, -⟩
      exact absurd ⟨htype, hfill⟩ hfilled

/-- The requests of the two sides: the realtime job leaves out one campaign, the batch three. -/
theorem agree_request {r : EventRow} {s : String} (hs : r.eventType = some s)
    (htopic : topicFor s = some .request) : Agree .request r ↔ Classified r .request := by
  have honly : ∀ k ∈ metrics, topicOf k = .request → Kind.request = k := by decide
  constructor
  · intro h htype hfill c hc hmem
    have hnon : c ∈ nonCampaign ∧ c ≠ "nofill" := by
      simp only [List.mem_cons, List.not_mem_nil, or_false] at hmem
      rcases hmem with rfl | rfl <;> decide
    have hcounts := (h .request (by decide) c).1
      (realtimeCounts_request.2 ⟨rfl, hc, htype, hfill, hnon.2⟩)
    exact (batchCounts_iff.1 hcounts).2.2 hnon.1
  · intro h k hk c
    rw [realtimeCounts_request, batchCounts_iff]
    constructor
    · rintro ⟨rfl, hc, htype, hfill, hne⟩
      refine ⟨⟨htype, hfill⟩, hc, ?_⟩
      have hnot := h htype hfill c hc
      simp only [nonCampaign, List.mem_cons, List.not_mem_nil, or_false] at hnot ⊢
      tauto
    · rintro ⟨htext, hc, hnon⟩
      obtain rfl := honly k hk (topicOf_of_batchText hs htopic htext)
      refine ⟨rfl, hc, htext.1, htext.2, ?_⟩
      rintro rfl
      exact absurd hnon (by decide)

/-- Neither side counts user behavior. -/
theorem agree_behavior {r : EventRow} {s : String} (hs : r.eventType = some s)
    (htopic : topicFor s = some .behavior) : Agree .behavior r := by
  have hnone : ∀ k ∈ metrics, topicOf k ≠ .behavior := by decide
  refine agree_of_neither (fun k hk c => ?_) (fun k hk htext => ?_)
  · rintro ⟨v, hv, -⟩
    cases hv
  · exact hnone k hk (topicOf_of_batchText hs htopic htext)

/-- The two sides agree on a routed record exactly when it is classified. -/
theorem agree_iff_classified {fmt : JsonFormat} {r : Readings} {endpoint : String} {node : Json}
    {et : Instant} {topic : Topic}
    (h : EventIngestService.Routed r.validatedAt node et topic) :
    Agree topic (EventRow.ofJson fmt (EventIngestService.ingest r endpoint node).node) ↔
      Classified (EventRow.ofJson fmt (EventIngestService.ingest r endpoint node).node) topic := by
  obtain ⟨s, hs, htopic⟩ := eventType_of_routed fmt endpoint h
  generalize EventRow.ofJson fmt (EventIngestService.ingest r endpoint node).node = row at hs ⊢
  cases topic with
  | impression => exact agree_impression hs htopic
  | quartile => exact agree_quartile hs htopic
  | click => exact agree_click hs htopic
  | request => exact agree_request hs htopic
  | behavior => simp [Classified, agree_behavior hs htopic]
  | dlq => exact absurd htopic (topicFor_ne_dlq s)

/-- An event with an event type. -/
def typedNode (eventType : String) : Json :=
  .obj [("event_id", .str "e1"), ("event_type", .str eventType), ("campaign_id", .str "c1"),
    ("event_time", .int 0)]

/-- The clock of the epoch. -/
def epochReadings : Readings := ⟨.ofEpochMilli 0, .ofEpochMilli 0, ""⟩

theorem routed_typedNode {eventType : String} {topic : Topic}
    (hblank : Text.isBlank eventType = false) (htopic : topicFor eventType = some topic) :
    EventIngestService.Routed epochReadings.validatedAt (typedNode eventType) (.ofEpochMilli 0)
      topic := by
  have hdescribes : EventIngestService.Describes
      [("event_id", .str "e1"), ("event_type", .str eventType), ("campaign_id", .str "c1"),
        ("event_time", .int 0)]
      ⟨"e1", eventType, "c1", .ofEpochMilli 0, rfl, hblank, rfl⟩ := ⟨rfl, rfl, rfl, rfl⟩
  have hclock : ¬ EventValidator.TooFarAhead epochReadings.validatedAt (.ofEpochMilli 0) := by
    decide
  exact hdescribes.routed_iff.2 ⟨hclock, rfl, htopic⟩

/-- A plain click is classified, and both sides count it. -/
theorem agree_iff_classified_click :
    Agree .click (EventRow.ofJson .jackson
      (EventIngestService.ingest epochReadings "/events" (typedNode "click")).node) :=
  (agree_iff_classified (routed_typedNode (by decide) (by decide))).2
    fun _ hc => ⟨rfl, by obtain rfl := Option.some.inj hc; decide⟩

/-- An accepted alias of an impression is counted by the realtime job only. -/
theorem alias_counted_once :
    EventIngestService.Routed epochReadings.validatedAt (typedNode "ad_impression")
      (.ofEpochMilli 0) .impression ∧
    RealtimeCounts .impression (EventRow.ofJson .jackson
      (EventIngestService.ingest epochReadings "/events" (typedNode "ad_impression")).node)
      .impression "c1" ∧
    ¬ BatchCounts .impression (EventRow.ofJson .jackson
      (EventIngestService.ingest epochReadings "/events" (typedNode "ad_impression")).node)
      .impression "c1" := by
  refine ⟨routed_typedNode (by decide) (by decide), ⟨_, rfl, rfl, rfl⟩, ?_⟩
  rintro ⟨h, -⟩
  exact absurd h (by decide)

end AdPipeline.Settlement
